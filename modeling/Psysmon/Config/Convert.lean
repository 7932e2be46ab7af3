import Psysmon.Config.Legacy
import Psysmon.Config.Lexer

/-!
# Psysmon.Config.Convert — the legacy-to-modern converter (`config/convert.py`)

A parsed legacy forest is written out in the modern grammar: the overrides as `config` statements, and every node as an
`object` block that names its parent in a `dep` attribute.  The serializer appends to three lists; nothing it does depends
on what is in them, but for the names already used and the last line.
-/

namespace Psysmon.Convert

open Lib Text Number

/-! ### Output -/

/-- What a part of the serializer appends: lines and warnings, and the integers it formats on the way. -/
structure Out where
  lines : List Text := []
  warnings : List Text := []
  ints : List ℤ := []

/-- The parts one after the other. -/
def Out.concat (os : List Out) : Out := ⟨os.flatMap Out.lines, os.flatMap Out.warnings, os.flatMap Out.ints⟩

/-- `_line`. -/
def Out.line (t : Text) : Out := { lines := [t] }

/-- `_warn`. -/
def Out.warn (message : Text) : Out := { warnings := [message] }

/-- `_fmt_num`: a float that is an integer is written without its `.0`. -/
def fmtNum : PyFloat → Text
  | .finite q => if q.den = 1 then intText q.num else Number.repr (.finite q)
  | v => Number.repr v

/-- A value that the string grammar, which has no escapes, cannot hold. -/
def Unquotable (value : Text) : Prop := '"' ∈ value ∨ '\n' ∈ value ∨ '\r' ∈ value

instance : DecidablePred Unquotable := fun _ => inferInstanceAs (Decidable (_ ∨ _ ∨ _))

/-- The value of `_quote`. -/
def quote (value : Text) : Text :=
  if Unquotable value then (value.filter (· ≠ '"')).map fun c => if c = '\n' ∨ c = '\r' then ' ' else c else value

/-- A value as it is written: a string in quotes, an integer or a bareword. -/
inductive Piece
  | quoted (value : Text)
  | int (z : ℤ)
  | word (t : Text)

def Piece.text : Piece → Text
  | .quoted value => '"' :: quote value ++ ['"']
  | .int z => intText z
  | .word t => t

def Piece.ints : Piece → List ℤ
  | .int z => [z]
  | _ => []

/-! ### Tables -/

/-- `_TYPE_KW`. -/
def typeKw : CheckType → Text
  | .ping => "ping".toList
  | .ping6 => "ping6".toList
  | .tcp => "tcp".toList
  | .udp => "udp".toList
  | .smtp => "smtp".toList
  | .pop3 => "pop3".toList
  | .pop3s => "pop3s".toList
  | .imap => "imap".toList
  | .imaps => "imaps".toList
  | .dns => "dns".toList
  | .http => "http".toList
  | .https => "https".toList
  | .ssh => "ssh".toList
  | .mysql => "mysql".toList
  | .ftp => "ftp".toList
  | .ftps => "ftps".toList
  | .telnet => "telnet".toList

/-- A row of `_GLOBAL_ORDER`, without its keyword: the emit-kind and the field. -/
inductive Global
  | str (f : StrField)
  | int (f : IntField)
  | num (f : FloatField)
  | flag (f : BoolField)
  | logLevel
  deriving DecidableEq

def Global.field : Global → Field
  | .str f => .str f
  | .int f => .int f
  | .num f => .float f
  | .flag f => .bool f
  | .logLevel => .logLevel

/-- `_GLOBAL_ORDER`. -/
def globalOrder : List (Global × Text) :=
  [(.str .sourceIp, "source_ip".toList), (.str .orgHostname, "hostname".toList), (.str .mailFrom, "sender".toList),
    (.int .pageintervalMin, "pageinterval".toList), (.num .intervalS, "queuetime".toList),
    (.int .sendPings, "send_pings".toList), (.int .minPings, "min_pings".toList), (.int .dnsexpireS, "dnsexpire".toList),
    (.int .dnslogS, "dnslog".toList), (.int .heartbeatS, "heartbeat".toList),
    (.int .statesaveS, "statesave_interval".toList), (.int .stateMaxAgeS, "state_max_age".toList),
    (.int .maxConcurrency, "maxqueued".toList), (.str .statePath, "savestate".toList), (.logLevel, "loglevel".toList),
    (.flag .pageOnDegraded, "page_on_degraded".toList)]

/-- The name of a `Settings` field, as the overrides dict has it. -/
def fieldName : Field → Text
  | .int f => match f with
    | .statusRefreshS => "status_refresh_s".toList
    | .maxConcurrency => "max_concurrency".toList
    | .numfailures => "numfailures".toList
    | .pageintervalMin => "pageinterval_min".toList
    | .sendPings => "send_pings".toList
    | .minPings => "min_pings".toList
    | .dnsexpireS => "dnsexpire_s".toList
    | .dnslogS => "dnslog_s".toList
    | .statesaveS => "statesave_s".toList
    | .stateMaxAgeS => "state_max_age_s".toList
    | .smtpPort => "smtp_port".toList
    | .heartbeatS => "heartbeat_s".toList
    | .controlPort => "control_port".toList
  | .str f => match f with
    | .configPath => "config_path".toList
    | .statusPath => "status_path".toList
    | .sourceIp => "source_ip".toList
    | .orgHostname => "org_hostname".toList
    | .statePath => "state_path".toList
    | .smtpHost => "smtp_host".toList
    | .mailFrom => "mail_from".toList
    | .controlBind => "control_bind".toList
    | .controlTokenFile => "control_token_file".toList
    | .controlTlsCert => "control_tls_cert".toList
    | .controlTlsKey => "control_tls_key".toList
  | .float f => match f with
    | .intervalS => "interval_s".toList
    | .slowCheckS => "slow_check_s".toList
  | .bool f => match f with
    | .statusHtml => "status_html".toList
    | .showUpAlso => "show_up_also".toList
    | .pageOnDegraded => "page_on_degraded".toList
    | .notifyEnabled => "notify_enabled".toList
    | .foreground => "foreground".toList
    | .controlEnabled => "control_enabled".toList
  | .contactOn => "contact_on".toList
  | .syslogFacility => "syslog_facility".toList
  | .logLevel => "log_level".toList

/-- The fields that `_emit_globals` takes out of its copy of the overrides. -/
def taken : List Field :=
  [.str .statusPath, .bool .statusHtml, .syslogFacility, .int .numfailures] ++ globalOrder.map (·.1.field)

/-- The fields it never takes out. -/
def omitted : List Field :=
  [.str .configPath, .int .statusRefreshS, .bool .showUpAlso, .float .slowCheckS, .contactOn, .str .smtpHost,
    .int .smtpPort, .bool .notifyEnabled, .bool .foreground, .bool .controlEnabled, .str .controlBind, .int .controlPort,
    .str .controlTokenFile, .str .controlTlsCert, .str .controlTlsKey]

theorem mem_taken_or_omitted (f : Field) : f ∈ taken ∨ f ∈ omitted := by
  cases f with
  | int f => cases f <;> decide
  | str f => cases f <;> decide
  | float f => cases f <;> decide
  | bool f => cases f <;> decide
  | contactOn => decide
  | syslogFacility => decide
  | logLevel => decide

/-! ### Globals -/

/-- A `config` statement. -/
structure Directive where
  name : Text
  values : List Piece

def Directive.line (d : Directive) : Text := "config ".toList ++ joinSpaces (d.name :: d.values.map Piece.text) ++ [';']

/-- The values after the keyword of a global; a flag that is off is not written. -/
def Global.values : (g : Global) → g.field.Val → Option (List Piece)
  | .flag _, on => bif on then some [] else none
  | .str _, v => some [.quoted v]
  | .num _, v => some [.word (fmtNum v)]
  | .logLevel, l => some [.word (LogLevel.value l)]
  | .int _, z => some [.int z]

/-- The statement of one row of `_GLOBAL_ORDER`. -/
def globalDirective (o : Overrides) (row : Global × Text) : Option Directive :=
  (o row.1.field).bind fun v => (row.1.values v).map (⟨row.2, ·⟩)

/-- The format of the status file. -/
def statusFormat (o : Overrides) : Text :=
  let html : Bool := (o (.bool .statusHtml)).getD true
  if html then "html".toList else "text".toList

/-- The statements that `_emit_globals` writes; `statusfile` is a pair of overrides. -/
def directives (o : Overrides) : List Directive :=
  ((o (.str .statusPath)).map fun path : Text =>
    (⟨"statusfile".toList, [.word (statusFormat o), .quoted path]⟩ : Directive)).toList ++
  ((o .syslogFacility).map fun fac : Option Text =>
    (⟨"logging".toList, [.word (fac.getD "none".toList)]⟩ : Directive)).toList ++
  globalOrder.filterMap (globalDirective o)

/-- The overrides without a directive, in a fixed order: that of the dict is not kept. -/
def leftovers (o : Overrides) : List Field := omitted.filter fun f => (o f).isSome

/-! ### Names -/

/-- A character that a name cannot hold (`_NAME_BAD`). -/
def nameBad (c : Char) : Bool := Modern.special c || isSpace c

/-- The name an object would get for its host. -/
def baseName (hostname : Text) : Text :=
  let base := hostname.map fun c => if nameBad c then '_' else c
  if base = [] then "obj".toList else base

/-- The `n`-th alternative. -/
def numbered (base : Text) (n : ℕ) : Text := base ++ '-' :: natText n

/-- The loop of `_assign`; the fuel suffices (`assign_fresh`). -/
def firstFree (used : List Text) (base : Text) : ℕ → ℕ → Text
  | 0, n => numbered base n
  | fuel + 1, n => if numbered base n ∈ used then firstFree used base fuel (n + 1) else numbered base n

/-- `_assign`. -/
def assign (used : List Text) (node : Node) : Text :=
  let base := baseName node.hostname
  if base ∈ used then firstFree used base used.length 2 else base

/-! ### Objects -/

/-- A node that is written: its name and its parent's. -/
structure Placed where
  node : Node
  name : Text
  parent : Option Text

/-- `_walk` over siblings: what it writes, in order, and the names used then. -/
def walk (parent : Option Text) : Siblings → List Text → List Placed × List Text
  | .nil, used => ([], used)
  | .cons node children rest, used =>
    let name := assign used node
    let below := walk (some name) children (name :: used)
    let after := walk parent rest below.2
    (⟨node, name, parent⟩ :: (below.1 ++ after.1), after.2)

/-- A line of an object, if it is written, and the warnings that come with it. -/
structure Row where
  key : Text
  value : Option Piece
  notice : List Text := []

/-- The types with a URL. -/
def hasUrl (t : CheckType) : Bool := t = .http || t = .https

/-- The types with optional credentials. -/
def hasLogin (t : CheckType) : Bool :=
  t = .pop3 || t = .pop3s || t = .imap || t = .imaps || t = .ftp || t = .ftps

/-- A string attribute that is left out when it is empty. -/
def nonempty (t : Text) : Option Piece := if t = [] then none else some (.quoted t)

/-- The attributes of `_emit_object`. -/
def attrs (seed : ℤ) (p : Placed) : List Row :=
  let node := p.node
  let who := "object '".toList ++ p.name ++ "'".toList
  let login : Bool := hasLogin node.checkType && node.username ≠ [] && node.password ≠ []
  [⟨"host".toList, some (.quoted node.hostname), []⟩,
    ⟨"type".toList, some (.word (typeKw node.checkType)), []⟩,
    ⟨"port".toList, if node.port ≠ 0 ∧ some node.port ≠ defaultPort node.checkType then some (.int node.port) else none,
      if (node.checkType = .tcp ∨ node.checkType = .udp) ∧ ¬ (1 ≤ node.port ∧ node.port ≤ 65535) then
        [who ++ ": port ".toList ++ intText node.port ++
          " is outside 1..65535; the modern parser will reject this object on load".toList]
      else []⟩,
    ⟨"url".toList, if hasUrl node.checkType then some (.quoted node.url) else none, []⟩,
    ⟨"urltext".toList, if hasUrl node.checkType then node.urlText.map .quoted else none, []⟩,
    ⟨"username".toList, if login then some (.quoted node.username) else none, []⟩,
    ⟨"password".toList, if login then some (.quoted node.password) else none, []⟩,
    ⟨"dns-query".toList, if node.checkType = .dns then some (.quoted node.username) else none, []⟩,
    ⟨"desc".toList, nonempty node.label, []⟩,
    ⟨"contact".toList, nonempty node.contact, []⟩,
    ⟨"group".toList, nonempty node.group, []⟩,
    ⟨"contact_on".toList, node.contactOn.map (.quoted ·.value), []⟩,
    ⟨"numfailures".toList, if node.maxDown ≠ seed then some (.int node.maxDown) else none,
      if node.maxDown < 1 then
        [who ++ ": numfailures ".toList ++ intText node.maxDown ++
          " < 1 is not representable in modern; on load the threshold falls back to the default".toList]
      else []⟩,
    ⟨"queuetime".toList, node.interval.map fun q => .word (fmtNum (.finite q)), []⟩,
    ⟨"send_pings".toList, node.sendPings.map .int, []⟩,
    ⟨"min_pings".toList, node.minPings.map .int, []⟩,
    ⟨"source".toList, node.source.map .quoted, []⟩,
    ⟨"dep".toList, p.parent.map .quoted, []⟩]

/-- `_header`. -/
def header (seed : ℤ) : Out where
  lines :=
    ["# Converted from a legacy sysmon.conf by psysmon.config.convert (#3).".toList,
      "# Per-object 'numfailures' is emitted only where it differs from the assumed".toList,
      "# default of ".toList ++ intText seed ++ "; '\x7b\x7d' nesting becomes named 'dep' edges.".toList,
      []]
  ints := [seed]

variable [Python]

/-- The warnings of `_quote`. -/
def Piece.warnings : Piece → List Text
  | .quoted value =>
    if Unquotable value then
      ["value ".toList ++ Python.reprStr value ++ " contains a quote/newline (unrepresentable); stripped".toList]
    else []
  | _ => []

def Directive.out (d : Directive) : Out where
  lines := [d.line]
  warnings := d.values.flatMap Piece.warnings
  ints := d.values.flatMap Piece.ints

/-- `_emit_globals`. -/
def emitGlobals (o : Overrides) : Out :=
  .concat ((directives o).map Directive.out ++ (leftovers o).map fun f =>
    .warn ("global override '".toList ++ fieldName f ++ "' has no modern directive; omitted".toList))

def Row.out (r : Row) : Out :=
  match r.value with
  | none => {}
  | some v =>
    { lines := ["  ".toList ++ r.key ++ ' ' :: v.text ++ [';']], warnings := r.notice ++ v.warnings, ints := v.ints }

/-- `_emit_object`. -/
def emitObject (seed : ℤ) (p : Placed) : Out :=
  .concat (.line ("object ".toList ++ p.name ++ " \x7b".toList) :: (attrs seed p).map Row.out ++
    [.line "\x7d;".toList, .line []])

/-- What `_Serializer.run` has appended before it joins the lines. -/
def serialized (seed : ℤ) (result : ParseResult Siblings) : Out :=
  let globals := Out.concat [header seed, emitGlobals result.overrides]
  let blank : Out := if globals.lines.getLast? ≠ some [] then .line [] else {}
  let objects := Out.concat ((walk none result.roots []).1.map (emitObject seed))
  let before := Out.concat [globals, blank, objects]
  let objectless : Out :=
    if result.roots = .nil ∧ before.lines.any (startsWith · "config ".toList) then
      .warn ("output has globals but no objects; detect() routes an objectless file to the legacy parser — force the ".toList
        ++ "modern parser or add an object".toList)
    else {}
  .concat [before, objectless]

/-- `"\n".join(lines).rstrip("\n") + "\n"`. -/
def joined (lines : List Text) : Text := (['\n'].intercalate lines).rdropWhile (· = '\n') ++ ['\n']

/-- `to_modern`.  `str` of an integer with too many digits raises `ValueError`. -/
def toModern (result : ParseResult Siblings) (defaultNumfailures : ℤ) : Except Modern.Failure (Text × List Text) :=
  let out := serialized defaultNumfailures result
  if ∀ z ∈ out.ints, Printable z then .ok (joined out.lines, out.warnings) else .error .valueError

/-- `convert`. -/
def convert (text : Text) (numfailures : ℤ) : Except Modern.Failure (Text × List Text) :=
  match Legacy.parse text numfailures with
  | .error e => .error (.error e)
  | .ok result => (toModern result numfailures).map fun r => (r.1, result.warnings ++ r.2)

end Psysmon.Convert
