import Psysmon.Config.Directives
import Psysmon.Config.Tree

/-!
# Psysmon.Config.Legacy — the positional `sysmon.conf` grammar (`config/legacy.py`)

A line is a stanza (`host type …`), a `config` directive or a `}`; a trailing `{` opens the child block of a ping-like
stanza.  `config` directives are position-dependent: their current values are snapshotted into every later stanza.

* `parseLine`: what one line does, apart from its braces.
* `parseBlock`: the recursion of `_Parser.parse_block`, with its call stack as an explicit list of open blocks.
-/

namespace Psysmon.Legacy

open Lib Text Number

variable [Python]

/-! ### Parser state -/

/-- The running defaults of `_Parser`, and what it has collected. -/
structure State where
  numfailures : ℤ
  contactOn : Option ContactOn := none
  source : Option Text := none
  sendPings : Option ℤ := none
  minPings : Option ℤ := none
  interval : Option ℚ := none
  overrides : Overrides := .empty
  warnings : List Text := []

namespace State

def warn (st : State) (line : ℕ) (message : Text) : State := { st with warnings := st.warnings ++ [warning line message] }

def set (st : State) (f : Field) (v : f.Val) : State := { st with overrides := st.overrides.set f v }

end State

/-! ### Stanzas -/

/-- `_TYPE_KEYWORDS`: matched by their first characters, in this order; `none` is a dropped type. -/
def typeKeywords : List (Text × Option CheckType) :=
  [("ping6".toList, some .ping6), ("pingv6".toList, some .ping6), ("icmp6".toList, some .ping6),
    ("ping".toList, some .ping), ("pop3s".toList, some .pop3s), ("imaps".toList, some .imaps),
    ("pop3".toList, some .pop3), ("imap".toList, some .imap), ("tcp".toList, some .tcp), ("udp".toList, some .udp),
    ("nntp".toList, none), ("smtp".toList, some .smtp), ("umichx500".toList, none), ("www".toList, some .http),
    ("authdns".toList, some .dns), ("radius".toList, none), ("https".toList, some .https), ("ssh".toList, some .ssh),
    ("mysql".toList, some .mysql), ("ftps".toList, some .ftps), ("ftp".toList, some .ftp),
    ("telnet".toList, some .telnet)]

/-- `_match_type`. -/
def matchType (token : Text) : Option (Text × Option CheckType) := typeKeywords.find? fun k => startsWith token k.1

/-- `_as_port`: a token that is a port number. -/
def asPort (token : Text) : Option ℤ := (int token).filter fun p => 1 ≤ p ∧ p ≤ 65535

/-- `_PING_LIKE`: the types whose stanza may open a child block. -/
def pingLike (t : CheckType) : Bool := t = .ping || t = .ping6 || t = .smtp

/-- `_source_for`: the sticky `source`, unless its address family does not fit the check. -/
def sourceFor (ctype : CheckType) (line : ℕ) (st : State) : Option Text × State :=
  match st.source with
  | none => (none, st)
  | some src =>
    if src = sourceAuto then (some src, st)
    else if Python.ipVersion src = some (if ctype = .ping6 then 6 else 4) then (some src, st)
    else (none, st.warn line ("source ".toList ++ Python.reprStr src ++ " family does not match ".toList ++ ctype.value ++
      "; leaving unbound".toList))

/-- The node a stanza starts from: the running defaults and the default port. -/
def snapshot (host : Text) (ctype : CheckType) (source : Option Text) (st : State) : Node :=
  { hostname := host
    checkType := ctype
    port := (defaultPort ctype).getD 0
    maxDown := st.numfailures
    contactOn := st.contactOn
    sendPings := st.sendPings
    minPings := st.minPings
    interval := st.interval
    source := source }

/-- The positional fields of a stanza, by type.  An error is the warning of a stanza that is skipped; the second part
of a result is a warning about fields that are ignored. -/
def hostFields (tokens : List Text) (node : Node) : Except Text (Node × Option Text) :=
  let n := tokens.length
  -- a contact that is not given stays empty
  let tok := fun i => tokens.getD i []
  match node.checkType with
  | .tcp | .udp =>
    if n < 4 then .error (node.checkType.value ++ " needs a port and label; skipping".toList)
    else match int (tok 2) with
      | none => .error ("invalid port ".toList ++ Python.reprStr (tok 2) ++ "; skipping".toList)
      | some port =>
        if port ≤ 0 then .error ("invalid port ".toList ++ Python.reprStr (tok 2) ++ "; skipping".toList)
        else .ok ({ node with port := port, label := tok 3, contact := tok 4 }, none)
  | .http | .https =>
    if n < 4 then .error (node.checkType.value ++ " needs a url and label; skipping".toList)
    else if n = 4 then .ok ({ node with url := tok 2, label := tok 3 }, none)
    else .ok ({ node with url := tok 2, urlText := some (tok 3), label := tok 4, contact := tok 5 }, none)
  | .pop3 | .pop3s | .imap | .imaps | .ftp | .ftps =>
    if n < 5 then .ok ({ node with label := tok 2, contact := tok 3 }, none)
    else .ok ({ node with username := tok 2, password := tok 3, label := tok 4, contact := tok 5 }, none)
  | .dns =>
    if n < 4 then .error "authdns needs a name and contact; skipping".toList
    else .ok ({ node with username := tok 2, contact := tok 3 }, none)
  | .ssh | .mysql | .telnet =>
    match asPort (tok 2) with
    | some port =>
      if n ≤ 3 then .error (node.checkType.value ++ " needs a label; skipping".toList)
      else .ok ({ node with port := port, label := tok 3, contact := tok 4 }, none)
    | none => .ok ({ node with label := tok 2, contact := tok 3 }, none)
  | .ping | .ping6 | .smtp =>
    .ok ({ node with label := tok 2, contact := tok 3 },
      if 5 ≤ n then some "unexpected fields after contact; ignoring".toList else none)

/-- `_parse_host`, for at least three tokens. -/
def parseHost (line : ℕ) (tokens : List Text) (st : State) : Option Node × State :=
  match matchType (tokens.getD 1 []) with
  | none => (none, st.warn line ("invalid check type ".toList ++ Python.reprStr (tokens.getD 1 []) ++ "; skipping".toList))
  | some (keyword, none) =>
    (none, st.warn line ("unsupported check type ".toList ++ Python.reprStr keyword ++ "; skipping".toList))
  | some (_, some ctype) =>
    let s := sourceFor ctype line st
    match hostFields tokens (snapshot (tokens.getD 0 []) ctype s.1 st) with
    | .error message => (none, s.2.warn line message)
    | .ok (node, none) => (some node, s.2)
    | .ok (node, some message) => (some node, s.2.warn line message)

/-! ### `config` directives -/

/-- `_one_value`: warns about extra tokens. -/
def oneValue (line : ℕ) (name : Text) (values : List Text) (st : State) : State :=
  if 1 < values.length then st.warn line ("config ".toList ++ name ++ " takes one value; using the first".toList) else st

/-- `_to_int`, with what is done to the state when the token is an integer. -/
def withInt (line : ℕ) (token : Text) (st : State) (k : ℤ → State) : State :=
  match int token with
  | some v => k v
  | none => st.warn line ("expected an integer, got ".toList ++ Python.reprStr token ++ "; skipping".toList)

/-- `_to_float`, with what is done to the state when the token is a number. -/
def withFloat (line : ℕ) (token : Text) (st : State) (k : PyFloat → State) : State :=
  match Number.float token with
  | some v => k v
  | none => st.warn line ("expected a number, got ".toList ++ Python.reprStr token ++ "; skipping".toList)

/-- `_set_int`, and `_set_global_int` after its `_one_value`. -/
def setInt (line : ℕ) (f : IntField) (token : Text) (st : State) : State :=
  withInt line token st fun v => st.set (.int f) v

/-- `_set_logging`. -/
def setLogging (line : ℕ) (facility : Text) (st : State) : State :=
  if facility = "none".toList then st.set .syslogFacility none
  else if facility ∈ facilities then st.set .syslogFacility (some facility)
  else (st.warn line ("unknown logging facility ".toList ++ Python.reprStr facility ++ "; using daemon".toList)).set
    .syslogFacility (some "daemon".toList)

/-- `_set_loglevel`. -/
def setLoglevel (line : ℕ) (level : Text) (st : State) : State :=
  match logLevelOf (Python.lower level) with
  | some l => st.set .logLevel l
  | none => (st.warn line ("unknown loglevel ".toList ++ Python.reprStr (Python.lower level) ++ "; using info".toList)).set
    .logLevel .info

/-- A path value: the remaining tokens joined, without a surrounding pair of quotes. -/
def pathValue (values : List Text) : Text := stripQuotes (strip (joinSpaces values))

/-- `_set_savestate`. -/
def setSavestate (line : ℕ) (values : List Text) (st : State) : State :=
  if pathValue values = [] then st.warn line "savestate needs a file path; skipping".toList
  else st.set (.str .statePath) (pathValue values)

/-- `_set_statusfile`. -/
def setStatusfile (line : ℕ) (values : List Text) (st : State) : State :=
  match values with
  | [fmt, path] =>
    if startsWith fmt "html".toList then (st.set (.bool .statusHtml) true).set (.str .statusPath) path
    else if startsWith fmt "text".toList then (st.set (.bool .statusHtml) false).set (.str .statusPath) path
    else st.warn line ("statusfile type ".toList ++ Python.reprStr fmt ++
      " invalid (want html or text); skipping".toList)
  | _ => st.warn line "statusfile needs <html|text> <path>; skipping".toList

/-- `_set_contact_on`. -/
def setContactOn (line : ℕ) (value : Text) (st : State) : State :=
  match contactOnOf value with
  | some c => { st with contactOn := some c }
  | none => { st.warn line ("unknown contact_on ".toList ++ Python.reprStr value ++ " (want ".toList ++ contactOnText ++
      "); using both".toList) with contactOn := some .both }

/-- `_set_sticky_source`. -/
def setStickySource (line : ℕ) (value : Text) (st : State) : State :=
  let val := stripQuotes (strip value)
  if Python.lower val = sourceAuto then { st with source := some sourceAuto }
  else if (Python.ipVersion val).isSome then { st with source := some val }
  else st.warn line ("source must be an IP address or 'auto', got ".toList ++ Python.reprStr value ++
    "; ignoring".toList)

/-- The sticky `queuetime`, with `_valid_interval`. -/
def setQueuetime (line : ℕ) (token : Text) (st : State) : State :=
  withFloat line token st fun v =>
    match v with
    | .finite q => if 0 < q then { st with interval := some q }
      else st.warn line ("config queuetime must be a positive number, got ".toList ++ Number.repr (.finite q) ++
        "; ignoring".toList)
    | v => st.warn line ("config queuetime must be a positive number, got ".toList ++ Number.repr v ++ "; ignoring".toList)

/-- `_sticky_count`, with what is done to the state by a valid count. -/
def stickyCount (line : ℕ) (name : Text) (token : Text) (st : State) (k : ℤ → State) : State :=
  withInt line token st fun v =>
    if v < 1 then st.warn line ("config ".toList ++ name ++ " must be >= 1, got ".toList ++ intText v ++
      "; ignoring".toList)
    else k v

/-- `_PATH_STR_GLOBALS`. -/
def pathStrGlobals : List Text := ["control_token_file".toList, "control_tls_cert".toList, "control_tls_key".toList]

/-- `_set_global_str`. -/
def setGlobalStr (line : ℕ) (f : StrField) (name : Text) (values : List Text) (st : State) : State :=
  let isPath := name ∈ pathStrGlobals
  let st := if isPath then st else oneValue line name values st
  let value := if isPath then pathValue values else stripQuotes (values.headD [])
  if value = [] then st.warn line ("config ".toList ++ name ++ " needs a value; skipping".toList)
  else st.set (.str f) value

/-- `_handle_config`: the original directives are matched by their first characters, the later ones exactly. -/
def handleConfig (line : ℕ) (tokens : List Text) (st : State) : State :=
  match tokens with
  | _ :: directive :: values =>
    let value := values.headD []
    let one := oneValue line directive values st
    if values = [] ∧ (flagDirectives.lookup directive).isNone then
      st.warn line ("config ".toList ++ directive ++ " needs a value; skipping".toList)
    else if startsWith directive "pageinterval".toList then setInt line .pageintervalMin value st
    else if startsWith directive "logging".toList then setLogging line value st
    else if startsWith directive "loglevel".toList then setLoglevel line value st
    else if startsWith directive "dnslog".toList then setInt line .dnslogS value st
    else if startsWith directive "dnsexpire".toList then setInt line .dnsexpireS value st
    else if startsWith directive "heartbeat".toList then setInt line .heartbeatS value st
    else if startsWith directive "savestate".toList then setSavestate line values st
    else if startsWith directive "statusfile".toList then setStatusfile line values st
    else if startsWith directive "numfailures".toList then
      withInt line value st fun v => { st.set (.int .numfailures) v with numfailures := v }
    else if startsWith directive "sleeptime".toList then
      st.warn line "config sleeptime is obsolete; ignored (use --interval)".toList
    -- sticky directives, before the tables that hold the same names
    else if directive = "contact_on".toList then setContactOn line value one
    else if directive = "source".toList then setStickySource line value one
    else if directive = "queuetime".toList then setQueuetime line value one
    else if directive = "send_pings".toList then
      stickyCount line directive value one fun v => { one with sendPings := some v }
    else if directive = "min_pings".toList then
      stickyCount line directive value one fun v => { one with minPings := some v }
    else match intDirectives.lookup directive, floatDirectives.lookup directive, strDirectives.lookup directive,
        flagDirectives.lookup directive with
      | some f, _, _, _ => setInt line f value one
      | none, some f, _, _ => withFloat line value one fun v => one.set (.float f) v
      | none, none, some f, _ => setGlobalStr line f directive values st
      | none, none, none, some ⟨f, v⟩ =>
        (if values = [] then st
          else st.warn line ("config ".toList ++ directive ++ " takes no value; ignoring the rest".toList)).set f v
      | none, none, none, none =>
        st.warn line ("unknown config directive ".toList ++ Python.reprStr directive ++ "; skipping".toList)
  | _ => st.warn line "config line needs a directive; skipping".toList

/-! ### Blocks -/

/-- What a line asks of the block structure. -/
inductive Action
  /-- A blank line or a comment. -/
  | skip
  /-- A `\x7d`. -/
  | close
  /-- Any other line: the node of an accepted stanza, and whether the line opens a block. -/
  | stanza (node : Option Node) (opens : Bool)

/-- The tokens of a line without its trailing block-open, which comes off before the cap of seven fields. -/
def stanzaTokens (tokens : List Text) : List Text :=
  if tokens.getLast? = some "\x7b".toList then tokens.dropLast else tokens

/-- The body of the loop in `parse_block`, up to the braces. -/
def parseLine (line : ℕ) (raw : Text) (st : State) : Action × State :=
  let tokens := split raw
  match tokens with
  | [] => (.skip, st)
  | first :: _ =>
    if first.head? = some ';' ∨ first.head? = some '#' then (.skip, st)
    else if first = "\x7d".toList then (.close, st)
    else
      let opens : Bool := tokens.getLast? = some "\x7b".toList
      let fields := stanzaTokens tokens
      let st := if 7 < fields.length then st.warn line "too many fields; using the first 7".toList else st
      let fields := fields.take 7
      if fields = [] then (.stanza none opens, st.warn line "not enough fields; skipping".toList)
      else if fields.head? = some "config".toList then
        let st := handleConfig line fields st
        (.stanza none opens,
          if opens then st.warn line "a config line cannot open a block; ignoring the '\x7b'".toList else st)
      else if fields.length < 3 then (.stanza none opens, st.warn line "not enough fields; skipping".toList)
      else
        let r := parseHost line fields st
        (.stanza r.1 opens, r.2)

/-- `_MAX_NESTING_DEPTH`. -/
def maxNestingDepth : ℕ := 64

/-- A block that is open around the current one: the node whose children the inner block holds (`none`: it is read and
discarded), and the siblings before it. -/
abbrev Outer := Option Node × Siblings

/-- The siblings after an inner block has been closed. -/
def closeBlock (o : Outer) (children : Siblings) : Siblings :=
  match o.1 with
  | some node => o.2.append (.cons node children .nil)
  | none => o.2

/-- What `parse_block` returns at the end of the file, at every level. -/
def closeAll : List Outer → Siblings → Siblings
  | [], cur => cur
  | o :: outer, cur => closeAll outer (closeBlock o cur)

/-- The siblings with an accepted stanza added. -/
def addNode (cur : Siblings) : Option Node → Siblings
  | none => cur
  | some node => cur.append (.cons node .nil .nil)

/-- `_Parser.parse_block`: `cur` are the siblings of the innermost open block, `outer` the blocks around it. -/
def parseBlock : List (Text × ℕ) → List Outer → Siblings → State → Except ParseError (Siblings × State)
  | [], outer, cur, st => .ok (closeAll outer cur, st)
  | (raw, line) :: rest, outer, cur, st =>
    match parseLine line raw st with
    | (.skip, st) => parseBlock rest outer cur st
    | (.close, st) =>
      match outer with
      | [] => parseBlock rest [] cur (st.warn line "unexpected '\x7d' at top level; ignoring".toList)
      | o :: outer => parseBlock rest outer (closeBlock o cur) st
    | (.stanza node opens, st) =>
      if opens = false then parseBlock rest outer (addNode cur node) st
      else if maxNestingDepth < outer.length + 1 then
        .error ⟨"configuration nesting exceeds the maximum depth of ".toList ++ natText maxNestingDepth⟩
      else match node with
        | none => parseBlock rest ((none, cur) :: outer) .nil st
        | some n =>
          if pingLike n.checkType then parseBlock rest ((some n, cur) :: outer) .nil st
          else parseBlock rest ((none, addNode cur node) :: outer) .nil
            (st.warn line (n.checkType.value ++ " cannot have children; ignoring block".toList))

/-- `parse`. -/
def parse (text : Text) (numfailures : ℤ) : Except ParseError (ParseResult Siblings) :=
  (parseBlock ((splitlines text).zipIdx 1) [] .nil { numfailures }).map fun r =>
    { roots := r.1, overrides := r.2.overrides, warnings := r.2.warnings }

end Psysmon.Legacy
