import Psysmon.Config.Graph

/-!
# Psysmon.Config.Modern — the parser of the `object{}` grammar (`config/modern.py`)

Statements end at a `;` or with a `{ … }` body.  `config` and `set` fill the overrides and the variables, `object` and
`group` blocks are collected; at the end the group defaults are resolved and the `dep` edges linked into a graph.
-/

namespace Psysmon.Modern

open Lib Text Number

/-! ### Parser state -/

/-- `_Parser`; `numfailures` is the threshold that objects start from. -/
structure State where
  numfailures : ℤ
  vars : List (Text × Text) := []
  overrides : Overrides := .empty
  warnings : List Text := []
  objects : List Obj := []
  groups : List (Text × List (Text × Text)) := []
  rootName : Option Text := none
  rootLine : ℕ := 0

/-- The state with the warnings of a computation added. -/
def State.logged (st : State) (w : List Text) : State := { st with warnings := st.warnings ++ w }

def State.warn (st : State) (line : ℕ) (message : Text) : State := st.logged [warning line message]

variable [Python]

/-! ### Substitution -/

/-- The first character of a variable name. -/
def nameStart (c : Char) : Bool := c.isAlpha || c = '_'

/-- `_VAR_RE.sub`: the text, and the names of the undefined variables, which are left as they are. -/
def expand (vars : List (Text × Text)) : Text → Text × List Text
  | '$' :: c :: cs =>
    if nameStart c then
      let name := c :: cs.takeWhile Python.isWord
      let r := expand vars (cs.dropWhile Python.isWord)
      match vars.lookup name with
      | some v => (v ++ r.1, r.2)
      | none => ('$' :: name ++ r.1, name :: r.2)
    else
      let r := expand vars (c :: cs)
      ('$' :: r.1, r.2)
  | c :: cs =>
    let r := expand vars cs
    (c :: r.1, r.2)
  | [] => ([], [])
termination_by t => t.length
decreasing_by
  · have := (cs.dropWhile_suffix Python.isWord).length_le
    simp only [List.length_cons]
    omega
  · simp
  · simp

/-- An expanded text is made of the text and of the variables. -/
theorem mem_expand {vars : List (Text × Text)} {t : Text} {x : Char} (h : x ∈ (expand vars t).1) :
    x ∈ t ∨ ∃ v ∈ vars, x ∈ v.2 := by
  fun_induction expand vars t with
  | case1 c cs hc name r v hv ih =>
    rcases List.mem_append.mp h with h | h
    · exact .inr ⟨_, mem_of_lookup hv, h⟩
    · exact (ih h).imp_left fun h => by simp [(cs.dropWhile_suffix _).mem h]
  | case2 c cs hc name r hv ih =>
    have hname : '$' :: name ⊆ '$' :: c :: cs :=
      List.cons_subset_cons _ (List.cons_subset_cons _ (cs.takeWhile_prefix _).subset)
    rcases List.mem_append.mp h with h | h
    · exact .inl (hname h)
    · exact (ih h).imp_left fun h => by simp [(cs.dropWhile_suffix _).mem h]
  | case3 c cs hc r ih =>
    rcases List.mem_cons.mp h with rfl | h
    · exact .inl List.mem_cons_self
    · exact (ih h).imp_left (List.mem_cons_of_mem _)
  | case4 c cs hc r ih =>
    rcases List.mem_cons.mp h with rfl | h
    · exact .inl List.mem_cons_self
    · exact (ih h).imp_left (List.mem_cons_of_mem _)
  | case5 => exact .inl h

/-- `_subst`. -/
def subst (vars : List (Text × Text)) (line : ℕ) (value : Text) : Log Text :=
  let r := expand vars value
  ⟨r.1, r.2.map fun name => warning line ("undefined variable $".toList ++ name ++ "; left literal".toList)⟩

/-! ### `config` directives -/

/-- `_one_value`. -/
def oneValue (vars : List (Text × Text)) (line : ℕ) (name : Text) : List Token → Log (Option Text)
  | [] => do
    .warn line ("config ".toList ++ name ++ " needs a value; skipping".toList)
    return none
  | v :: more => do
    .warnIf (more ≠ []) line ("config ".toList ++ name ++ " takes one value; using the first".toList)
    some <$> subst vars line v.value

/-- The setters of one value: what `k` makes of it, if it is there. -/
def withValue (vars : List (Text × Text)) (line : ℕ) (name : Text) (values : List Token) (o : Overrides)
    (k : Text → Log Overrides) : Log Overrides := do
  match ← oneValue vars line name values with
  | none => return o
  | some raw => k raw

/-- `_set_int`. -/
def setInt (vars : List (Text × Text)) (line : ℕ) (f : IntField) (name : Text) (values : List Token)
    (o : Overrides) : Log Overrides :=
  withValue vars line name values o fun raw =>
    match int raw with
    | some v => pure (o.set (.int f) v)
    | none => do
      .warn line ("config ".toList ++ name ++ " expects an integer, got '".toList ++ raw ++ "'; skipping".toList)
      return o

/-- `_set_float`. -/
def setFloat (vars : List (Text × Text)) (line : ℕ) (f : FloatField) (name : Text) (values : List Token)
    (o : Overrides) : Log Overrides :=
  withValue vars line name values o fun raw =>
    match Number.float raw with
    | some v => pure (o.set (.float f) v)
    | none => do
      .warn line ("config ".toList ++ name ++ " expects a number, got '".toList ++ raw ++ "'; skipping".toList)
      return o

/-- `_set_str`. -/
def setStr (vars : List (Text × Text)) (line : ℕ) (f : StrField) (name : Text) (values : List Token)
    (o : Overrides) : Log Overrides :=
  withValue vars line name values o fun raw => pure (o.set (.str f) raw)

/-- `_set_loglevel`. -/
def setLoglevel (vars : List (Text × Text)) (line : ℕ) (values : List Token) (o : Overrides) : Log Overrides :=
  withValue vars line "loglevel".toList values o fun raw =>
    match logLevelOf (Python.lower raw) with
    | some l => pure (o.set .logLevel l)
    | none => do
      .warn line ("unknown loglevel '".toList ++ raw ++ "'; using info".toList)
      return o.set .logLevel .info

/-- `_set_logging`. -/
def setLogging (vars : List (Text × Text)) (line : ℕ) (values : List Token) (o : Overrides) : Log Overrides :=
  withValue vars line "logging".toList values o fun raw =>
    if raw = "none".toList then pure (o.set .syslogFacility none)
    else if raw ∈ facilities then pure (o.set .syslogFacility (some raw))
    else do
      .warn line ("unknown logging facility '".toList ++ raw ++ "'; using daemon".toList)
      return o.set .syslogFacility (some "daemon".toList)

/-- `_set_contact_on`. -/
def setContactOn (vars : List (Text × Text)) (line : ℕ) (values : List Token) (o : Overrides) : Log Overrides :=
  withValue vars line "contact_on".toList values o fun raw =>
    match contactOnOf raw with
    | some c => pure (o.set .contactOn c)
    | none => do
      .warn line ("unknown contact_on '".toList ++ raw ++ "' (want ".toList ++ contactOnText ++ "); using both".toList)
      return o.set .contactOn .both

/-- `_set_statusfile`. -/
def setStatusfile (vars : List (Text × Text)) (line : ℕ) (values : List Token) (o : Overrides) : Log Overrides :=
  match values with
  | [fmt, path] =>
    if startsWith fmt.value "html".toList then
      (fun p => (o.set (.bool .statusHtml) true).set (.str .statusPath) p) <$> subst vars line path.value
    else if startsWith fmt.value "text".toList then
      (fun p => (o.set (.bool .statusHtml) false).set (.str .statusPath) p) <$> subst vars line path.value
    else do
      .warn line ("statusfile format '".toList ++ fmt.value ++ "' invalid (want html or text); skipping".toList)
      return o
  | _ => do
    .warn line "config statusfile needs <html|text> \"<path>\"; skipping".toList
    return o

/-- `_apply_config`. -/
def applyConfig (vars : List (Text × Text)) (line : ℕ) (name : Text) (values : List Token) (o : Overrides) :
    Log Overrides :=
  match intDirectives.lookup name, floatDirectives.lookup name, strDirectives.lookup name,
      flagDirectives.lookup name with
  | some f, _, _, _ => setInt vars line f name values o
  | none, some f, _, _ => setFloat vars line f name values o
  | none, none, some f, _ => setStr vars line f name values o
  | none, none, none, some ⟨f, v⟩ => do
    .warnIf (values ≠ []) line ("config ".toList ++ name ++ " takes no value; ignoring the rest".toList)
    return o.set f v
  | none, none, none, none =>
    if name = "loglevel".toList then setLoglevel vars line values o
    else if name = "logging".toList then setLogging vars line values o
    else if name = "contact_on".toList then setContactOn vars line values o
    else if name = "statusfile".toList then setStatusfile vars line values o
    else if name = "sleeptime".toList then do
      .warn line "config sleeptime is obsolete; ignored (use queuetime / --interval)".toList
      return o
    else do
      .warn line ("unknown config directive '".toList ++ name ++ "'; skipping".toList)
      return o

/-- `_config`. -/
def configStatement (line : ℕ) (st : State) (ts : List Token) : State × List Token :=
  let r := statementArgs line ts
  let st := st.logged r.log
  match r.val.1 with
  | [] => (st.warn line "config directive needs a name; skipping".toList, r.val.2)
  | name :: values =>
    if name.kind = .word then
      let c := applyConfig st.vars line name.value values st.overrides
      ({ st with overrides := c.val, warnings := st.warnings ++ c.log }, r.val.2)
    else (st.warn line "config directive needs a name; skipping".toList, r.val.2)

/-- `_set`. -/
def setStatement (line : ℕ) (st : State) (ts : List Token) : State × List Token :=
  let r := statementArgs line ts
  let st := st.logged r.log
  match r.val.1 with
  | name :: eq :: value :: more =>
    if name.kind = .word ∧ eq.kind = .equals ∧ (value.kind = .string ∨ value.kind = .word) then
      let st := if more ≠ [] then st.warn line "'set' takes a single value; using the first".toList else st
      let v := subst st.vars line value.value
      ({ st with vars := (name.value, v.val) :: st.vars, warnings := st.warnings ++ v.log }, r.val.2)
    else (st.warn line "malformed 'set' (expected: set NAME = \"value\";); skipping".toList, r.val.2)
  | _ => (st.warn line "malformed 'set' (expected: set NAME = \"value\";); skipping".toList, r.val.2)

/-- `_root`. -/
def rootStatement (line : ℕ) (st : State) (ts : List Token) : State × List Token :=
  let r := statementArgs line ts
  let st := st.logged r.log
  match r.val.1 with
  | eq :: name :: _ =>
    if eq.kind = .equals ∧ name.kind = .string then
      let v := subst st.vars line name.value
      ({ st with rootName := some v.val, rootLine := line, warnings := st.warnings ++ v.log }, r.val.2)
    else (st.warn line "malformed root (expected: root = \"name\";); skipping".toList, r.val.2)
  | _ => (st.warn line "malformed root (expected: root = \"name\";); skipping".toList, r.val.2)

/-- The values of a block's attributes after substitution, `dep` of an object apart. -/
def resolve (vars : List (Text × Text)) : List Attr → Log (List (Text × Text))
  | [] => pure []
  | a :: attrs => do
    let v ← match a.value with
      | some v => subst vars a.line v
      | none => pure []
    let rest ← resolve vars attrs
    return (a.key, v) :: rest

/-- `_OBJECT_ATTRS`. -/
def objectAttrs : List Text :=
  ["host".toList, "ip".toList, "type".toList, "port".toList, "desc".toList, "contact".toList, "url".toList,
    "urltext".toList, "username".toList, "password".toList, "dns-query".toList, "dep".toList, "queuetime".toList,
    "send_pings".toList, "min_pings".toList, "numfailures".toList, "group".toList, "contact_on".toList,
    "source".toList]

/-- `_GROUP_ATTRS`. -/
def groupAttrs : List Text :=
  ["source".toList, "contact".toList, "contact_on".toList, "numfailures".toList, "queuetime".toList,
    "send_pings".toList, "min_pings".toList]

/-- The warnings about attributes outside a table. -/
def unsupported (known : List Text) (who : Text) : List Attr → Log Unit
  | [] => pure ()
  | a :: attrs => do
    .warnIf (a.key ∉ known) a.line
      (who ++ ": attribute '".toList ++ a.key ++ "' isn't supported yet; ignoring".toList)
    unsupported known who attrs

/-! ### Values of nodes -/

/-- `object 'NAME'`, the start of most warnings. -/
def who (name : Text) : Text := "object '".toList ++ name ++ "'".toList

/-- `_parse_source`. -/
def parseSource (line : ℕ) (who : Text) (raw : Text) : Log (Option Text) :=
  let val := strip raw
  if Python.lower val = sourceAuto then pure (some sourceAuto)
  else if (Python.ipVersion val).isSome then pure (some val)
  else do
    .warn line (who ++ ": source must be an IP address or 'auto', got '".toList ++ raw ++ "'; ignoring".toList)
    return none

/-- `_source_family_ok`. -/
def sourceFamilyOk (ctype : CheckType) (src : Text) : Bool :=
  src = sourceAuto || Python.ipVersion src = some (if ctype = .ping6 then 6 else 4)

/-- `_number` with `int`, its value only. -/
def numberInt (raw : Text) : Option ℤ := if isdigit ((strip raw).dropWhile (· = '-')) then int raw else none

/-- `_number` with `float`, its value only. -/
def numberFloat (raw : Text) : Option ℚ :=
  match Number.float raw with
  | some (.finite q) => some q
  | _ => none

/-- `_number`: the value, with a warning if there is none. -/
def number {α : Type} (line : ℕ) (name key raw : Text) (value : Option α) : Log (Option α) := do
  .warnIf (value.isNone) line
    (who name ++ ": '".toList ++ key ++ "' expects a number, got '".toList ++ raw ++ "'; ignoring".toList)
  return value

/-- `_port`.  A text of digits that `int` does not take (superscripts, more than 4300 digits) raises `ValueError`
here, and nothing in the parser catches it. -/
def port (line : ℕ) (name : Text) : Option Text → Except Failure (Log (Option ℤ))
  | none => .ok do
    .warn line (who name ++ " needs a 'port'; skipping".toList)
    return none
  | some raw =>
    let invalid : Log (Option ℤ) := do
      .warn line (who name ++ ": invalid port '".toList ++ raw ++ "'; skipping".toList)
      return none
    if isdigit (strip raw) then
      match int (strip raw) with
      | none => .error .valueError
      | some p => .ok (if 0 < p ∧ p ≤ 65535 then pure (some p) else invalid)
    else .ok invalid

/-- The update of a node by an attribute, if the attribute is there. -/
def ifGiven (resolved : List (Text × Text)) (key : Text) (f : Text → Node → Log Node) (node : Node) : Log Node :=
  match resolved.lookup key with
  | none => pure node
  | some raw => f raw node

/-- `queuetime` of `_apply_overrides`. -/
def setQueuetime (line : ℕ) (name raw : Text) (node : Node) : Log Node := do
  match ← number line name "queuetime".toList raw (numberFloat raw) with
  | none => return node
  | some interval =>
    if interval ≤ 0 then
      .warn line (who name ++ ": queuetime must be > 0; ignoring".toList)
      return node
    else return { node with interval := some interval }

/-- `numfailures` of `_apply_overrides`. -/
def setNumfailures (line : ℕ) (name raw : Text) (node : Node) : Log Node := do
  match ← number line name "numfailures".toList raw (numberInt raw) with
  | none => return node
  | some nf =>
    if nf < 1 then
      .warn line (who name ++ ": numfailures must be >= 1; ignoring".toList)
      return node
    else return { node with maxDown := nf }

/-- `contact_on` of `_apply_overrides`. -/
def setNodeContactOn (line : ℕ) (name raw : Text) (node : Node) : Log Node :=
  match contactOnOf raw with
  | some c => pure { node with contactOn := some c }
  | none => do
    .warn line (who name ++ ": contact_on must be one of ".toList ++ contactOnText ++ "; ignoring".toList)
    return node

/-- `source` of `_apply_overrides`. -/
def setSource (line : ℕ) (name raw : Text) (node : Node) : Log Node := do
  match ← parseSource line (who name) raw with
  | none => return node
  | some src =>
    if sourceFamilyOk node.checkType src then return { node with source := some src }
    else
      .warn line (who name ++ ": source ".toList ++ src ++ " is the wrong family for a ".toList ++ node.checkType.value ++
        " check; leaving unbound".toList)
      return node

/-- A ping count as far as it is a number. -/
def pingCount (line : ℕ) (name : Text) (resolved : List (Text × Text)) (key : Text) : Log (Option ℤ) :=
  match resolved.lookup key with
  | none => pure none
  | some raw => number line name key raw (numberInt raw)

/-- A ping count must be at least 1. -/
def atLeastOne (line : ℕ) (name key : Text) : Option ℤ → Log (Option ℤ)
  | none => pure none
  | some n =>
    if n < 1 then do
      .warn line (who name ++ ": ".toList ++ key ++ " must be >= 1; ignoring".toList)
      return none
    else pure (some n)

/-- More replies than echoes cannot be asked for: both counts are dropped. -/
def ordered (line : ℕ) (name : Text) : Option ℤ → Option ℤ → Log (Option ℤ × Option ℤ)
  | some send, some minp =>
    if send < minp then do
      .warn line (who name ++ ": min_pings (".toList ++ intText minp ++ ") > send_pings (".toList ++ intText send ++
        "); ignoring".toList)
      return (none, none)
    else pure (some send, some minp)
  | send, minp => pure (send, minp)

/-- `_apply_ping_counts`: an atomic pair, a rejected count takes its partner with it. -/
def applyPingCounts (line : ℕ) (name : Text) (resolved : List (Text × Text)) (node : Node) : Log Node := do
  let send ← pingCount line name resolved "send_pings".toList
  let minp ← pingCount line name resolved "min_pings".toList
  let send ← atLeastOne line name "send_pings".toList send
  let minp ← atLeastOne line name "min_pings".toList minp
  let pair ← ordered line name send minp
  if ((resolved.lookup "send_pings".toList).isSome ∧ pair.1 = none) ∨
      ((resolved.lookup "min_pings".toList).isSome ∧ pair.2 = none) then
    return node
  else return { node with sendPings := pair.1.or node.sendPings, minPings := pair.2.or node.minPings }

/-- `_apply_overrides`. -/
def applyOverrides (line : ℕ) (name : Text) (resolved : List (Text × Text)) (node : Node) : Log Node := do
  let node ← ifGiven resolved "queuetime".toList (setQueuetime line name) node
  let node ← ifGiven resolved "numfailures".toList (setNumfailures line name) node
  let node ← ifGiven resolved "group".toList (fun raw node => pure { node with group := strip raw }) node
  let node ← ifGiven resolved "contact_on".toList (setNodeContactOn line name) node
  let node ← ifGiven resolved "source".toList (setSource line name) node
  applyPingCounts line name resolved node

/-! ### Objects -/

/-- `_TYPE_KEYWORDS`. -/
def typeKeywords : List (Text × CheckType) :=
  [("ping".toList, .ping), ("ping6".toList, .ping6), ("pingv6".toList, .ping6), ("icmp6".toList, .ping6),
    ("tcp".toList, .tcp), ("udp".toList, .udp), ("smtp".toList, .smtp), ("pop3".toList, .pop3),
    ("pop3s".toList, .pop3s), ("imap".toList, .imap), ("imaps".toList, .imaps), ("dns".toList, .dns),
    ("authdns".toList, .dns), ("http".toList, .http), ("www".toList, .http), ("https".toList, .https),
    ("ssh".toList, .ssh), ("mysql".toList, .mysql), ("ftp".toList, .ftp), ("ftps".toList, .ftps),
    ("telnet".toList, .telnet)]

/-- `_DROPPED_TYPES`. -/
def droppedTypes : List Text :=
  ["nntp".toList, "pop2".toList, "umichx500".toList, "radius".toList, "bootp".toList, "snmp".toList]

/-- `_type_error`. -/
def typeError (name : Text) : Option Text → Text
  | none => who name ++ " has no 'type'; skipping".toList
  | some kw =>
    if kw ∈ droppedTypes then who name ++ ": check type '".toList ++ kw ++ "' is not supported; skipping".toList
    else who name ++ ": invalid type '".toList ++ kw ++ "'; skipping".toList

/-- The fields that depend on the type, and the checks that they are there; `none` is an object that is skipped. -/
def typeFields (line : ℕ) (name typeKw : Text) (resolved : List (Text × Text)) (node : Node) :
    Except Failure (Log (Option Node)) :=
  let value := fun key : String => (resolved.lookup key.toList).getD []
  match node.checkType with
  | .tcp | .udp =>
    (port line name (resolved.lookup "port".toList)).map fun l => (Option.map fun p => { node with port := p }) <$> l
  | .http | .https =>
    if value "url" = [] then .ok do
      .warn line (who name ++ ": ".toList ++ typeKw ++ " needs 'url'; skipping".toList)
      return none
    else .ok (pure (some { node with url := value "url", urlText := resolved.lookup "urltext".toList }))
  | .pop3 | .pop3s | .imap | .imaps | .ftp | .ftps =>
    if value "username" ≠ [] ∧ value "password" ≠ [] then
      .ok (pure (some { node with username := value "username", password := value "password" }))
    else .ok do
      .warnIf (value "username" ≠ [] ∨ value "password" ≠ []) line
        (who name ++ ": ".toList ++ typeKw ++
          " auth needs both 'username' and 'password'; ignoring the partial credentials".toList)
      return some node
  | .dns =>
    if value "dns-query" = [] ∨ value "contact" = [] then .ok do
      .warn line (who name ++ ": dns needs 'dns-query' and 'contact'; skipping".toList)
      return none
    else .ok (pure (some { node with username := value "dns-query" }))
  | .ping | .ping6 | .smtp | .ssh | .mysql | .telnet =>
    match resolved.lookup "port".toList with
    | none => .ok (pure (some node))
    | some raw =>
      (port line name (some raw)).map fun l => (fun p => some { node with port := p.getD node.port }) <$> l

/-- The names of the `dep` edges, without repetitions. -/
def depNames (vars : List (Text × Text)) (line : ℕ) : List (Option Text) → List Text → Log (List Text)
  | [], names => pure names
  | edge :: edges, names => do
    let dep ← match edge with
      | some v => subst vars line v
      | none => pure []
    depNames vars line edges (if dep ≠ [] ∧ dep ∉ names then names ++ [dep] else names)

/-- The `dep` names of an object. -/
def objectDeps (vars : List (Text × Text)) (attrs : List Attr) : Log (List Text) :=
  match attrs.find? (·.key = "dep".toList) with
  | none => pure []
  | some a => depNames vars a.line (a.value :: a.more) []

/-- `_build_node`: the node of an object and its `dep` names, or nothing if the object is skipped. -/
def buildNode (numfailures : ℤ) (vars : List (Text × Text)) (line : ℕ) (name : Text) (attrs : List Attr) :
    Except Failure (Log (Option (Node × List Text))) :=
  let r := resolve vars (attrs.filter (·.key ≠ "dep".toList))
  let resolved := r.val
  let get := fun key : String => resolved.lookup key.toList
  let host := if (get "host").getD [] ≠ [] then (get "host").getD [] else (get "ip").getD []
  let before : Log Unit := do
    r.after
    .warnIf ((get "host").isSome ∧ (get "ip").isSome ∧ get "host" ≠ get "ip") line
      (who name ++ ": 'host' and 'ip' both set and differ; using 'host'".toList)
  if host = [] then .ok do
    before
    .warn line (who name ++ " has no 'host'; skipping".toList)
    return none
  else match (get "type").bind (typeKeywords.lookup ·) with
    | none => .ok do
      before
      .warn line (typeError name (get "type"))
      return none
    | some ctype =>
      let node : Node :=
        { hostname := host, checkType := ctype, maxDown := numfailures, port := (defaultPort ctype).getD 0 }
      (typeFields line name ((get "type").getD []) resolved node).map fun fields => do
        before
        match ← fields with
        | none => return none
        | some node =>
          let node := { node with
            label := (get "desc").getD node.label
            contact := (get "contact").getD node.contact }
          let node ← applyOverrides line name resolved node
          unsupported objectAttrs (who name) attrs
          let deps ← objectDeps vars attrs
          return some (node, deps)

/-- `_add_object`. -/
def addObject (line : ℕ) (name : Text) (attrs : List Attr) (st : State) : Except Failure State :=
  (buildNode st.numfailures st.vars line name attrs).map fun r =>
    let st := st.logged r.log
    match r.val with
    | none => st
    | some (node, deps) =>
      if st.objects.any (·.name = name) then
        st.warn line ("duplicate object name '".toList ++ name ++ "'; skipping the duplicate".toList)
      else { st with objects := st.objects ++ [{ name, node, deps, line, keys := attrs.map Attr.key }] }

/-- `object NAME \x7b … \x7d`. -/
def objectStatement (line : ℕ) (st : State) (ts : List Token) : Except Failure (State × List Token) :=
  match ts with
  | [] => .ok (st.warn line "object needs a name; skipping".toList, [])
  | n :: ts =>
    if n.kind = .word then
      match ts with
      | [] => .ok (st.warn line (who n.value ++ " is missing '\x7b'; skipping".toList), [])
      | b :: ts =>
        if b.kind = .lbrace then
          let r := collectBlockAttrs .object n.value [] ts
          let st := st.logged r.log
          let st := if r.val.2.1 then st
            else st.warn line (who n.value ++ " is missing its closing '\x7d' (reached end of file)".toList)
          (addObject line n.value r.val.1 st).map (·, r.val.2.2)
        else .ok (st.warn line (who n.value ++ " is missing '\x7b'; skipping".toList), (collectToSemi (b :: ts)).2.2)
    else .ok (st.warn line "object needs a name; skipping".toList, skipBlockOrSemi (n :: ts))

/-! ### Groups -/

/-- `_add_group`. -/
def addGroup (line : ℕ) (name : Text) (attrs : List Attr) (st : State) : State :=
  if name = [] then st.warn line "group has an empty name; skipping".toList
  else
    let r : Log (List (Text × Text)) := do
      let resolved ← resolve st.vars attrs
      let settings := resolved.filter (·.1 ∈ groupAttrs)
      let settings ← match settings.lookup "source".toList with
        | none => pure settings
        | some raw => do
          match ← parseSource line ("group '".toList ++ name ++ "'".toList) raw with
          | none => pure (settings.filter (·.1 ≠ "source".toList))
          | some src => pure (settings.map fun s => if s.1 = "source".toList then (s.1, src) else s)
      unsupported groupAttrs ("group '".toList ++ name ++ "'".toList) attrs
      return settings
    let st := st.logged r.log
    if (st.groups.lookup name).isSome then
      st.warn line ("duplicate group '".toList ++ name ++ "'; keeping the first".toList)
    else { st with groups := st.groups ++ [(name, r.val)] }

/-- `group "NAME" \x7b … \x7d`. -/
def groupStatement (line : ℕ) (st : State) (ts : List Token) : State × List Token :=
  match ts with
  | [] => (st.warn line "group needs a name; skipping".toList, [])
  | n :: ts =>
    if n.kind = .word ∨ n.kind = .string then
      let s := subst st.vars line n.value
      let name := strip s.val
      let st := st.logged s.log
      match ts with
      | [] => (st.warn line ("group '".toList ++ name ++ "' is missing '\x7b'; skipping".toList), [])
      | b :: ts =>
        if b.kind = .lbrace then
          let r := collectBlockAttrs .group (if name = [] then "?".toList else name) [] ts
          let st := st.logged r.log
          let st := if r.val.2.1 then st
            else st.warn line ("group '".toList ++ name ++ "' is missing its closing '\x7d' (reached end of file)".toList)
          (addGroup line name r.val.1 st, r.val.2.2)
        else (st.warn line ("group '".toList ++ name ++ "' is missing '\x7b'; skipping".toList),
          (collectToSemi (b :: ts)).2.2)
    else (st.warn line "group needs a name; skipping".toList, skipBlockOrSemi (n :: ts))

/-- The part of a group's defaults that an object with attributes `keys` takes over: what it has not set itself, and
the ping counts only as a pair. -/
def inherited (keys : List Text) (defaults : List (Text × Text)) : List (Text × Text) :=
  let counts := ["send_pings".toList, "min_pings".toList]
  (defaults.filter (·.1 ∉ keys)).filter fun d => d.1 ∉ counts ∨ ∀ c ∈ counts, c ∉ keys

/-- The `source` default of a group, if the address family fits. -/
def inheritSource (o : Obj) (src : Text) (node : Node) : Log Node :=
  if sourceFamilyOk node.checkType src then pure { node with source := some src }
  else do
    .warn o.line (who o.name ++ ": group '".toList ++ node.group ++ "' source ".toList ++ src ++
      " is the wrong family for a ".toList ++ node.checkType.value ++ " check; leaving unbound".toList)
    return node

/-- One round of `_resolve_group_defaults`: the node of an object, with the defaults of its group. -/
def withDefaults (groups : List (Text × List (Text × Text))) (o : Obj) : Log Node :=
  if o.node.group = [] then pure o.node
  else match groups.lookup o.node.group with
    | none => pure o.node
    | some defaults => do
      let inh := inherited o.keys defaults
      let node ← ifGiven inh "source".toList (inheritSource o) o.node
      let node ← ifGiven inh "contact".toList (fun c node => pure { node with contact := c }) node
      applyOverrides o.line o.name (inh.filter fun d => d.1 ≠ "source".toList ∧ d.1 ≠ "contact".toList) node

/-- `_resolve_group_defaults`. -/
def resolveGroupDefaults (groups : List (Text × List (Text × Text))) : List Obj → Log (List Obj)
  | [] => pure []
  | o :: objects => do
    let node ← withDefaults groups o
    let rest ← resolveGroupDefaults groups objects
    return { o with node } :: rest

/-! ### Statements -/

/-- `_statement`: the statement that starts with token `t`. -/
def statement (st : State) (t : Token) (ts : List Token) : Except Failure (State × List Token) :=
  if t.kind ≠ .word then
    .ok (st.warn t.line ("unexpected ".toList ++ t.kind.name ++ " at statement start; skipping".toList),
      (collectToSemi (t :: ts)).2.2)
  else if t.value = "config".toList then .ok (configStatement t.line st ts)
  else if t.value = "set".toList then .ok (setStatement t.line st ts)
  else if t.value = "root".toList then .ok (rootStatement t.line st ts)
  else if t.value = "object".toList then objectStatement t.line st ts
  else if t.value = "group".toList then .ok (groupStatement t.line st ts)
  else if t.value = "include".toList then
    .error (.error ⟨warning t.line "`include` isn't supported yet (a follow-up milestone, #3)".toList⟩)
  else .ok (st.warn t.line ("unknown statement '".toList ++ t.value ++ "'; skipping".toList),
    (collectToSemi (t :: ts)).2.2)

theorem length_objectStatement {line : ℕ} {st st' : State} {ts rest : List Token}
    (h : objectStatement line st ts = .ok (st', rest)) : rest.length ≤ ts.length := by
  unfold objectStatement at h
  match ts with
  | [] =>
    obtain ⟨-, rfl⟩ := Prod.mk.inj (Except.ok.inj h)
    rfl
  | n :: ts =>
    dsimp only at h
    split at h
    · match ts with
      | [] =>
        obtain ⟨-, rfl⟩ := Prod.mk.inj (Except.ok.inj h)
        simp
      | b :: ts =>
        dsimp only at h
        split at h
        · generalize addObject line n.value _ _ = a at h
          cases a with
          | error e => simp [Except.map] at h
          | ok s =>
            obtain ⟨-, rfl⟩ := Prod.mk.inj (Except.ok.inj h)
            exact (length_collectBlockAttrs _ _ _ ts).trans (by simp; omega)
        · obtain ⟨-, rfl⟩ := Prod.mk.inj (Except.ok.inj h)
          exact (length_collectToSemi _).trans (Nat.le_succ _)
    · obtain ⟨-, rfl⟩ := Prod.mk.inj (Except.ok.inj h)
      exact length_skipBlockOrSemi _

theorem length_groupStatement (line : ℕ) (st : State) (ts : List Token) :
    (groupStatement line st ts).2.length ≤ ts.length := by
  unfold groupStatement
  match ts with
  | [] => rfl
  | n :: ts =>
    dsimp only
    split
    · match ts with
      | [] => simp
      | b :: ts =>
        dsimp only
        split
        · exact (length_collectBlockAttrs _ _ _ ts).trans (by simp; omega)
        · exact (length_collectToSemi _).trans (Nat.le_succ _)
    · exact length_skipBlockOrSemi (n :: ts)

/-- What a statement leaves is shorter than what it was given. -/
theorem length_statement {st st' : State} {t : Token} {ts rest : List Token}
    (h : statement st t ts = .ok (st', rest)) : rest.length ≤ ts.length := by
  have hargs : (statementArgs t.line ts).val.2.length ≤ ts.length := length_collectToSemi ts
  unfold statement at h
  split at h
  · obtain ⟨-, rfl⟩ := Prod.mk.inj (Except.ok.inj h)
    exact length_collectToSemi_cons t ts
  split at h
  · obtain rfl := (Prod.ext_iff.mp (Except.ok.inj h)).2
    unfold configStatement
    dsimp only
    split
    · exact hargs
    · split <;> exact hargs
  split at h
  · obtain rfl := (Prod.ext_iff.mp (Except.ok.inj h)).2
    unfold setStatement
    dsimp only
    split
    · split <;> exact hargs
    · exact hargs
  split at h
  · obtain rfl := (Prod.ext_iff.mp (Except.ok.inj h)).2
    unfold rootStatement
    dsimp only
    split
    · split <;> exact hargs
    · exact hargs
  split at h
  · exact length_objectStatement h
  split at h
  · obtain rfl := (Prod.ext_iff.mp (Except.ok.inj h)).2
    exact length_groupStatement t.line st ts
  split at h
  · simp at h
  · obtain ⟨-, rfl⟩ := Prod.mk.inj (Except.ok.inj h)
    exact length_collectToSemi_cons t ts

/-- The statement loop of `parse_top`. -/
def statements (st : State) : List Token → Except Failure State
  | [] => .ok st
  | t :: ts =>
    match _h : statement st t ts with
    | .error e => .error e
    | .ok (st', rest) => statements st' rest
termination_by ts => ts.length
decreasing_by
  have := length_statement _h
  simp only [List.length_cons]
  omega

/-- `parse_top` after its loop. -/
def finish (st : State) : ParseResult Forest :=
  let objects := resolveGroupDefaults st.groups st.objects
  let forest := buildForest st.rootName st.rootLine objects.val
  ⟨forest.val, st.overrides, st.warnings ++ objects.log ++ forest.log⟩

/-- `parse`. -/
def parse (text : Text) (numfailures : ℤ) : Except Failure (ParseResult Forest) :=
  match tokenize text with
  | .error e => .error e
  | .ok ts => (statements { numfailures } ts).map finish

end Psysmon.Modern
