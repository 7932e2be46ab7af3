import Psysmon.Config.LegacyBlocks

/-!
# Psysmon.Config.LegacyDefaults — the running defaults of a legacy config

A `config` line changes at most one of the six running defaults, and the other lines none.  So each default has the value
of the last line before that sets it (`defaultsAt`), whatever blocks the line stands in; and an accepted stanza is the same
node everywhere, with the defaults of its place put in (`stamp`).

* `defaults_handleConfig`: one directive.
* `defaults_parseLine`, `action_parseLine`: one line.
* `defaultsAt_concat`: one more line.
-/

namespace Psysmon.Legacy

open Lib Text Number

/-! ### Directives -/

/-- The running defaults, without what the parser has collected. -/
def State.defaults (st : State) : State := { st with overrides := .empty, warnings := [] }

/-- The directive among the fields of a line, and its first value. -/
def directiveOf : List Text → Option (Text × Text)
  | first :: d :: v :: _ => if first = "config".toList then some (d, v) else none
  | _ => none

/-- The directive of a `config` line. -/
def directive (raw : Text) : Option (Text × Text) := directiveOf ((stanzaTokens (split raw)).take 7)

theorem directiveOf_of_head_ne {fields : List Text} (h : fields.head? ≠ some "config".toList) : directiveOf fields = none := by
  match fields with
  | [] | [_] | [_, _] => rfl
  | first :: d :: v :: _ => exact if_neg fun he => h (congrArg some he)

/-- The block-open is not the first of the fields. -/
theorem head?_stanzaTokens (first : Text) (tokens : List Text) :
    (stanzaTokens (first :: tokens)).head? = none ∨ (stanzaTokens (first :: tokens)).head? = some first := by
  unfold stanzaTokens
  split
  · cases tokens with
    | nil => exact .inl rfl
    | cons t tokens => exact .inr rfl
  · exact .inr rfl

/-- The value that the last of these lines gives to a default. -/
def lastValue {α : Type} (sets : Text → Text → Option α) (before : List (Text × ℕ)) : Option α :=
  before.reverse.findSome? fun l => (directive l.1).bind fun x => sets x.1 x.2

theorem lastValue_concat {α : Type} (sets : Text → Text → Option α) (before : List (Text × ℕ)) (l : Text × ℕ) :
    lastValue sets (before ++ [l]) = ((directive l.1).bind fun x => sets x.1 x.2).or (lastValue sets before) := by
  rw [lastValue, List.reverse_concat, List.findSome?_cons]
  cases (directive l.1).bind fun x => sets x.1 x.2 <;> rfl

def setsNumfailures (d v : Text) : Option ℤ := if startsWith d "numfailures".toList then int v else none

/-- An unknown value counts as `both`. -/
def setsContactOn (d v : Text) : Option ContactOn :=
  if d = "contact_on".toList then some ((contactOnOf v).getD .both) else none

def setsInterval (d v : Text) : Option ℚ :=
  if d = "queuetime".toList then
    match Number.float v with
    | some (.finite q) => if 0 < q then some q else none
    | _ => none
  else none

/-- `send_pings` and `min_pings`. -/
def setsCount (name d v : Text) : Option ℤ :=
  if d = name then
    match int v with
    | some c => if c < 1 then none else some c
    | none => none
  else none

/-- The directive is none of those that set a default. -/
structure Plain (d : Text) : Prop where
  numfailures : startsWith d "numfailures".toList = false
  contactOn : d ≠ "contact_on".toList
  source : d ≠ "source".toList
  queuetime : d ≠ "queuetime".toList
  sendPings : d ≠ "send_pings".toList
  minPings : d ≠ "min_pings".toList

def stickyNames : List Text :=
  ["numfailures".toList, "contact_on".toList, "source".toList, "queuetime".toList, "send_pings".toList, "min_pings".toList]

/-- The first two characters tell the other directives from those that set a default. -/
theorem plain_of_startsWith {d p : Text} (h : startsWith d p = true)
    (hp : 2 ≤ p.length ∧ ∀ name ∈ stickyNames, p.take 2 ≠ name.take 2) : Plain d := by
  have htake {d q : Text} (hq : startsWith d q = true) (hlen : 2 ≤ q.length) : d.take 2 = q.take 2 := by
    obtain ⟨r, rfl⟩ := List.isPrefixOf_iff_prefix.mp hq
    exact List.take_append_of_le_length hlen
  have hd := htake h hp.1
  have hne {name : Text} (hname : name ∈ stickyNames) : d ≠ name := fun he => hp.2 name hname (by rw [← hd, he])
  refine ⟨Bool.eq_false_iff.mpr fun h' => ?_, hne (by decide), hne (by decide), hne (by decide), hne (by decide),
    hne (by decide)⟩
  exact hp.2 "numfailures".toList (by decide) (hd.symm.trans (htake h' (by decide)))

/-- A flag sets no default. -/
theorem plain_of_flag {d : Text} (h : (flagDirectives.lookup d).isSome) : Plain d := by
  have hall : ∀ x ∈ flagDirectives, startsWith x.1 "numfailures".toList = false ∧ x.1 ∉ stickyNames := by decide
  obtain ⟨x, hx⟩ := Option.isSome_iff_exists.mp h
  obtain ⟨hnum, hnot⟩ := hall _ (mem_of_lookup hx)
  have hne {name : Text} (hname : name ∈ stickyNames) : d ≠ name := fun he => hnot (he ▸ hname)
  exact ⟨hnum, hne (by decide), hne (by decide), hne (by decide), hne (by decide), hne (by decide)⟩

theorem ite_defaults {c : Prop} [Decidable c] {a b s : State} (ha : c → a.defaults = s) (hb : ¬ c → b.defaults = s) :
    (if c then a else b).defaults = s := by
  split
  · exact ha ‹_›
  · exact hb ‹_›

section Collected

variable (line : ℕ) (st : State)

@[simp] theorem defaults_warn (message : Text) : (st.warn line message).defaults = st.defaults := rfl

@[simp] theorem defaults_set (f : Field) (v : f.Val) : (st.set f v).defaults = st.defaults := rfl

@[simp] theorem defaults_oneValue (name : Text) (values : List Text) :
    (oneValue line name values st).defaults = st.defaults := by
  unfold oneValue
  split <;> rfl

@[simp] theorem defaults_setSavestate (values : List Text) : (setSavestate line values st).defaults = st.defaults := by
  unfold setSavestate
  split <;> rfl

@[simp] theorem defaults_setGlobalStr (f : StrField) (name : Text) (values : List Text) :
    (setGlobalStr line f name values st).defaults = st.defaults := by
  unfold setGlobalStr
  by_cases hpath : name ∈ pathStrGlobals
  · simp only [hpath, if_true]
    split <;> rfl
  · simp only [hpath, if_false]
    split
    · exact defaults_oneValue line st name values
    · exact defaults_oneValue line st name values

/-- The defaults are told by their fields. -/
theorem defaults_eq_iff {a b : State} : a.defaults = b.defaults ↔
    a.numfailures = b.numfailures ∧ a.contactOn = b.contactOn ∧ a.source = b.source ∧ a.sendPings = b.sendPings ∧
      a.minPings = b.minPings ∧ a.interval = b.interval := by
  simp only [State.defaults, State.mk.injEq, and_true]

end Collected

variable [Python]

def setsSource (d v : Text) : Option Text :=
  if d = "source".toList then
    let val := stripQuotes (strip v)
    if Python.lower val = sourceAuto then some sourceAuto
    else if (Python.ipVersion val).isSome then some val else none
  else none

/-- The defaults after a directive. -/
def State.directed (d v : Text) (st : State) : State :=
  { st with
    numfailures := (setsNumfailures d v).getD st.numfailures
    contactOn := (setsContactOn d v).or st.contactOn
    source := (setsSource d v).or st.source
    sendPings := (setsCount "send_pings".toList d v).or st.sendPings
    minPings := (setsCount "min_pings".toList d v).or st.minPings
    interval := (setsInterval d v).or st.interval }

theorem directed_of_plain {d : Text} (h : Plain d) (v : Text) (st : State) : st.directed d v = st := by
  simp only [State.directed, setsNumfailures, setsContactOn, setsSource, setsCount, setsInterval, h.numfailures,
    h.contactOn, h.source, h.queuetime, h.sendPings, h.minPings, Bool.false_eq_true, if_false, Option.getD_none,
    Option.none_or]

section Setters

variable (line : ℕ) (st : State)

theorem defaults_withInt {token : Text} {k : ℤ → State} {s : State} (hk : ∀ v, int token = some v → (k v).defaults = s)
    (hn : int token = none → st.defaults = s) : (withInt line token st k).defaults = s := by
  unfold withInt
  cases h : int token with
  | none => exact hn h
  | some v => exact hk v h

@[simp] theorem defaults_setInt (f : IntField) (token : Text) : (setInt line f token st).defaults = st.defaults :=
  defaults_withInt line st (fun _ _ => rfl) fun _ => rfl

@[simp] theorem defaults_setLogging (facility : Text) : (setLogging line facility st).defaults = st.defaults := by
  unfold setLogging
  split
  · rfl
  split <;> rfl

@[simp] theorem defaults_setLoglevel (level : Text) : (setLoglevel line level st).defaults = st.defaults := by
  unfold setLoglevel
  split <;> rfl

@[simp] theorem defaults_setStatusfile (values : List Text) : (setStatusfile line values st).defaults = st.defaults := by
  unfold setStatusfile
  split
  · split
    · rfl
    split <;> rfl
  · rfl

@[simp] theorem defaults_withFloat {token : Text} {f : FloatField} :
    (withFloat line token st fun v => st.set (.float f) v).defaults = st.defaults := by
  unfold withFloat
  split <;> rfl

theorem directed_numfailures {d : Text} (h : startsWith d "numfailures".toList = true) (v : Text) :
    st.directed d v = { st with numfailures := (int v).getD st.numfailures } := by
  have hne {n : Text} (hn : startsWith n "numfailures".toList = false) : d ≠ n := by
    rintro rfl
    rw [h] at hn
    cases hn
  simp only [State.directed, setsNumfailures, setsContactOn, setsSource, setsCount, setsInterval, h, if_true,
    if_neg (hne (n := "contact_on".toList) rfl), if_neg (hne (n := "source".toList) rfl),
    if_neg (hne (n := "queuetime".toList) rfl), if_neg (hne (n := "send_pings".toList) rfl),
    if_neg (hne (n := "min_pings".toList) rfl), Option.none_or]

/-- **One directive** sets at most one default. -/
theorem defaults_handleConfig (first d : Text) (values : List Text) :
    (handleConfig line (first :: d :: values) st).defaults =
      match values with
      | v :: _ => st.defaults.directed d v
      | [] => st.defaults := by
  unfold handleConfig
  dsimp only
  by_cases hskip : values = [] ∧ (flagDirectives.lookup d).isNone
  · rw [if_pos hskip, hskip.1]
    rfl
  rw [if_neg hskip]
  trans st.defaults.directed d (values.headD [])
  · have hone : (oneValue line d values st).defaults = st.defaults := defaults_oneValue ..
    generalize oneValue line d values st = one at hone
    generalize values.headD [] = value
    have hother {p : Text} {st' : State} (hst : st'.defaults = st.defaults)
        (hp : 2 ≤ p.length ∧ ∀ name ∈ stickyNames, p.take 2 ≠ name.take 2) (h : startsWith d p = true) :
        st'.defaults = st.defaults.directed d value := by
      rw [hst, directed_of_plain (plain_of_startsWith h hp)]
    refine ite_defaults (hother (defaults_setInt ..) (by decide)) fun _ => ?_
    refine ite_defaults (hother (defaults_setLogging ..) (by decide)) fun _ => ?_
    refine ite_defaults (hother (defaults_setLoglevel ..) (by decide)) fun _ => ?_
    refine ite_defaults (hother (defaults_setInt ..) (by decide)) fun _ => ?_
    refine ite_defaults (hother (defaults_setInt ..) (by decide)) fun _ => ?_
    refine ite_defaults (hother (defaults_setInt ..) (by decide)) fun _ => ?_
    refine ite_defaults (hother (defaults_setSavestate ..) (by decide)) fun _ => ?_
    refine ite_defaults (hother (defaults_setStatusfile ..) (by decide)) fun _ => ?_
    refine ite_defaults (fun h => ?_) fun hnum => ?_
    · rw [directed_numfailures _ h]
      refine defaults_withInt line st (fun v hv => ?_) fun hv => ?_
      · rw [hv]
        rfl
      · rw [hv]
        rfl
    refine ite_defaults (hother (defaults_warn ..) (by decide)) fun _ => ?_
    refine ite_defaults (fun h => ?_) fun hcontact => ?_
    · rw [h, ← hone]
      unfold setContactOn State.directed setsContactOn
      cases contactOnOf value <;> rfl
    refine ite_defaults (fun h => ?_) fun hsource => ?_
    · rw [h, ← hone]
      unfold setStickySource State.directed setsSource
      rw [if_pos rfl]
      dsimp only
      split
      · rfl
      split <;> rfl
    refine ite_defaults (fun h => ?_) fun hqueue => ?_
    · rw [h, ← hone]
      unfold setQueuetime withFloat State.directed setsInterval
      rw [if_pos rfl]
      rcases Number.float value with _ | (q | _ | _)
      · rfl
      · dsimp only
        split <;> rfl
      · rfl
      · rfl
    refine ite_defaults (fun h => ?_) fun hsend => ?_
    · rw [h, ← hone]
      unfold stickyCount withInt State.directed setsCount
      rw [if_pos rfl]
      cases int value with
      | none => rfl
      | some c =>
        dsimp only
        split <;> rfl
    refine ite_defaults (fun h => ?_) fun hmin => ?_
    · rw [h, ← hone]
      unfold stickyCount withInt State.directed setsCount
      rw [if_pos rfl]
      cases int value with
      | none => rfl
      | some c =>
        dsimp only
        split <;> rfl
    have hplain : st.defaults.directed d value = st.defaults :=
      directed_of_plain ⟨by simpa using hnum, hcontact, hsource, hqueue, hsend, hmin⟩ value st.defaults
    rw [hplain]
    cases intDirectives.lookup d with
    | some f => exact (defaults_setInt ..).trans hone
    | none => cases floatDirectives.lookup d with
      | some f => exact (defaults_withFloat ..).trans hone
      | none => cases strDirectives.lookup d with
        | some f => exact defaults_setGlobalStr ..
        | none => cases flagDirectives.lookup d with
          | none => rfl
          | some x =>
            dsimp only
            split <;> rfl
  · cases values with
    | cons v more => rfl
    | nil =>
      refine directed_of_plain (plain_of_flag ?_) _ st.defaults
      rw [← Option.not_isNone]
      simpa using hskip

end Setters

/-! ### Lines -/

/-- The sticky `source`, if its address family fits the check. -/
def fitting (ctype : CheckType) (source : Option Text) : Option Text :=
  source.filter fun src => src = sourceAuto ∨ Python.ipVersion src = some (if ctype = .ping6 then 6 else 4)

/-- The node of a stanza that is read with these defaults. -/
def State.stamp (st : State) (n : Node) : Node :=
  { n with
    maxDown := st.numfailures
    contactOn := st.contactOn
    sendPings := st.sendPings
    minPings := st.minPings
    interval := st.interval
    source := fitting n.checkType st.source }

theorem sourceFor_fst (ctype : CheckType) (line : ℕ) (st : State) :
    (sourceFor ctype line st).1 = fitting ctype st.source := by
  unfold sourceFor fitting
  cases st.source with
  | none => rfl
  | some src =>
    dsimp only
    by_cases hauto : src = sourceAuto
    · rw [if_pos hauto, Option.filter_some, if_pos (decide_eq_true (.inl hauto))]
    · rw [if_neg hauto, Option.filter_some]
      by_cases hfit : Python.ipVersion src = some (if ctype = .ping6 then 6 else 4)
      · rw [if_pos hfit, if_pos (decide_eq_true (.inr hfit))]
      · rw [if_neg hfit, if_neg (by simp [hauto, hfit])]

theorem defaults_sourceFor (ctype : CheckType) (line : ℕ) (st : State) :
    (sourceFor ctype line st).2.defaults = st.defaults := by
  unfold sourceFor
  cases st.source with
  | none => rfl
  | some src =>
    dsimp only
    generalize (if ctype = CheckType.ping6 then 6 else 4) = version
    split
    · rfl
    split <;> rfl

theorem hostFields_stamp (st : State) (tokens : List Text) (n : Node) :
    hostFields tokens (st.stamp n) = (hostFields tokens n).map (Prod.map st.stamp id) := by
  obtain ⟨hostname, checkType, port, label, contact, group, contactOn, source, username, password, url, urlText, maxDown,
    interval, sendPings, minPings⟩ := n
  unfold hostFields
  cases checkType <;> dsimp only [State.stamp]
  case tcp | udp =>
    split
    · rfl
    split
    · rfl
    split <;> rfl
  case http | https =>
    split
    · rfl
    split <;> rfl
  case pop3 | pop3s | imap | imaps | ftp | ftps => split <;> rfl
  case dns => split <;> rfl
  case ssh | mysql | telnet =>
    split
    · split <;> rfl
    · rfl
  all_goals rfl

theorem stamp_stamp (st st' : State) (n : Node) : st'.stamp (st.stamp n) = st'.stamp n := rfl

theorem stamp_defaults (st : State) : st.defaults.stamp = st.stamp := rfl

/-- A stanza is the same node with all defaults. -/
theorem parseHost_stamp (line : ℕ) (tokens : List Text) (st : State) :
    (parseHost line tokens st).1 = (parseHost 0 tokens { numfailures := 0 }).1.map st.stamp ∧
      (parseHost line tokens st).2.defaults = st.defaults := by
  unfold parseHost
  cases matchType (tokens.getD 1 []) with
  | none => exact ⟨rfl, rfl⟩
  | some k =>
    obtain ⟨keyword, ctype⟩ := k
    cases ctype with
    | none => exact ⟨rfl, rfl⟩
    | some ctype =>
      dsimp only
      have hsnap : snapshot (tokens.getD 0 []) ctype (sourceFor ctype line st).1 st =
          st.stamp (snapshot (tokens.getD 0 []) ctype (sourceFor ctype 0 { numfailures := 0 }).1 { numfailures := 0 }) := by
        rw [sourceFor_fst]
        rfl
      have hdef := defaults_sourceFor ctype line st
      rw [hsnap, hostFields_stamp]
      cases hostFields tokens
        (snapshot (tokens.getD 0 []) ctype (sourceFor ctype 0 { numfailures := 0 }).1 { numfailures := 0 }) with
      | error message => exact ⟨rfl, hdef⟩
      | ok r =>
        obtain ⟨n, w⟩ := r
        cases w with
        | none => exact ⟨rfl, hdef⟩
        | some w => exact ⟨rfl, hdef⟩

/-- What a line is, whatever the defaults are. -/
def lineAction (raw : Text) : Action := (parseLine 0 raw { numfailures := 0 }).1

/-- The defaults after a line. -/
def State.afterLine (st : State) (raw : Text) : State := (directive raw).elim st fun x => st.directed x.1 x.2

theorem defaults_configLine (line : ℕ) {fields : List Text} (h : fields.head? = some "config".toList) (st : State) :
    (handleConfig line fields st).defaults = (directiveOf fields).elim st.defaults fun x => st.defaults.directed x.1 x.2 := by
  match fields with
  | [] => rfl
  | [_] => rfl
  | [_, d] => exact defaults_handleConfig line st _ d []
  | first :: d :: v :: more =>
    rw [defaults_handleConfig, directiveOf, if_pos (Option.some.inj h)]
    rfl

/-- **One line**: what it asks of the blocks and what it does to the defaults. -/
theorem parseLine_spec (line : ℕ) (raw : Text) (st : State) :
    (parseLine line raw st).1 = (lineAction raw).map st.stamp ∧
      (parseLine line raw st).2.defaults = st.defaults.afterLine raw := by
  unfold lineAction parseLine State.afterLine directive
  cases htokens : split raw with
  | nil => exact ⟨rfl, rfl⟩
  | cons first tokens =>
    have hhead : ∀ name, first ≠ name → ((stanzaTokens (first :: tokens)).take 7).head? ≠ some name := by
      intro name hne h
      rw [List.head?_take, if_neg (by decide)] at h
      rcases head?_stanzaTokens first tokens with h' | h'
      · rw [h'] at h
        cases h
      · exact hne (Option.some.inj (h'.symm.trans h))
    dsimp only
    generalize stanzaTokens (first :: tokens) = fields at hhead
    generalize (decide ((first :: tokens).getLast? = some "\x7b".toList)) = opens
    -- a warning about extra fields changes neither
    have hwarn : (if 7 < fields.length then st.warn line "too many fields; using the first 7".toList
        else st).defaults = st.defaults := by
      split <;> rfl
    generalize (if 7 < fields.length then st.warn line "too many fields; using the first 7".toList else st) = st' at hwarn
    have hstamp : st'.stamp = st.stamp := by rw [← stamp_defaults, hwarn, stamp_defaults]
    generalize (if 7 < fields.length then State.warn { numfailures := 0 } 0 "too many fields; using the first 7".toList
      else { numfailures := 0 }) = st₀
    split
    · rename_i hcomment
      refine ⟨rfl, ?_⟩
      rw [directiveOf_of_head_ne (hhead _ ?_)]
      · rfl
      · rintro rfl
        exact absurd hcomment (by decide)
    split
    · rename_i hclose
      refine ⟨rfl, ?_⟩
      rw [directiveOf_of_head_ne (hhead _ ?_)]
      · rfl
      · rw [hclose]
        decide
    split
    · rename_i hempty
      rw [hempty]
      exact ⟨rfl, hwarn⟩
    split
    · rename_i hconfig
      refine ⟨rfl, ?_⟩
      rw [← hwarn, ← defaults_configLine line hconfig]
      cases opens <;> rfl
    rename_i hconfig
    rw [directiveOf_of_head_ne hconfig]
    split
    · exact ⟨rfl, hwarn⟩
    · obtain ⟨hnode, hdef⟩ := parseHost_stamp line (fields.take 7) st'
      refine ⟨?_, hdef.trans hwarn⟩
      dsimp only [Action.map]
      rw [hnode, (parseHost_stamp 0 (fields.take 7) st₀).1, Option.map_map, hstamp]
      rfl

/-! ### The lines before -/

/-- The defaults after these lines. -/
def defaultsAt (z : ℤ) (before : List (Text × ℕ)) : State :=
  { numfailures := (lastValue setsNumfailures before).getD z
    contactOn := lastValue setsContactOn before
    source := lastValue setsSource before
    sendPings := lastValue (setsCount "send_pings".toList) before
    minPings := lastValue (setsCount "min_pings".toList) before
    interval := lastValue setsInterval before }

theorem defaultsAt_concat (z : ℤ) (before : List (Text × ℕ)) (l : Text × ℕ) :
    defaultsAt z (before ++ [l]) = (defaultsAt z before).afterLine l.1 := by
  unfold defaultsAt State.afterLine
  simp only [lastValue_concat]
  cases directive l.1 with
  | none => rfl
  | some x =>
    simp only [Option.bind_some, Option.elim_some, State.directed, Option.getD_or]

end Psysmon.Legacy
