import Psysmon.Config.LegacyBlocks
import Psysmon.Config.ModernSeed

/-!
# Psysmon.Config.Globals — the two parsers agree on global directives

A `config` directive that is global in both grammars has one meaning, an update of the overrides (`Means`).  Either
parser reads it off a line of its own grammar:

* legacy: `handleConfig` matches the first characters of the name and then the tables (`setterOf`); `handleConfig_means`.
* modern: the line is tokenized and `applyConfig` goes through the tables; `applyConfig_means`.

`globals_agree` puts the lines together.
-/

namespace Psysmon

open Lib Text Number

/-! ### Directives -/

/-- A `config` directive: its name and its value tokens. -/
structure Directive where
  name : Text
  values : List Text

/-- The directives that set a per-node default in the legacy grammar. -/
def stickyDirectives : List Text :=
  ["contact_on".toList, "source".toList, "queuetime".toList, "send_pings".toList, "min_pings".toList]

/-- The directives outside the tables that both grammars know, with the number of their values. -/
def otherDirectives : List (Text × ℕ) :=
  [("logging".toList, 1), ("loglevel".toList, 1), ("statusfile".toList, 2), ("sleeptime".toList, 1)]

/-- The number of value tokens a global directive requires; `none`: it is not a global directive. -/
def arity (name : Text) : Option ℕ :=
  if name ∈ stickyDirectives then none
  else if (intDirectives.lookup name).isSome ∨ (floatDirectives.lookup name).isSome ∨
      (strDirectives.lookup name).isSome then some 1
  else if (flagDirectives.lookup name).isSome then some 0
  else otherDirectives.lookup name

/-- A value token: not empty, without whitespace and without the characters that mean something in either grammar. -/
def IsValue (v : Text) : Prop := IsField v ∧ ∀ c ∈ v, c ∉ ['"', '\x7b', '\x7d', '=', ';', '#', '$']

instance : DecidablePred IsValue := fun v =>
  -- through `all`: a bounded quantifier over characters would run through all of Unicode
  decidable_of_iff (v ≠ [] ∧ v.all (fun c => !isSpace c && decide (c ∉ ['"', '\x7b', '\x7d', '=', ';', '#', '$'])) = true)
    (by simp only [IsValue, Text.IsField, List.all_eq_true, Bool.and_eq_true, Bool.not_eq_true', decide_eq_true_eq,
      forall_and, and_assoc])

/-- A global directive with its required number of values. -/
structure Directive.Global (d : Directive) : Prop where
  arity_eq : arity d.name = some d.values.length
  isValue : ∀ v ∈ d.values, IsValue v

instance : DecidablePred Directive.Global := fun d =>
  decidable_of_iff (arity d.name = some d.values.length ∧ ∀ v ∈ d.values, IsValue v)
    ⟨fun h => ⟨h.1, h.2⟩, fun h => ⟨h.arity_eq, h.isValue⟩⟩

/-- The fields of a directive's line. -/
def Directive.fields (d : Directive) : List Text := "config".toList :: d.name :: d.values

/-- The lines `config NAME VALUE`. -/
def legacyText (ds : List Directive) : Text := ds.flatMap fun d => joinSpaces d.fields ++ ['\n']

/-- The lines `config NAME VALUE;`. -/
def modernText (ds : List Directive) : Text := ds.flatMap fun d => joinSpaces d.fields ++ [';', '\n']

/-! ### What a directive means -/

/-- The facility that `logging` selects. -/
def facilityOf (v : Text) : Option Text :=
  if v = "none".toList then none else if v ∈ facilities then some v else some "daemon".toList

/-- The overrides with `html` and `path` of the status file. -/
def setStatus (o : Overrides) (html : Bool) (path : Text) : Overrides :=
  (o.set (.bool .statusHtml) html).set (.str .statusPath) path

namespace Legacy

/-- A value is not changed by stripping. -/
theorem strip_value {v : Text} (hv : IsValue v) : stripQuotes v = v ∧ pathValue [v] = v := by
  have hq : stripQuotes v = v := stripBy_eq_self fun c hc => by
    have := hv.2 c hc
    simp only [List.mem_cons, not_or] at this
    simpa using this.1
  refine ⟨hq, ?_⟩
  rw [pathValue, joinSpaces_singleton, strip_of_isField hv.1, hq]

theorem setGlobalStr_value {v : Text} (hv : IsValue v) (line : ℕ) (f : StrField) (name : Text) (st : State) :
    (setGlobalStr line f name [v] st).overrides = st.overrides.set (.str f) v := by
  have hval : (if name ∈ pathStrGlobals then pathValue [v] else stripQuotes ([v].headD [])) = v := by
    split
    · exact (strip_value hv).2
    · exact (strip_value hv).1
  have hst : (if name ∈ pathStrGlobals then st else oneValue line name [v] st) = st := by
    split <;> rfl
  unfold setGlobalStr
  dsimp only
  rw [hval, hst, if_neg hv.1.1]
  rfl

end Legacy

theorem Modern.isWord_of_isValue {w : Text} (h : IsValue w) : Modern.IsWord w := by
  refine ⟨h.1.1, fun c hc => ⟨?_, h.1.2 c hc⟩⟩
  have := h.2 c hc
  simp only [List.mem_cons, List.not_mem_nil, or_false, not_or] at this
  simp [Modern.special, this]

section Agreement

variable [Python]

/-- What a global directive does to the overrides. -/
inductive Means : Text → List Text → (Overrides → Overrides) → Prop
  | int {name : Text} {f : IntField} (h : intDirectives.lookup name = some f) (hs : name ∉ stickyDirectives) (v : Text) :
    Means name [v] fun o => (int v).elim o fun n => o.set (.int f) n
  | str {name : Text} {f : StrField} (h : strDirectives.lookup name = some f) (v : Text) :
    Means name [v] fun o => o.set (.str f) v
  | flag {name : Text} {x : Σ f : Field, f.Val} (h : flagDirectives.lookup name = some x) :
    Means name [] fun o => o.set x.1 x.2
  | logging (v : Text) : Means "logging".toList [v] fun o => o.set .syslogFacility (facilityOf v)
  | loglevel (v : Text) :
    Means "loglevel".toList [v] fun o => o.set .logLevel ((logLevelOf (Python.lower v)).getD .info)
  | statusfile (fmt path : Text) : Means "statusfile".toList [fmt, path] fun o =>
    if startsWith fmt "html".toList then setStatus o true path
    else if startsWith fmt "text".toList then setStatus o false path else o
  | sleeptime (v : Text) : Means "sleeptime".toList [v] id

/-- Every global directive means something. -/
theorem Directive.Global.means {d : Directive} (h : d.Global) : ∃ u, Means d.name d.values u := by
  obtain ⟨name, values⟩ := d
  have ha := h.arity_eq
  dsimp only [arity] at ha ⊢
  split at ha
  · cases ha
  rename_i hs
  split at ha
  · obtain ⟨v, rfl⟩ := List.length_eq_one_iff.mp (Option.some.inj ha).symm
    rename_i ht
    rcases ht with ht | ht | ht
    · obtain ⟨f, hf⟩ := Option.isSome_iff_exists.mp ht
      exact ⟨_, .int hf hs v⟩
    · -- the only number directive is the sticky `queuetime`
      obtain ⟨f, hf⟩ := Option.isSome_iff_exists.mp ht
      have hq : ∀ x ∈ floatDirectives, x.1 ∈ stickyDirectives := by decide
      exact absurd (hq _ (mem_of_lookup hf)) hs
    · obtain ⟨f, hf⟩ := Option.isSome_iff_exists.mp ht
      exact ⟨_, .str hf v⟩
  split at ha
  · obtain rfl := List.length_eq_zero_iff.mp (Option.some.inj ha).symm
    rename_i ht
    obtain ⟨x, hx⟩ := Option.isSome_iff_exists.mp ht
    exact ⟨_, .flag hx⟩
  · have hmem := mem_of_lookup ha
    simp only [otherDirectives, List.mem_cons, Prod.mk.injEq, List.not_mem_nil, or_false] at hmem
    rcases hmem with ⟨rfl, hl⟩ | ⟨rfl, hl⟩ | ⟨rfl, hl⟩ | ⟨rfl, hl⟩
    · obtain ⟨v, rfl⟩ := List.length_eq_one_iff.mp hl
      exact ⟨_, .logging v⟩
    · obtain ⟨v, rfl⟩ := List.length_eq_one_iff.mp hl
      exact ⟨_, .loglevel v⟩
    · obtain ⟨fmt, path, rfl⟩ := List.length_eq_two.mp hl
      exact ⟨_, .statusfile fmt path⟩
    · obtain ⟨v, rfl⟩ := List.length_eq_one_iff.mp hl
      exact ⟨_, .sleeptime v⟩

theorem exists_means {ds : List Directive} (hd : ∀ d ∈ ds, d.Global) :
    ∃ us, List.Forall₂ (fun d u => Means d.name d.values u) ds us := by
  induction ds with
  | nil => exact ⟨[], .nil⟩
  | cons d ds ih =>
    obtain ⟨u, hu⟩ := (hd d (by simp)).means
    obtain ⟨us, hus⟩ := ih fun x hx => hd x (by simp [hx])
    exact ⟨u :: us, .cons hu hus⟩

/-- The words of a directive's line, the name among them, are values. -/
theorem Directive.Global.fields {d : Directive} (h : d.Global) : ∀ w ∈ d.fields, IsValue w := by
  have hname : IsValue d.name := by
    obtain ⟨u, hu⟩ := h.means
    generalize d.name = name at hu
    generalize d.values = values at hu
    have hint : ∀ x ∈ intDirectives, IsValue x.1 := by decide +kernel
    have hstr : ∀ x ∈ strDirectives, IsValue x.1 := by decide +kernel
    have hflag : ∀ x ∈ flagDirectives, IsValue x.1 := by decide +kernel
    have hother : ∀ x ∈ otherDirectives, IsValue x.1 := by decide +kernel
    cases hu with
    | int hf => exact hint _ (mem_of_lookup hf)
    | str hf => exact hstr _ (mem_of_lookup hf)
    | flag hx => exact hflag _ (mem_of_lookup hx)
    | logging => exact hother ("logging".toList, 1) (by decide)
    | loglevel => exact hother ("loglevel".toList, 1) (by decide)
    | statusfile => exact hother ("statusfile".toList, 2) (by decide)
    | sleeptime => exact hother ("sleeptime".toList, 1) (by decide)
  intro w hw
  rcases List.mem_cons.mp hw with rfl | hw
  · decide +kernel
  rcases List.mem_cons.mp hw with rfl | hw
  · exact hname
  · exact h.isValue w hw

theorem Directive.Global.length_le {d : Directive} (h : d.Global) : d.values.length ≤ 5 := by
  obtain ⟨u, hu⟩ := h.means
  generalize d.name = name at hu
  generalize d.values = values at hu ⊢
  cases hu <;> simp

/-! ### The legacy parser -/

namespace Legacy

/-- The branches of `handleConfig`, up to the tables. -/
inductive Setter
  | int (f : IntField) | logging | loglevel | savestate | statusfile | numfailures | sleeptime
  | contactOn | source | queuetime | sendPings | minPings | table
  deriving DecidableEq

/-- The branch a directive takes. -/
def setterOf (directive : Text) : Setter :=
  if startsWith directive "pageinterval".toList then .int .pageintervalMin
  else if startsWith directive "logging".toList then .logging
  else if startsWith directive "loglevel".toList then .loglevel
  else if startsWith directive "dnslog".toList then .int .dnslogS
  else if startsWith directive "dnsexpire".toList then .int .dnsexpireS
  else if startsWith directive "heartbeat".toList then .int .heartbeatS
  else if startsWith directive "savestate".toList then .savestate
  else if startsWith directive "statusfile".toList then .statusfile
  else if startsWith directive "numfailures".toList then .numfailures
  else if startsWith directive "sleeptime".toList then .sleeptime
  else if directive = "contact_on".toList then .contactOn
  else if directive = "source".toList then .source
  else if directive = "queuetime".toList then .queuetime
  else if directive = "send_pings".toList then .sendPings
  else if directive = "min_pings".toList then .minPings
  else .table

/-- The last branch of `handleConfig`. -/
def setTable (line : ℕ) (directive : Text) (values : List Text) (st : State) : State :=
  let one := oneValue line directive values st
  match intDirectives.lookup directive, floatDirectives.lookup directive, strDirectives.lookup directive,
      flagDirectives.lookup directive with
  | some f, _, _, _ => setInt line f (values.headD []) one
  | none, some f, _, _ => withFloat line (values.headD []) one fun v => one.set (.float f) v
  | none, none, some f, _ => setGlobalStr line f directive values st
  | none, none, none, some ⟨f, v⟩ =>
    (if values = [] then st
      else st.warn line ("config ".toList ++ directive ++ " takes no value; ignoring the rest".toList)).set f v
  | none, none, none, none =>
    st.warn line ("unknown config directive ".toList ++ Python.reprStr directive ++ "; skipping".toList)

/-- What a branch of `handleConfig` does. -/
def Setter.run (line : ℕ) (directive : Text) (values : List Text) (st : State) : Setter → State
  | .int f => setInt line f (values.headD []) st
  | .logging => setLogging line (values.headD []) st
  | .loglevel => setLoglevel line (values.headD []) st
  | .savestate => setSavestate line values st
  | .statusfile => setStatusfile line values st
  | .numfailures => withInt line (values.headD []) st fun v => { st.set (.int .numfailures) v with numfailures := v }
  | .sleeptime => st.warn line "config sleeptime is obsolete; ignored (use --interval)".toList
  | .contactOn => setContactOn line (values.headD []) (oneValue line directive values st)
  | .source => setStickySource line (values.headD []) (oneValue line directive values st)
  | .queuetime => setQueuetime line (values.headD []) (oneValue line directive values st)
  | .sendPings => stickyCount line directive (values.headD []) (oneValue line directive values st)
    fun v => { oneValue line directive values st with sendPings := some v }
  | .minPings => stickyCount line directive (values.headD []) (oneValue line directive values st)
    fun v => { oneValue line directive values st with minPings := some v }
  | .table => setTable line directive values st

theorem Setter.run_ite {line : ℕ} {directive : Text} {values : List Text} {st x y : State} {a b : Setter} {c : Prop}
    [Decidable c] (hx : x = a.run line directive values st) (hy : y = b.run line directive values st) :
    (if c then x else y) = (if c then a else b).run line directive values st := by
  split
  · exact hx
  · exact hy

/-- `handleConfig` takes the branch of the directive. -/
theorem handleConfig_eq {line : ℕ} {word directive : Text} {values : List Text} {st : State}
    (h : values = [] → (flagDirectives.lookup directive).isSome) :
    handleConfig line (word :: directive :: values) st = (setterOf directive).run line directive values st := by
  unfold handleConfig
  dsimp only
  rw [if_neg fun hv => by simp [Option.isSome_iff_ne_none.mp (h hv.1)] at hv]
  unfold setterOf
  repeat' apply Setter.run_ite
  all_goals rfl

theorem overrides_setLogging (line : ℕ) (v : Text) (st : State) :
    (setLogging line v st).overrides = st.overrides.set .syslogFacility (facilityOf v) := by
  unfold setLogging facilityOf
  split
  · rfl
  split <;> rfl

/-- The legacy parser does to the overrides what the directive means. -/
theorem handleConfig_means {name : Text} {values : List Text} {u : Overrides → Overrides} (h : Means name values u)
    (hv : ∀ v ∈ values, IsValue v) (line : ℕ) (st : State) :
    (handleConfig line ("config".toList :: name :: values) st).overrides = u st.overrides := by
  cases h with
  | @int name f hf hs v =>
    have hint : (setInt line f v st).overrides = (Number.int v).elim st.overrides fun n => st.overrides.set (.int f) n := by
      unfold setInt withInt
      cases Number.int v <;> rfl
    have hset : ∀ x ∈ intDirectives, x.1 ∉ stickyDirectives → setterOf x.1 = .int x.2 ∨
        (x.2 = .numfailures ∧ setterOf x.1 = .numfailures) ∨ setterOf x.1 = .table := by decide
    rw [handleConfig_eq (by simp)]
    rcases hset _ (mem_of_lookup hf) hs with h | ⟨rfl, h⟩ | h
    · rw [h]
      exact hint
    · rw [h]
      dsimp only [Setter.run, withInt, List.headD_cons]
      cases Number.int v <;> rfl
    · rw [h]
      dsimp only [Setter.run, setTable]
      rw [hf]
      exact hint
  | @str name f hf v =>
    have hset : ∀ x ∈ strDirectives, (setterOf x.1 = .table ∧ intDirectives.lookup x.1 = none ∧
        floatDirectives.lookup x.1 = none) ∨ (x.2 = .statePath ∧ setterOf x.1 = .savestate) := by decide
    have hval := hv v (by simp)
    have hne : v ≠ [] := hval.1.1
    rw [handleConfig_eq (by simp)]
    rcases hset _ (mem_of_lookup hf) with ⟨h, hi, hfl⟩ | ⟨rfl, h⟩
    · rw [h]
      dsimp only [Setter.run, setTable]
      rw [hi, hfl, hf]
      exact setGlobalStr_value hval line f name st
    · rw [h]
      dsimp only [Setter.run, setSavestate]
      rw [(strip_value hval).2, if_neg hne]
      rfl
  | @flag name x hx =>
    have hset : ∀ x ∈ flagDirectives, setterOf x.1 = .table ∧ intDirectives.lookup x.1 = none ∧
        floatDirectives.lookup x.1 = none ∧ strDirectives.lookup x.1 = none := by decide
    obtain ⟨h, hi, hfl, hs⟩ := hset _ (mem_of_lookup hx)
    rw [handleConfig_eq fun _ => by rw [hx]; rfl, h]
    dsimp only [Setter.run, setTable]
    rw [hi, hfl, hs, hx]
    rfl
  | logging v =>
    rw [handleConfig_eq (by simp), show setterOf "logging".toList = .logging by decide]
    exact overrides_setLogging line v st
  | loglevel v =>
    rw [handleConfig_eq (by simp), show setterOf "loglevel".toList = .loglevel by decide]
    dsimp only [Setter.run, setLoglevel, List.headD_cons]
    cases logLevelOf (Python.lower v) <;> rfl
  | statusfile fmt path =>
    rw [handleConfig_eq (by simp), show setterOf "statusfile".toList = .statusfile by decide]
    dsimp only [Setter.run, setStatusfile]
    split
    · rfl
    split <;> rfl
  | sleeptime v =>
    rw [handleConfig_eq (by simp), show setterOf "sleeptime".toList = .sleeptime by decide]
    rfl

/-- The line of a directive. -/
theorem parseLine_directive {d : Directive} (hd : ∀ w ∈ d.fields, IsValue w) (hlen : d.values.length ≤ 5) (line : ℕ)
    (st : State) : parseLine line (joinSpaces d.fields) st = (.stanza none false, handleConfig line d.fields st) := by
  have hsplit : split (joinSpaces d.fields) = d.fields := split_joinSpaces fun w hw => (hd w hw).1
  -- no field is a brace
  have hlast : d.fields.getLast? ≠ some "\x7b".toList := by
    intro h
    exact (hd _ (List.mem_of_getLast? h)).2 '\x7b' (by decide) (by decide)
  have htokens : stanzaTokens d.fields = d.fields := if_neg hlast
  have hseven : d.fields.length ≤ 7 := by
    simp only [Directive.fields, List.length_cons]
    omega
  unfold parseLine
  rw [hsplit]
  dsimp only [Directive.fields] at hlast htokens hseven ⊢
  rw [if_neg (by decide), if_neg (by decide), htokens, List.take_of_length_le hseven, if_neg (List.cons_ne_nil _ _),
    if_pos (by rfl), decide_eq_false hlast, if_neg (Nat.not_lt.mpr hseven)]
  rfl

/-- The lines of the directives. -/
theorem parseBlock_directives {ds : List Directive} {us : List (Overrides → Overrides)}
    (hm : List.Forall₂ (fun d u => Means d.name d.values u) ds us) (hd : ∀ d ∈ ds, d.Global) (line : ℕ) (st : State) :
    ∃ st', parseBlock ((splitlines (legacyText ds)).zipIdx line) [] .nil st = .ok (.nil, st') ∧
      st'.overrides = us.foldl (fun o u => u o) st.overrides := by
  induction hm generalizing line st with
  | nil => exact ⟨st, rfl, rfl⟩
  | @cons d u ds us hdu hm ih =>
    have hglobal := hd d (by simp)
    have hline : OneLine (joinSpaces d.fields) := oneLine_joinSpaces fun w hw => (hglobal.fields w hw).1
    obtain ⟨st', hrun, hover⟩ := ih (fun x hx => hd x (by simp [hx])) (line + 1) (handleConfig line d.fields st)
    refine ⟨st', ?_, ?_⟩
    · rw [legacyText, List.flatMap_cons, List.append_assoc, List.singleton_append, splitlines_line hline,
        List.zipIdx_cons, parseBlock_cons, parseLine_directive hglobal.fields hglobal.length_le]
      exact hrun
    · rw [hover, Directive.fields, handleConfig_means hdu hglobal.isValue, List.foldl_cons]

end Legacy

/-! ### The modern parser -/

namespace Modern

/-- A text without variables is left as it is. -/
theorem expand_eq_self (vars : List (Text × Text)) : ∀ {t : Text}, '$' ∉ t → expand vars t = (t, [])
  | [], _ => by rw [expand]
  | c :: cs, h => by
    have hc : c ≠ '$' := fun e => h (by simp [e])
    rw [expand, expand_eq_self vars fun hd => h (by simp [hd])]
    · rintro c' cs' rfl
      exact absurd rfl hc

theorem val_subst_value {v : Text} (hv : IsValue v) (vars : List (Text × Text)) (line : ℕ) :
    (subst vars line v).val = v := by
  unfold subst
  rw [expand_eq_self vars fun h => by simpa using hv.2 _ h]

/-- The modern parser does to the overrides what the directive means. -/
theorem applyConfig_means {name : Text} {values : List Text} {u : Overrides → Overrides} (h : Means name values u)
    (hv : ∀ v ∈ values, IsValue v) {tokens : List Token} (ht : tokens.map Token.value = values)
    (vars : List (Text × Text)) (line : ℕ) (o : Overrides) : (applyConfig vars line name tokens o).val = u o := by
  -- a setter of one value sees the value itself
  have hone {v : Text} {k : Text → Log Overrides} (hval : IsValue v) (ht : tokens.map Token.value = [v]) (name : Text) :
      (withValue vars line name tokens o k).val = (k v).val := by
    obtain ⟨t, rfl⟩ := List.length_eq_one_iff.mp (by simpa using congrArg List.length ht : tokens.length = 1)
    obtain rfl : t.value = v := by simpa using ht
    dsimp only [withValue, oneValue]
    simp only [Log.val_bind, Log.val_map, val_subst_value hval]
  unfold applyConfig
  cases h with
  | @int name f hf hs v =>
    rw [hf]
    refine (hone (hv v (by simp)) ht name).trans ?_
    cases Number.int v <;> rfl
  | @str name f hf v =>
    have htab : ∀ x ∈ strDirectives, intDirectives.lookup x.1 = none ∧ floatDirectives.lookup x.1 = none := by decide
    obtain ⟨hi, hfl⟩ := htab _ (mem_of_lookup hf)
    rw [hi, hfl, hf]
    exact hone (hv v (by simp)) ht name
  | @flag name x hx =>
    have htab : ∀ x ∈ flagDirectives, intDirectives.lookup x.1 = none ∧ floatDirectives.lookup x.1 = none ∧
        strDirectives.lookup x.1 = none := by decide
    obtain ⟨hi, hfl, hs⟩ := htab _ (mem_of_lookup hx)
    rw [hi, hfl, hs, hx]
    rfl
  | logging v =>
    refine (hone (hv v (by simp)) ht "logging".toList).trans ?_
    dsimp only [facilityOf]
    split
    · rfl
    split <;> rfl
  | loglevel v =>
    refine (hone (hv v (by simp)) ht "loglevel".toList).trans ?_
    cases logLevelOf (Python.lower v) <;> rfl
  | statusfile fmt path =>
    obtain ⟨a, b, rfl⟩ := List.length_eq_two.mp (by simpa using congrArg List.length ht : tokens.length = 2)
    obtain ⟨rfl, rfl⟩ : a.value = fmt ∧ b.value = path := by simpa using ht
    have hpath := val_subst_value (hv b.value (by simp)) vars line
    change (setStatusfile vars line [a, b] o).val = _
    unfold setStatusfile
    dsimp only
    split
    · exact congrArg (setStatus o true) hpath
    split
    · exact congrArg (setStatus o false) hpath
    · rfl
  | sleeptime v => rfl

/-- The tokens of a directive's line. -/
def directiveTokens (line : ℕ) (d : Directive) : List Token :=
  d.fields.map (⟨.word, ·, line⟩) ++ [⟨.semi, [], line⟩]

/-- The tokens of the lines from `line` on. -/
def lineTokens : ℕ → List Directive → List Token
  | _, [] => []
  | line, d :: ds => directiveTokens line d ++ lineTokens (line + 1) ds

/-- The modern text is tokenized line by line. -/
theorem lexes_modernText {ds : List Directive} (hd : ∀ d ∈ ds, d.Global) (line : ℕ) :
    ∃ line', Lexes (plain line true) (modernText ds) (lineTokens line ds) (plain line' true) := by
  induction ds generalizing line with
  | nil => exact ⟨line, .nil _⟩
  | cons d ds ih =>
    have hwords : Lexes (plain line true) (joinSpaces d.fields ++ [';']) (directiveTokens line d) (plain line true) := by
      have := Lexes.row (.inl (by decide : special ';' = true)) (rfl : lexPlain ';' line false = _)
        (List.cons_ne_nil _ _) (fun w hw => (isWord_of_isValue ((hd d (by simp)).fields w hw)).isLexeme) true
      rwa [List.map_id'] at this
    have hbreak : Lexes (plain line true) ['\n'] [] (plain (line + 1) true) := .char rfl
    obtain ⟨line', hrest⟩ := ih (fun x hx => hd x (by simp [hx])) (line + 1)
    refine ⟨line', ?_⟩
    have := (hwords.append hbreak).append hrest
    rw [List.append_nil, List.append_assoc (joinSpaces _)] at this
    exact this

/-- A directive in the token stream. -/
theorem statements_directive {d : Directive} {u : Overrides → Overrides} (hm : Means d.name d.values u) (hd : d.Global)
    (line : ℕ) (st : State) (rest : List Token) : ∃ st', st'.overrides = u st.overrides ∧
      statements st (directiveTokens line d ++ rest) = statements st' rest := by
  let tokens : List Token := d.values.map (⟨.word, ·, line⟩)
  have hcollect : collectToSemi (⟨.word, d.name, line⟩ :: tokens ++ ⟨.semi, [], line⟩ :: rest) =
      (⟨.word, d.name, line⟩ :: tokens, true, rest) :=
    collectToSemi_append (by simp [tokens]) rfl rest
  have hvalues : tokens.map Token.value = d.values := by
    rw [List.map_map]
    exact List.map_id d.values
  have hconfig : (configStatement line st (⟨.word, d.name, line⟩ :: tokens ++ ⟨.semi, [], line⟩ :: rest)).2 = rest ∧
      (configStatement line st (⟨.word, d.name, line⟩ :: tokens ++ ⟨.semi, [], line⟩ :: rest)).1.overrides =
        u st.overrides := by
    unfold configStatement
    dsimp only
    rw [statementArgs_val, hcollect]
    exact ⟨rfl, applyConfig_means hm hd.isValue hvalues st.vars line st.overrides⟩
  refine ⟨_, hconfig.2, ?_⟩
  rw [directiveTokens, Directive.fields, List.append_assoc, List.map_cons, List.cons_append, statements_cons]
  refine Eq.trans rfl (congrArg (statements _) hconfig.1)

/-- The directives in the token stream. -/
theorem statements_directives {ds : List Directive} {us : List (Overrides → Overrides)}
    (hm : List.Forall₂ (fun d u => Means d.name d.values u) ds us) (hd : ∀ d ∈ ds, d.Global) (line : ℕ) (st : State) :
    ∃ st', statements st (lineTokens line ds) = .ok st' ∧
      st'.overrides = us.foldl (fun o u => u o) st.overrides := by
  induction hm generalizing line st with
  | nil => exact ⟨st, by rw [lineTokens, statements], rfl⟩
  | @cons d u ds us hdu hm ih =>
    obtain ⟨st₁, hover, hstep⟩ := statements_directive hdu (hd d (by simp)) line st (lineTokens (line + 1) ds)
    obtain ⟨st', hrun, hover'⟩ := ih (fun x hx => hd x (by simp [hx])) (line + 1) st₁
    refine ⟨st', ?_, ?_⟩
    · rw [lineTokens, hstep, hrun]
    · rw [hover', hover, List.foldl_cons]

end Modern

/-! ### Agreement -/

/-- Every list of global directives leaves the same overrides in both grammars, whatever the default thresholds. -/
theorem globals_agree {ds : List Directive} (hd : ∀ d ∈ ds, d.Global) (numfailures numfailures' : ℤ) :
    ∃ r r', Legacy.parse (legacyText ds) numfailures = .ok r ∧ Modern.parse (modernText ds) numfailures' = .ok r' ∧
      r.overrides = r'.overrides := by
  obtain ⟨us, hm⟩ := exists_means hd
  obtain ⟨line, hlex⟩ := Modern.lexes_modernText hd 1
  obtain ⟨st, hlegacy, hover⟩ := Legacy.parseBlock_directives hm hd 1 { numfailures }
  obtain ⟨st', hmodern, hover'⟩ := Modern.statements_directives hm hd 1 { numfailures := numfailures' }
  refine ⟨⟨.nil, st.overrides, st.warnings⟩, Modern.finish st', ?_, ?_, hover.trans hover'.symm⟩
  · rw [Legacy.parse, hlegacy]
    rfl
  · rw [Modern.parse, hlex.tokenize]
    dsimp only
    rw [hmodern]
    rfl

end Agreement

/-- A number that is replaced, one that is refused, a flag and a directive of two values. -/
theorem some_globals_agree :
    let ds : List Directive := [⟨"noheartbeat".toList, []⟩, ⟨"heartbeat".toList, ["60".toList]⟩,
      ⟨"heartbeat".toList, ["soon".toList]⟩, ⟨"statusfile".toList, ["html".toList, "/tmp/status".toList]⟩]
    (∀ d ∈ ds, d.Global) ∧ ∃ r r', @Legacy.parse Python.ascii (legacyText ds) 5 = .ok r ∧
      @Modern.parse Python.ascii (modernText ds) 5 = .ok r' ∧ r.overrides = r'.overrides := by
  intro ds
  have hd : ∀ d ∈ ds, d.Global := by decide +kernel
  exact ⟨hd, @globals_agree Python.ascii ds hd 5 5⟩

end Psysmon
