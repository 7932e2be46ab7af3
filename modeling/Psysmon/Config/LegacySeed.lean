import Psysmon.Config.LegacyBlocks

/-!
# Psysmon.Config.LegacySeed — what a legacy config makes of the default threshold

The default threshold that `parse` is given, the seed, is the running default until the first valid `config numfailures`
line, so a stanza takes it exactly if no such line stands before it: if the state it was read in has no override of
`numfailures`.
-/

namespace Psysmon.Legacy

open Lib Text Number

variable {s : ℤ}

namespace State

/-- The threshold `z` under the seed `s`, in a state that has seen no `numfailures` or one. -/
def seed (st : State) (s z : ℤ) : ℤ := if st.overrides (.int .numfailures) = none then s else z

/-- The state under the seed `s`. -/
def reseed (s : ℤ) (st : State) : State := { st with numfailures := st.seed s st.numfailures }

theorem reseed_set (st : State) {f : Field} (v : f.Val) (hf : f ≠ .int .numfailures) :
    (st.reseed s).set f v = (st.set f v).reseed s := by
  simp only [set, reseed, seed, Overrides.set_of_ne _ _ hf.symm]

theorem reseed_of_ne_none {st : State} (h : st.overrides (.int .numfailures) ≠ none) : st.reseed s = st := by
  rw [reseed, seed, if_neg h]

/-- A valid `numfailures` takes the seed out of play. -/
theorem reseed_numfailures {st : State} (v : ℤ) :
    { (st.reseed s).set (.int .numfailures) v with numfailures := v } =
      State.reseed s { st.set (.int .numfailures) v with numfailures := v } := by
  refine (reseed_of_ne_none fun h => ?_).symm
  exact Option.some_ne_none _ ((Overrides.set_self st.overrides (.int .numfailures) v).symm.trans h)

theorem ite_reseed {c : Prop} [Decidable c] {a a' b b' : State} (ha : c → a' = a.reseed s) (hb : ¬ c → b' = b.reseed s) :
    (if c then a' else b') = (if c then a else b).reseed s := by
  split
  · exact ha ‹_›
  · exact hb ‹_›

end State

/-! ### Directives -/

section Directives

variable (line : ℕ)

theorem oneValue_reseed (name : Text) (values : List Text) (st : State) :
    oneValue line name values (st.reseed s) = (oneValue line name values st).reseed s := by
  unfold oneValue
  split <;> rfl

theorem setSavestate_reseed (values : List Text) (st : State) :
    setSavestate line values (st.reseed s) = (setSavestate line values st).reseed s := by
  unfold setSavestate
  split
  · rfl
  · exact State.reseed_set _ (f := .str .statePath) _ (by decide)

theorem setGlobalStr_reseed (f : StrField) (name : Text) (values : List Text) (st : State) :
    setGlobalStr line f name values (st.reseed s) = (setGlobalStr line f name values st).reseed s := by
  unfold setGlobalStr
  have hone : (if name ∈ pathStrGlobals then st.reseed s else oneValue line name values (st.reseed s)) =
      (if name ∈ pathStrGlobals then st else oneValue line name values st).reseed s := by
    split
    · rfl
    · exact oneValue_reseed line name values st
  simp only [hone]
  generalize (if name ∈ pathStrGlobals then st else oneValue line name values st) = st'
  generalize (if name ∈ pathStrGlobals then pathValue values else stripQuotes (values.headD [])) = value
  split
  · rfl
  · exact State.reseed_set _ (f := .str f) _ (by simp)

/-- The exact name of the directive is caught by the match on its first characters. -/
theorem lookup_ne_numfailures {directive : Text} {f : IntField} (h : startsWith directive "numfailures".toList = false)
    (hl : intDirectives.lookup directive = some f) : f ≠ .numfailures := by
  rintro rfl
  have hstart : ∀ x ∈ intDirectives, x.2 = .numfailures → startsWith x.1 "numfailures".toList = true := by decide
  have := hstart _ (mem_of_lookup hl) rfl
  rw [h] at this
  cases this

theorem flag_reseed {directive : Text} {x : Σ f : Field, f.Val} (h : flagDirectives.lookup directive = some x)
    (st : State) : (st.reseed s).set x.1 x.2 = (st.set x.1 x.2).reseed s := by
  have hne : ∀ x ∈ flagDirectives, x.2.1 ≠ .int .numfailures := by decide
  exact State.reseed_set st x.2 (hne _ (mem_of_lookup h))

variable [Python]

theorem withInt_reseed (token : Text) {st : State} {k k' : ℤ → State} (hk : ∀ v, k' v = (k v).reseed s) :
    withInt line token (st.reseed s) k' = (withInt line token st k).reseed s := by
  unfold withInt
  cases int token with
  | none => rfl
  | some v => exact hk v

theorem withFloat_reseed (token : Text) {st : State} {k k' : PyFloat → State} (hk : ∀ v, k' v = (k v).reseed s) :
    withFloat line token (st.reseed s) k' = (withFloat line token st k).reseed s := by
  unfold withFloat
  cases Number.float token with
  | none => rfl
  | some v => exact hk v

theorem setInt_reseed {f : IntField} (hf : f ≠ .numfailures) (token : Text) (st : State) :
    setInt line f token (st.reseed s) = (setInt line f token st).reseed s :=
  withInt_reseed line token fun v => State.reseed_set _ (f := .int f) v (by simpa using hf)

theorem setLogging_reseed (facility : Text) (st : State) :
    setLogging line facility (st.reseed s) = (setLogging line facility st).reseed s := by
  unfold setLogging
  split
  · exact State.reseed_set _ (f := .syslogFacility) none (by decide)
  split
  · exact State.reseed_set _ (f := .syslogFacility) (some facility) (by decide)
  · exact State.reseed_set (st.warn _ _) (f := .syslogFacility) _ (by decide)

theorem setLoglevel_reseed (level : Text) (st : State) :
    setLoglevel line level (st.reseed s) = (setLoglevel line level st).reseed s := by
  unfold setLoglevel
  cases logLevelOf (Python.lower level) with
  | some l => exact State.reseed_set _ (f := .logLevel) l (by decide)
  | none => exact State.reseed_set (st.warn _ _) (f := .logLevel) _ (by decide)

theorem setStatusfile_reseed (values : List Text) (st : State) :
    setStatusfile line values (st.reseed s) = (setStatusfile line values st).reseed s := by
  have hset (html : Bool) (path : Text) :
      ((st.reseed s).set (.bool .statusHtml) html).set (.str .statusPath) path =
        ((st.set (.bool .statusHtml) html).set (.str .statusPath) path).reseed s := by
    rw [State.reseed_set _ (f := .bool .statusHtml) html (by decide),
      State.reseed_set _ (f := .str .statusPath) path (by decide)]
  unfold setStatusfile
  split
  · split
    · exact hset true _
    split
    · exact hset false _
    · rfl
  · rfl

theorem setContactOn_reseed (value : Text) (st : State) :
    setContactOn line value (st.reseed s) = (setContactOn line value st).reseed s := by
  unfold setContactOn
  split <;> rfl

theorem setStickySource_reseed (value : Text) (st : State) :
    setStickySource line value (st.reseed s) = (setStickySource line value st).reseed s := by
  unfold setStickySource
  dsimp only
  split
  · rfl
  split
  · rfl
  · rfl

theorem setQueuetime_reseed (token : Text) (st : State) :
    setQueuetime line token (st.reseed s) = (setQueuetime line token st).reseed s := by
  refine withFloat_reseed line token fun v => ?_
  cases v with
  | finite q =>
    dsimp only
    split <;> rfl
  | inf neg => rfl
  | nan => rfl

theorem stickyCount_reseed (name token : Text) {st : State} {k k' : ℤ → State} (hk : ∀ v, k' v = (k v).reseed s) :
    stickyCount line name token (st.reseed s) k' = (stickyCount line name token st k).reseed s := by
  refine withInt_reseed line token fun v => ?_
  split
  · rfl
  · exact hk v

theorem handleConfig_reseed (tokens : List Text) (st : State) :
    handleConfig line tokens (st.reseed s) = (handleConfig line tokens st).reseed s := by
  unfold handleConfig
  match tokens with
  | [] => rfl
  | [_] => rfl
  | _ :: directive :: values =>
    dsimp only
    rw [oneValue_reseed]
    generalize oneValue line directive values st = one
    refine State.ite_reseed (fun _ => rfl) fun _ => ?_
    refine State.ite_reseed (fun _ => setInt_reseed line (by decide) _ st) fun _ => ?_
    refine State.ite_reseed (fun _ => setLogging_reseed line _ st) fun _ => ?_
    refine State.ite_reseed (fun _ => setLoglevel_reseed line _ st) fun _ => ?_
    refine State.ite_reseed (fun _ => setInt_reseed line (by decide) _ st) fun _ => ?_
    refine State.ite_reseed (fun _ => setInt_reseed line (by decide) _ st) fun _ => ?_
    refine State.ite_reseed (fun _ => setInt_reseed line (by decide) _ st) fun _ => ?_
    refine State.ite_reseed (fun _ => setSavestate_reseed line values st) fun _ => ?_
    refine State.ite_reseed (fun _ => setStatusfile_reseed line values st) fun _ => ?_
    refine State.ite_reseed (fun _ => withInt_reseed line _ fun v => State.reseed_numfailures v) fun hnf => ?_
    refine State.ite_reseed (fun _ => rfl) fun _ => ?_
    refine State.ite_reseed (fun _ => setContactOn_reseed line _ one) fun _ => ?_
    refine State.ite_reseed (fun _ => setStickySource_reseed line _ one) fun _ => ?_
    refine State.ite_reseed (fun _ => setQueuetime_reseed line _ one) fun _ => ?_
    refine State.ite_reseed (fun _ => stickyCount_reseed line directive _ fun v => rfl) fun _ => ?_
    refine State.ite_reseed (fun _ => stickyCount_reseed line directive _ fun v => rfl) fun _ => ?_
    cases hi : intDirectives.lookup directive with
    | some f => exact setInt_reseed line (lookup_ne_numfailures (by simpa using hnf) hi) _ one
    | none => cases floatDirectives.lookup directive with
      | some f => exact withFloat_reseed line _ fun v => State.reseed_set _ (f := .float f) v (by simp)
      | none => cases strDirectives.lookup directive with
        | some f => exact setGlobalStr_reseed line f directive values st
        | none => cases hfl : flagDirectives.lookup directive with
          | none => rfl
          | some x =>
            dsimp only
            split
            · exact flag_reseed hfl st
            · exact flag_reseed hfl (st.warn _ _)

end Directives

/-! ### Braces -/

theorem Action.state_reseed (a : Action) (line : ℕ) (blocks : List Bool) (st : State) :
    a.state line blocks (st.reseed s) = (a.state line blocks st).reseed s := by
  rcases a with _ | _ | ⟨_ | n, _ | _⟩
  case stanza.some.true => exact State.ite_reseed (fun _ => rfl) fun _ => rfl
  case close => cases blocks <;> rfl
  all_goals rfl

/-- The node without its threshold. -/
def erase : Node → Node := Node.mapMaxDown fun _ => 0

theorem Action.map_erase (g : ℤ → ℤ) (a : Action) : (a.map (Node.mapMaxDown g)).map erase = a.map erase := by
  rcases a with _ | _ | ⟨_ | n, opens⟩ <;> rfl

theorem blockStep_reseed (line : ℕ) (outer : List Outer) (cur : Siblings) (a : Action) (st : State) :
    blockStep line outer cur (a, st.reseed s) =
      (blockStep line outer cur (a, st)).map fun b => (b.1, b.2.1, b.2.2.reseed s) := by
  rcases a with _ | _ | ⟨node, _ | _⟩
  · rfl
  · cases outer <;> rfl
  · rfl
  · dsimp only [blockStep]
    split
    · rfl
    cases node with
    | none => rfl
    | some n =>
      dsimp only
      split <;> rfl

/-! ### Stanzas -/

variable [Python]

theorem hostFields_mapMaxDown (g : ℤ → ℤ) (tokens : List Text) (n : Node) :
    hostFields tokens (n.mapMaxDown g) = (hostFields tokens n).map (Prod.map (Node.mapMaxDown g) id) := by
  have hc : (n.mapMaxDown g).checkType = n.checkType := rfl
  unfold hostFields
  rw [hc]
  cases n.checkType <;> dsimp only
  case tcp | udp =>
    split
    · rfl
    split
    · rfl
    split <;> rfl
  case http | https =>
    split
    · rfl
    split <;> rfl
  case pop3 | pop3s | imap | imaps | ftp | ftps => split <;> rfl
  case dns => split <;> rfl
  case ssh | mysql | telnet =>
    split
    · split <;> rfl
    · rfl
  all_goals rfl

theorem sourceFor_reseed (ctype : CheckType) (line : ℕ) (st : State) :
    sourceFor ctype line (st.reseed s) = (sourceFor ctype line st).map id (State.reseed s) := by
  have hs : (st.reseed s).source = st.source := rfl
  unfold sourceFor
  rw [hs]
  cases st.source with
  | none => rfl
  | some src =>
    dsimp only
    generalize (if ctype = CheckType.ping6 then 6 else 4) = version
    split
    · rfl
    split <;> rfl

/-- A stanza under the seed `s`. -/
theorem parseHost_reseed (line : ℕ) (tokens : List Text) (st : State) :
    parseHost line tokens (st.reseed s) =
      (parseHost line tokens st).map (Option.map (Node.mapMaxDown (st.seed s))) (State.reseed s) := by
  unfold parseHost
  cases matchType (tokens.getD 1 []) with
  | none => rfl
  | some k =>
    obtain ⟨keyword, ctype⟩ := k
    cases ctype with
    | none => rfl
    | some ctype =>
      have hsnap : snapshot (tokens.getD 0 []) ctype (sourceFor ctype line st).1 (st.reseed s) =
          (snapshot (tokens.getD 0 []) ctype (sourceFor ctype line st).1 st).mapMaxDown (st.seed s) := rfl
      dsimp only
      rw [sourceFor_reseed, Prod.map_fst, id, hsnap, hostFields_mapMaxDown]
      cases hostFields tokens (snapshot (tokens.getD 0 []) ctype (sourceFor ctype line st).1 st) with
      | error message => rfl
      | ok r =>
        obtain ⟨n, w⟩ := r
        cases w <;> rfl

/-! ### Lines -/

theorem parseLine_reseed (line : ℕ) (raw : Text) (st : State) :
    parseLine line raw (st.reseed s) =
      (parseLine line raw st).map (Action.map (Node.mapMaxDown (st.seed s))) (State.reseed s) := by
  unfold parseLine
  cases split raw with
  | nil => rfl
  | cons first tokens =>
    dsimp only
    generalize stanzaTokens (first :: tokens) = fields
    generalize (decide ((first :: tokens).getLast? = some "\x7b".toList)) = opens
    have hwarn : (if 7 < fields.length then (st.reseed s).warn line "too many fields; using the first 7".toList
        else st.reseed s) =
        (if 7 < fields.length then st.warn line "too many fields; using the first 7".toList else st).reseed s := by
      split <;> rfl
    have hseed : (if 7 < fields.length then st.warn line "too many fields; using the first 7".toList else st).seed s =
        st.seed s := by
      split <;> rfl
    rw [hwarn, ← hseed]
    generalize (if 7 < fields.length then st.warn line "too many fields; using the first 7".toList else st) = st'
    split
    · rfl
    split
    · rfl
    split
    · rfl
    split
    · rw [handleConfig_reseed]
      cases opens <;> rfl
    split
    · rfl
    · rw [parseHost_reseed]
      rfl

/-! ### The whole file -/

/-- The kept stanzas under the seed `s`. -/
theorem kept_reseed (lines : List (Text × ℕ)) (blocks : List Bool) (st : State) :
    kept lines blocks (st.reseed s) =
      (kept lines blocks st).map fun x => (x.1.mapMaxDown (x.2.seed s), x.2.reseed s) := by
  induction lines generalizing blocks st with
  | nil => rfl
  | cons x lines ih =>
    obtain ⟨raw, line⟩ := x
    have hnode (o : Option Node) : (o.map (Node.mapMaxDown (st.seed s))).toList.map (·, st.reseed s) =
        (o.toList.map (·, st)).map fun x => (x.1.mapMaxDown (x.2.seed s), x.2.reseed s) := by
      cases o <;> rfl
    rw [kept, kept, parseLine_reseed]
    generalize parseLine line raw st = p
    dsimp only [Prod.map]
    have hf (n : Node) : (n.mapMaxDown (st.seed s)).checkType = n.checkType := rfl
    rw [Action.node_map, Action.keeps_map hf, Action.state_map hf, Action.state_reseed, ih, hnode, List.map_append]

/-- The seed does not change the shape of the forest, nor what else comes out of the parse. -/
theorem parseBlock_reseed (lines : List (Text × ℕ)) {outer outer' : List Outer} {cur cur' : Siblings} (st : State)
    (ho : mapOuter erase outer' = mapOuter erase outer) (hc : cur'.map erase = cur.map erase) :
    (parseBlock lines outer' cur' (st.reseed s)).map (fun r => (r.1.map erase, r.2)) =
      (parseBlock lines outer cur st).map fun r => (r.1.map erase, r.2.reseed s) := by
  induction lines generalizing outer outer' cur cur' st with
  | nil =>
    rw [parseBlock, parseBlock]
    simp only [Except.map, map_closeAll, ho, hc]
  | cons x lines ih =>
    obtain ⟨raw, line⟩ := x
    rw [parseBlock_cons, parseBlock_cons, parseLine_reseed]
    generalize parseLine line raw st = p
    obtain ⟨a, st₁⟩ := p
    -- one line: the erased blocks agree
    have hstep : (blockStep line outer' cur' (a.map (Node.mapMaxDown (st.seed s)), st₁.reseed s)).map
        (fun b => (mapOuter erase b.1, b.2.1.map erase, b.2.2)) =
        (blockStep line outer cur (a, st₁)).map fun b => (mapOuter erase b.1, b.2.1.map erase, b.2.2.reseed s) := by
      have hf (n : Node) : (erase n).checkType = n.checkType := rfl
      rw [← blockStep_map hf, ho, hc, Action.map_erase, blockStep_reseed, blockStep_map hf]
      cases blockStep line outer cur (a, st₁) <;> rfl
    dsimp only [Prod.map]
    cases h' : blockStep line outer' cur' (a.map (Node.mapMaxDown (st.seed s)), st₁.reseed s) with
    | error e' =>
      cases h : blockStep line outer cur (a, st₁) with
      | error e =>
        rw [h, h'] at hstep
        injection hstep with he
        rw [he]
        rfl
      | ok b => rw [h, h'] at hstep; cases hstep
    | ok b' =>
      cases h : blockStep line outer cur (a, st₁) with
      | error e => rw [h, h'] at hstep; cases hstep
      | ok b =>
        rw [h, h'] at hstep
        obtain ⟨ho', hc', hst⟩ : mapOuter erase b'.1 = mapOuter erase b.1 ∧ b'.2.1.map erase = b.2.1.map erase ∧
          b'.2.2 = b.2.2.reseed s := by simpa [Except.map] using hstep
        dsimp only [Except.bind]
        rw [hst]
        exact ih b.2.2 ho' hc'

/-- Some accepted stanza that the forest keeps stands before every valid `config numfailures` line. -/
def TakesSeed (text : Text) : Prop :=
  ∃ x ∈ kept ((splitlines text).zipIdx 1) [] { numfailures := 0 }, x.2.overrides (.int .numfailures) = none

/-- The nodes of a parse, with the seed put where it is taken. -/
theorem nodes_parse {text : Text} {r : ParseResult Siblings} (h : parse text s = .ok r) :
    r.roots.nodes = (kept ((splitlines text).zipIdx 1) [] { numfailures := 0 }).map
      fun x => x.1.mapMaxDown (x.2.seed s) := by
  have hst : ({ numfailures := s } : State) = State.reseed s { numfailures := 0 } := rfl
  unfold parse at h
  cases hb : parseBlock ((splitlines text).zipIdx 1) [] .nil { numfailures := s } with
  | error e => rw [hb] at h; cases h
  | ok b =>
    rw [hb] at h
    obtain rfl := Except.ok.inj h
    have := nodes_parseBlock hb
    rw [hst, kept_reseed, List.map_map] at this
    exact this

/-- The seed changes neither the shape of the forest nor the overrides. -/
theorem parse_shape (text : Text) (s s' : ℤ) :
    (parse text s).map (fun r => (r.roots.map erase, r.overrides)) =
      (parse text s').map fun r => (r.roots.map erase, r.overrides) := by
  have hzero (s : ℤ) : (parse text s).map (fun r => (r.roots.map erase, r.overrides)) =
      (parseBlock ((splitlines text).zipIdx 1) [] .nil { numfailures := 0 }).map
        fun r => (r.1.map erase, r.2.overrides) := by
    have hrun : (parseBlock ((splitlines text).zipIdx 1) [] .nil { numfailures := s }).map
        (fun r => (r.1.map erase, r.2)) =
        (parseBlock ((splitlines text).zipIdx 1) [] .nil { numfailures := 0 }).map
          fun r => (r.1.map erase, r.2.reseed s) := parseBlock_reseed _ { numfailures := 0 } rfl rfl
    have := congrArg (Except.map (Prod.map id State.overrides)) hrun
    unfold parse
    cases hb : parseBlock ((splitlines text).zipIdx 1) [] .nil { numfailures := s } <;>
      cases hb' : parseBlock ((splitlines text).zipIdx 1) [] .nil { numfailures := 0 } <;>
      · rw [hb, hb'] at this
        exact this
  exact (hzero s).trans (hzero s').symm

/-- **Two parses of a text differ exactly in the thresholds of the stanzas that take the seed.** -/
theorem parse_roots_iff {text : Text} (s' : ℤ) {r : ParseResult Siblings} (h : parse text s = .ok r) :
    ∃ r', parse text s' = .ok r' ∧ r'.overrides = r.overrides ∧
      (r'.roots.toForest = r.roots.toForest ↔ s' = s ∨ ¬ TakesSeed text) := by
  have hshape := parse_shape text s' s
  rw [h] at hshape
  cases h' : parse text s' with
  | error e => rw [h'] at hshape; cases hshape
  | ok r' =>
    rw [h'] at hshape
    obtain ⟨hroots, hover⟩ := Prod.mk.inj (Except.ok.inj hshape)
    refine ⟨r', rfl, hover, fun heq => ?_, fun hor => ?_⟩
    · refine or_iff_not_imp_right.mpr fun ht => ?_
      obtain ⟨x, hx, hnone⟩ := not_not.mp ht
      have hnodes : r'.roots.nodes = r.roots.nodes := by
        rw [← Siblings.map_objects 0, ← Siblings.map_objects 0]
        exact congrArg (fun F => F.objs.map Prod.fst) heq
      rw [nodes_parse h', nodes_parse h] at hnodes
      have := congrArg Node.maxDown (List.map_inj_left.mp hnodes x hx)
      simpa [Node.mapMaxDown, State.seed, hnone] using this
    · rcases hor with rfl | ht
      · rw [Except.ok.inj (h'.symm.trans h)]
      · have hnodes : r'.roots.nodes = r.roots.nodes := by
          rw [nodes_parse h', nodes_parse h]
          refine List.map_inj_left.mpr fun x hx => ?_
          have hne : x.2.overrides (.int .numfailures) ≠ none := fun hn => ht ⟨x, hx, hn⟩
          simp [Node.mapMaxDown, State.seed, hne]
        rw [Siblings.ext_nodes hroots hnodes]

end Psysmon.Legacy
