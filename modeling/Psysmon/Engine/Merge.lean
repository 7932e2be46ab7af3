import Psysmon.Engine.Rebuild

/-!
# Psysmon.Engine.Merge — reload and restart merge the same state twice

`reload` lets every new node look up the last old node with its key; `import_state` walks the old records and writes
each into the last new node with its key.  `objs_importState_exportState` says in closed form what the second one
leaves behind, so that the two can be compared.

* `reload_unchanged`: what a node has after a reload of the forest it already runs.
* `restart_eq_reload_iff`: the two merges agree unless a key of the old forest is scheduled twice in the new one.
-/

namespace Psysmon

open Lib

/-- The fields that an import restores. -/
def NodeState.toCarried (s : NodeState) : Carried :=
  ⟨s.lastcheck, s.downct, s.contacted, s.deathtime, s.lastUp, s.acked, s.note⟩

/-- What an exported record restores: `_as_note` cuts the note again. -/
def NodeState.exported (s : NodeState) : Carried :=
  { s.toCarried with note := s.note.map (·.take Sched.maxNoteLen) }

/-- A note is never longer than `_MAX_NOTE_LEN`. -/
def NodeState.Capped (s : NodeState) : Prop := ∀ t ∈ s.note, t.length ≤ Sched.maxNoteLen

theorem NodeState.Capped.congr {s t : NodeState} (h : s.Capped) (hn : t.note = s.note) : t.Capped := by
  unfold NodeState.Capped
  rwa [hn]

theorem note_applyAndPage (c : PagingCfg) (s : NodeState) (code : ℤ) (wall now later : ℚ) :
    (applyAndPage c s code wall now later).1.note = s.note := by
  obtain ⟨s₁, i, ha, hp, -⟩ := applyAndPage_spec c s code wall now later
  have hnote : s₁.note = s.note := by cases ha <;> rfl
  generalize (applyAndPage c s code wall now later).1 = s₂ at hp ⊢
  generalize (applyAndPage c s code wall now later).2.1 = pg at hp
  cases hp <;> exact hnote

/-- Every write keeps notes within the cap. -/
theorem capped_rule : StateRule NodeState.Capped where
  fresh n w t ht := by simp at ht
  suppress h := h.congr rfl
  ack h := h.congr rfl
  note x _ t ht := by
    cases x with
    | none => simp [Sched.capNote] at ht
    | some u =>
      simp only [Sched.capNote] at ht
      split at ht
      · simp at ht
      · obtain rfl := Option.some.inj ht
        exact List.length_take_le _ _
  parents d h := h.congr rfl
  check c code wall now later h := h.congr (note_applyAndPage c _ code wall now later)
  sent p out now h := by
    cases p <;> cases out <;> exact h.congr rfl
  carry h _ := h.congr rfl
  restore {s r c} now hc _ t ht := by
    have ht : c.note = some t := ht
    simp only [validatedCarry, bind, Except.bind] at hc
    repeat' split at hc
    all_goals first
      | exact absurd hc (by simp)
      | skip
    rename_i hnote
    obtain rfl := Except.ok.inj hc
    unfold asNote at hnote
    split at hnote
    · obtain rfl := Except.ok.inj hnote
      simp at ht
    · obtain rfl := Except.ok.inj hnote
      obtain rfl := Option.some.inj ht
      exact List.length_take_le _ _
    · simp at hnote

/-! ### What an import of exported records leaves -/

namespace Sched

variable (S T : Sched)

theorem previous_spec {k : NodeKey} {q : ℕ} (h : T.previous k = some q) : q ∈ T.scheduled ∧ T.keyOf q = k := by
  obtain ⟨h1, h2⟩ := List.mem_filter.mp (List.mem_of_getLast? h)
  exact ⟨h1, by simpa [keyOf] using h2⟩

theorem previous_eq_none {k : NodeKey} : T.previous k = none ↔ ∀ q ∈ T.scheduled, T.keyOf q ≠ k := by
  simp [previous, keyOf]

/-- A node whose key is unique is its own predecessor. -/
theorem previous_of_unique {r : ℕ} (hr : r ∈ T.scheduled) (h : ∀ q ∈ T.scheduled, T.keyOf q = T.keyOf r → q = r) :
    T.previous (T.keyOf r) = some r := by
  cases hp : T.previous (T.keyOf r) with
  | none => exact absurd rfl ((T.previous_eq_none).mp hp r hr)
  | some q =>
    obtain ⟨hq, hk⟩ := T.previous_spec hp
    rw [h q hq hk]

theorem value_injective : Function.Injective CheckType.value := by
  intro a b h
  cases a <;> cases b <;> first | rfl | exact absurd h (by decide)

/-- An exported record is looked up by the key of its object. -/
theorem current_exportRecord (p : ℕ) :
    T.current ((S.exportRecord p).get "hostname".toList) ((S.exportRecord p).get "type".toList)
      ((S.exportRecord p).get "port".toList) = T.previous (S.keyOf p) := by
  have h1 : (S.exportRecord p).get "hostname".toList = .str (S.objs p).node.hostname := rfl
  have h2 : (S.exportRecord p).get "type".toList = .str (S.objs p).node.checkType.value := rfl
  have h3 : (S.exportRecord p).get "port".toList = .int (S.objs p).node.port := rfl
  rw [h1, h2, h3, current, previous]
  congr 1
  refine List.filter_congr fun r _ => ?_
  simp only [Json.eqStr, Json.eqInt, Node.key, keyOf, NodeKey.mk.injEq, Bool.decide_and, Bool.and_assoc,
    value_injective.eq_iff, eq_comm]

/-- An object after the records with its key, the last of which is that of `S`'s object `p`. -/
def restored (now : ℚ) (o : Scheduled) : Option ℕ → Scheduled
  | none => o
  | some p => { o with state := restoreState (S.objs p).state.exported now o.state }

/-- The object `q` of `T` once the records of `S`'s objects `rs` are merged: only the last node with a key is written
to. -/
def merged (now : ℚ) (rs : List ℕ) (q : ℕ) : Scheduled :=
  if T.previous (T.keyOf q) = some q then
    S.restored now (T.objs q) (rs.filter fun p => S.keyOf p = T.keyOf q).getLast?
  else T.objs q

theorem keyOf_modifyState (q : ℕ) (f : NodeState → NodeState) (r : ℕ) : (T.modifyState q f).keyOf r = T.keyOf r := by
  unfold keyOf
  rw [((Kept.refl T).modifyState q f).node]

theorem previous_modifyState (q : ℕ) (f : NodeState → NodeState) (k : NodeKey) :
    (T.modifyState q f).previous k = T.previous k :=
  congrArg List.getLast? (List.filter_congr fun r _ => by rw [((Kept.refl T).modifyState q f).node])

theorem getLast?_cons_filter {p : ℕ} {rs : List ℕ} (k : ℕ → Prop) [DecidablePred k] (hp : k p) :
    ((p :: rs).filter fun x => k x).getLast? = some (((rs.filter fun x => k x).getLast?).getD p) := by
  rw [List.filter_cons_of_pos (by simpa using hp), List.getLast?_cons]

/-- **The records in order**: a later one overwrites an earlier one with its key. -/
theorem objs_importLoop (now : ℚ) (q : ℕ) : ∀ (rs : List ℕ) (out : Imported),
    (importLoop now (rs.map S.exportRecord) out).sched.objs q = S.merged out.sched now rs q
  | [], out => by simp [importLoop, merged, restored]
  | p :: rs, out => by
    rw [List.map_cons, importLoop, if_neg (show ¬ _ by exact Bool.false_ne_true), current_exportRecord]
    have hskip : S.keyOf p ≠ out.sched.keyOf q → S.merged out.sched now (p :: rs) q = S.merged out.sched now rs q := by
      intro hk
      rw [merged, merged, List.filter_cons_of_neg (by simpa using hk)]
    have hother : out.sched.previous (out.sched.keyOf q) ≠ some q → ∀ rs, S.merged out.sched now rs q = out.sched.objs q :=
      fun hq rs => if_neg hq
    cases hprev : out.sched.previous (S.keyOf p) with
    | none =>
      dsimp only
      rw [objs_importLoop now q rs out]
      by_cases hk : S.keyOf p = out.sched.keyOf q
      · have hq : out.sched.previous (out.sched.keyOf q) ≠ some q := by simp [← hk, hprev]
        rw [hother hq, hother hq]
      · exact (hskip hk).symm
    | some q' =>
      dsimp only
      rw [validatedCarry_exportRecord]
      dsimp only
      rw [objs_importLoop now q rs]
      obtain ⟨-, hkq'⟩ := out.sched.previous_spec hprev
      by_cases hqq : q = q'
      · subst hqq
        rw [merged, merged, keyOf_modifyState, previous_modifyState, hkq', hprev, if_pos rfl, if_pos rfl,
          getLast?_cons_filter (fun x => S.keyOf x = S.keyOf p) rfl, modifyState, modify_objs_self]
        cases (rs.filter fun x => S.keyOf x = S.keyOf p).getLast? <;> rfl
      · have hobj : ∀ f, (out.sched.modifyState q' f).objs q = out.sched.objs q :=
          fun f => modify_objs_of_ne _ _ _ hqq
        rw [merged, keyOf_modifyState, previous_modifyState, hobj]
        by_cases hk : S.keyOf p = out.sched.keyOf q
        · have hq : out.sched.previous (out.sched.keyOf q) ≠ some q := by
            rw [← hk, hprev]
            exact fun h => hqq (Option.some.inj h).symm
          rw [if_neg hq, hother hq]
        · exact (hskip hk).symm

theorem objs_importState_exportState (now : ℚ) (q : ℕ) :
    (T.importState S.exportState now).sched.objs q = S.merged T now S.scheduled q :=
  objs_importLoop S now q S.scheduled ⟨T, 0, 0, false⟩

end Sched

theorem NodeState.Capped.exported {s : NodeState} (h : s.Capped) : s.exported = s.toCarried := by
  have hnote : s.note.map (·.take Sched.maxNoteLen) = s.note := by
    cases hn : s.note with
    | none => rfl
    | some t => rw [Option.map_some, List.take_of_length_le (h t hn)]
  simp only [NodeState.exported, NodeState.toCarried, hnote]

/-! ### A reload of the forest that runs -/

section Unchanged

variable {F : Forest} {S : Sched}

theorem Sched.carry_some {o : Scheduled} {q : ℕ} (h : S.previous o.node.key = some q) :
    S.carry o = { o with state := carryState (S.objs q).state o.state, checked := (S.objs q).checked } := by
  rw [carry, h]

theorem Sched.carry_none {o : Scheduled} (h : S.previous o.node.key = none) : S.carry o = o := by
  rw [carry, h]

/-- The predecessor of a node that was scheduled before. -/
theorem Built.previous {base : ℕ} (hb : Built F base S) {i : ℕ} {o : ℕ × List ℕ}
    (ho : (flatten F).order[i]? = some o) :
    ∃ q ∈ S.scheduled, S.previous (F.node o.1).key = some q ∧ S.keyOf q = S.keyOf (base + i) := by
  have hkey : S.keyOf (base + i) = (F.node o.1).key := congrArg Node.key (hb.node i o ho)
  rw [← hkey]
  cases hq : S.previous (S.keyOf (base + i)) with
  | none => exact absurd rfl (S.previous_eq_none.mp hq _ (hb.mem_scheduled.mpr ⟨i, o, ho, rfl⟩))
  | some q =>
    obtain ⟨h1, h2⟩ := S.previous_spec hq
    exact ⟨q, h1, rfl, h2⟩

theorem usable_reload (wall : ℕ → ℚ) (now : ℚ) {i : ℕ} {o : ℕ × List ℕ}
    (ho : (flatten F).order[i]? = some o) {q : ℕ} (hq : S.previous (F.node o.1).key = some q) :
    (S.reload F wall now).usable (S.fresh + i) = S.usable q := by
  obtain ⟨due, hobj⟩ := S.reload_obj wall now ho
  rw [Sched.carry_some hq] at hobj
  unfold Sched.usable
  rw [hobj]
  rfl

/-- The objects of the walk are renumbered by a reload; their gates with them. -/
theorem live_reload {base : ℕ} (hb : Built F base S) (wall : ℕ → ℚ) (now : ℚ)
    (halike : ∀ p ∈ S.scheduled, ∀ p' ∈ S.scheduled, isPingType (S.objs p).node.checkType = true →
      S.keyOf p = S.keyOf p' → S.usable p = S.usable p') {i : ℕ} {o : ℕ × List ℕ}
    (ho : (flatten F).order[i]? = some o) : Live (S.reload F wall now) (S.fresh + i) ↔ Live S (base + i) := by
  have hb' := Built.reload S F wall now
  have hnum : ∀ j, S.fresh + (base + j - base) = S.fresh + j := fun j => by omega
  have := Live.transfer (S := S) (T := S.reload F wall now) (f := fun r => S.fresh + (r - base))
    (D := fun r => ∃ i o, (flatten F).order[i]? = some o ∧ r = base + i) ?_ ?_ (r := base + i) ⟨i, o, ho, rfl⟩
  · simpa only [hnum] using this
  · rintro _ ⟨j, oj, hj, rfl⟩
    rw [hnum, hb'.gate j oj hj, hb.gate j oj hj, List.map_map]
    exact List.map_congr_left fun p _ => (hnum p).symm
  · rintro _ ⟨j, oj, hj, rfl⟩ p hp
    rw [hb.gate j oj hj] at hp
    obtain ⟨l, hl, rfl⟩ := List.mem_map.mp hp
    -- a gate edge leads to a ping node of the walk
    obtain ⟨m, hm, hping, -⟩ := ((walkInv_flatten F).gate oj (List.mem_of_getElem? hj)).2 l hl
    rw [Flat.nodes, List.getElem?_map, Option.map_eq_some_iff] at hm
    obtain ⟨ol, hol, rfl⟩ := hm
    refine ⟨⟨l, ol, hol, rfl⟩, ?_⟩
    obtain ⟨q, hq, hprev, hkey⟩ := hb.previous hol
    rw [hnum, usable_reload wall now hol hprev]
    refine (halike _ (hb.mem_scheduled.mpr ⟨l, ol, hol, rfl⟩) q hq ?_ hkey.symm).symm
    rw [hb.node l ol hol]
    exact hping

/-- **Reload of an unchanged forest**: every node has the carried fields and `checked` of the last node with its key,
which is itself if its key is unique; and the same eligibility, unless ping nodes that share a key differ. -/
theorem reload_unchanged (h : S.On F) (wall : ℕ → ℚ) (now : ℚ) (n : ℕ) (hn : n ∈ (flatten F).nodes) :
    ∃ r r' q, S.objectOf F n = some r ∧ (S.reload F wall now).objectOf F n = some r' ∧
      S.previous (S.keyOf r) = some q ∧
      ((S.reload F wall now).objs r').state.toCarried = (S.objs q).state.toCarried ∧
      ((S.reload F wall now).objs r').state.lastcontacted = (S.objs q).state.lastcontacted ∧
      ((S.reload F wall now).objs r').checked = (S.objs q).checked ∧
      ((∀ p ∈ S.scheduled, S.keyOf p = S.keyOf r → p = r) → q = r) ∧
      ((∀ p ∈ S.scheduled, ∀ p' ∈ S.scheduled, isPingType (S.objs p).node.checkType = true →
          S.keyOf p = S.keyOf p' → S.usable p = S.usable p') →
        (S.reload F wall now).eligible r' = S.eligible r) := by
  obtain ⟨base, hb⟩ := h.built
  have hb' := Built.reload S F wall now
  obtain ⟨i, o, hpl, ho, rfl, hr⟩ := hb.objectOf hn
  obtain ⟨i', o', hpl', -, -, hr'⟩ := hb'.objectOf hn
  obtain rfl : i = i' := Option.some.inj (hpl.symm.trans hpl')
  obtain ⟨q, hq, hprev, hkey⟩ := hb.previous ho
  obtain ⟨due, hobj⟩ := S.reload_obj wall now ho
  rw [Sched.carry_some hprev] at hobj
  refine ⟨_, _, q, hr, hr', ?_, by rw [hobj]; rfl, by rw [hobj]; rfl, by rw [hobj], fun huniq => huniq q hq hkey,
    fun halike => ?_⟩
  · rw [show S.keyOf (base + i) = (F.node o.1).key from congrArg Node.key (hb.node i o ho)]
    exact hprev
  · rw [Bool.eq_iff_iff, eligible_iff_live (h.gateInv.reload F wall now), eligible_iff_live h.gateInv]
    exact live_reload hb wall now halike ho

/-- A router that went down keeps its state over the reload. -/
theorem reload_unchanged_router : ∃ (S : Sched) (r r' : ℕ), S.On gatewayForest ∧ S.objectOf gatewayForest 0 = some r ∧
    (S.reload gatewayForest (fun _ => 9) 40).objectOf gatewayForest 0 = some r' ∧ (S.objs r).state.downct = 2 ∧
    ((S.reload gatewayForest (fun _ => 9) 40).objs r').state.toCarried = (S.objs r).state.toCarried := by
  have hrun : (exec Sched.step (Sched.init {} gatewayForest (fun _ => 0) 0 true) pageRun).map (fun q =>
      (q.1.scheduled, q.1.objectOf gatewayForest 0, (q.1.objs 0).state.downct, decide (q.1.keyOf 1 = q.1.keyOf 0))) =
      some ([0, 1], some 0, 2, false) := by
    decide +kernel
  obtain ⟨⟨S, tr⟩, he, hq⟩ := Option.map_eq_some_iff.mp hrun
  simp only [Prod.mk.injEq, decide_eq_false_iff_not] at hq
  obtain ⟨hsched, hobj, hdown, hkey⟩ := hq
  have hS : S.On gatewayForest := (Sched.On.init {} gatewayForest (fun _ => 0) 0 true).exec (by decide) he
  obtain ⟨r, r', q, hr, hr', -, hcar, -, -, huniq, -⟩ :=
    reload_unchanged hS (fun _ => 9) 40 0 (by decide +kernel)
  obtain rfl : r = 0 := Option.some.inj (hr.symm.trans hobj)
  refine ⟨S, 0, r', hS, hr, hr', hdown, ?_⟩
  rw [hcar, huniq]
  intro p hp hk
  rw [hsched] at hp
  simp only [List.mem_cons, List.not_mem_nil, or_false] at hp
  rcases hp with rfl | rfl
  · rfl
  · exact absurd hk hkey

/-- Two http checks of different pages of one server. -/
def twoPages : Forest where
  objs := [({ hostname := "www".toList, checkType := .http, port := 80, url := "/a".toList }, []),
    ({ hostname := "www".toList, checkType := .http, port := 80, url := "/b".toList }, [])]
  roots := [0, 1]
  roots_lt := by decide
  children_lt := by decide

/-- **Checks that share a key swap state**: `/a` is down and `/b` up; after the reload `/a` is up. -/
theorem shared_key_swaps_state : ∃ (S : Sched) (r r' : ℕ), S.On twoPages ∧ S.mono ≤ 3 ∧ S.objectOf twoPages 0 = some r ∧
    (S.reload twoPages (fun _ => 0) 3).objectOf twoPages 0 = some r' ∧
    (S.objs r).state.lastcheck = Status.connRefused.code ∧
    ((S.reload twoPages (fun _ => 0) 3).objs r').state.lastcheck = Status.ok.code := by
  have hrun : (exec Sched.step (Sched.init {} twoPages (fun _ => 0) 0 false)
      [.tick 0, .finish 0 (some Status.connRefused.code) 0 1 1, .finish 1 (some Status.ok.code) 0 2 2]).map (fun q =>
        (decide (q.1.mono ≤ 3), q.1.objectOf twoPages 0, (q.1.reload twoPages (fun _ => 0) 3).objectOf twoPages 0,
          (q.1.objs 0).state.lastcheck, ((q.1.reload twoPages (fun _ => 0) 3).objs 2).state.lastcheck)) =
      some (true, some 0, some 2, Status.connRefused.code, Status.ok.code) := by
    decide +kernel
  obtain ⟨⟨S, tr⟩, he, hq⟩ := Option.map_eq_some_iff.mp hrun
  simp only [Prod.mk.injEq, decide_eq_true_eq] at hq
  obtain ⟨hmono, h1, h2, h3, h4⟩ := hq
  exact ⟨S, 0, 2, (Sched.On.init {} twoPages (fun _ => 0) 0 false).exec (by decide) he, hmono, h1, h2, h3, h4⟩

end Unchanged

/-! ### Restart against reload -/

section Restart

variable (F G : Forest)

/-- A fresh scheduler on `G` with the records of `S`. -/
def restarted (S : Sched) (settings : Settings) (wall : ℕ → ℚ) (start : ℚ) (stagger : Bool) (now : ℚ) : Sched :=
  ((Sched.init settings G wall start stagger).importState S.exportState now).sched

/-- The scheduler `T` on `G` has the states that `S'` has, but for the re-page timer; nothing is checked yet. -/
def SameStates (S' T : Sched) : Prop :=
  ∀ n ∈ (flatten G).nodes, ∃ r r', S'.objectOf G n = some r ∧ T.objectOf G n = some r' ∧
    { (T.objs r').state with lastcontacted := 0 } = { (S'.objs r).state with lastcontacted := 0 } ∧
    (T.objs r').checked = false

/-- No key that `F` schedules is scheduled twice by `G`. -/
def NoSharedKey : Prop :=
  ∀ n ∈ (flatten G).nodes, ∀ m ∈ (flatten G).nodes, (G.node n).key = (G.node m).key →
    (∃ l ∈ (flatten F).nodes, (F.node l).key = (G.node n).key) → n = m

variable {F G} {S : Sched} {settings : Settings} {wall : ℕ → ℚ} {start now later : ℚ} {stagger : Bool}
  {i : ℕ} {o : ℕ × List ℕ}

theorem Built.restarted : Built G 0 (restarted G S settings wall start stagger now) :=
  (Built.init settings G wall start stagger).kept (.importState _ _ _)

/-- A node of `G` after the restart. -/
theorem restarted_obj (ho : (flatten G).order[i]? = some o) :
    (restarted G S settings wall start stagger now).objs i =
      if (Sched.init settings G wall start stagger).previous (G.node o.1).key = some i then
        S.restored now ((Sched.init settings G wall start stagger).objs i) (S.previous (G.node o.1).key)
      else (Sched.init settings G wall start stagger).objs i := by
  have hkey : (Sched.init settings G wall start stagger).keyOf i = (G.node o.1).key := by
    obtain ⟨due, hobj⟩ := Sched.init_obj settings wall start stagger ho
    rw [Sched.keyOf, hobj]
    rfl
  rw [restarted, Sched.objs_importState_exportState, Sched.merged, hkey]
  rfl

/-- The keys that have a predecessor are those of the old forest. -/
theorem Built.previous_isSome {base : ℕ} (hb : Built F base S) {k : NodeKey} :
    (∃ q, S.previous k = some q) ↔ ∃ l ∈ (flatten F).nodes, (F.node l).key = k := by
  constructor
  · rintro ⟨q, hq⟩
    obtain ⟨hmem, hk⟩ := S.previous_spec hq
    obtain ⟨j, oj, hj, rfl⟩ := hb.mem_scheduled.mp hmem
    refine ⟨oj.1, List.mem_map_of_mem (List.mem_of_getElem? hj), ?_⟩
    rw [← hk, Sched.keyOf, hb.node j oj hj]
  · rintro ⟨l, hl, rfl⟩
    obtain ⟨j, oj, -, hj, rfl, -⟩ := hb.objectOf hl
    obtain ⟨q, -, hq, -⟩ := hb.previous hj
    exact ⟨q, hq⟩

/-- A node whose key no other scheduled node has is its own predecessor. -/
theorem Built.previous_unique {base : ℕ} {T : Sched} (hb : Built G base T) (ho : (flatten G).order[i]? = some o)
    (huniq : ∀ m ∈ (flatten G).nodes, (G.node o.1).key = (G.node m).key → o.1 = m) :
    T.previous (G.node o.1).key = some (base + i) := by
  have hkey : ∀ {j : ℕ} {oj : ℕ × List ℕ}, (flatten G).order[j]? = some oj → T.keyOf (base + j) = (G.node oj.1).key :=
    fun hj => congrArg Node.key (hb.node _ _ hj)
  rw [← hkey ho, T.previous_of_unique (hb.mem_scheduled.mpr ⟨i, o, ho, rfl⟩)]
  intro q hq hk
  obtain ⟨j, oj, hj, rfl⟩ := hb.mem_scheduled.mp hq
  rw [hkey hj, hkey ho] at hk
  have heq : o.1 = oj.1 := huniq oj.1 (List.mem_map_of_mem (List.mem_of_getElem? hj)) hk.symm
  have hnodes : ∀ {j : ℕ} {oj : ℕ × List ℕ}, (flatten G).order[j]? = some oj → (flatten G).nodes[j]? = some oj.1 :=
    fun h => by rw [Flat.nodes, List.getElem?_map, h, Option.map_some]
  have hlt : j < (flatten G).nodes.length := (List.getElem?_eq_some_iff.mp (hnodes hj)).1
  have hij : j = i := (List.getElem?_inj hlt (walkInv_flatten G).nodup).mp
    ((hnodes hj).trans (heq ▸ (hnodes ho).symm))
  rw [hij]

/-- Both merges leave a node without predecessor as it was built. -/
theorem same_of_none (ho : (flatten G).order[i]? = some o) (hp : S.previous (G.node o.1).key = none) :
    ((restarted G S settings wall start stagger later).objs i).state =
      ((S.reload G wall now).objs (S.fresh + i)).state := by
  obtain ⟨due, hnew⟩ := Sched.init_obj settings wall start stagger ho
  obtain ⟨due', hobj⟩ := S.reload_obj wall now ho
  rw [Sched.carry_none hp] at hobj
  rw [restarted_obj ho, hp, Sched.restored, ite_self, hobj, hnew]
  rfl

/-- The node that its records are written to has what the reload gives it. -/
theorem same_of_last {p : ℕ} (ho : (flatten G).order[i]? = some o) (hp : S.previous (G.node o.1).key = some p)
    (hcap : (S.objs p).state.Capped)
    (hlast : (Sched.init settings G wall start stagger).previous (G.node o.1).key = some i) :
    { ((restarted G S settings wall start stagger later).objs i).state with lastcontacted := 0 } =
      { ((S.reload G wall now).objs (S.fresh + i)).state with lastcontacted := 0 } := by
  obtain ⟨due, hnew⟩ := Sched.init_obj settings wall start stagger ho
  obtain ⟨due', hobj⟩ := S.reload_obj wall now ho
  rw [Sched.carry_some hp] at hobj
  rw [restarted_obj ho, if_pos hlast, hp, Sched.restored, hcap.exported, hobj, hnew]
  rfl

/-- **Restart and reload merge alike** exactly when no key of the old forest is scheduled twice in the new one. -/
theorem restart_eq_reload_iff (F G : Forest) :
    (∀ S : Sched, S.On F → ∀ settings wall start stagger now later, S.mono ≤ now →
      SameStates G (S.reload G wall now) (restarted G S settings wall start stagger later)) ↔ NoSharedKey F G := by
  constructor
  · intro h n hn m hm hkey hold
    -- `last_up` is 0 in the old scheduler and 1 in new nodes, so only the last node with the key can agree
    let S := Sched.init {} F (fun _ => 0) 0 false
    have hS : S.On F := .init {} F (fun _ => 0) 0 false
    have hb : Built F 0 S := .init {} F (fun _ => 0) 0 false
    obtain ⟨q, hq⟩ := hb.previous_isSome.mpr hold
    have hlast : ∀ x ∈ (flatten G).nodes, (G.node x).key = (G.node n).key →
        ∃ i o, (flatten G).order[i]? = some o ∧ o.1 = x ∧
          (Sched.init {} G (fun _ => 1) 0 false).previous (G.node n).key = some i := by
      intro x hx hkx
      obtain ⟨r, r', hr, hr', hst, -⟩ := h S hS {} (fun _ => 1) 0 false S.mono 0 le_rfl x hx
      obtain ⟨i, o, hpl, ho, rfl, hri⟩ := (Built.reload S G (fun _ => 1) S.mono).objectOf hx
      obtain ⟨i', o', hpl', -, -, hri'⟩ := (Built.restarted (S := S)).objectOf hx
      obtain rfl : i = i' := Option.some.inj (hpl.symm.trans hpl')
      obtain rfl := Option.some.inj (hr.symm.trans hri)
      obtain rfl := Option.some.inj (hr'.symm.trans hri')
      refine ⟨i, o, ho, rfl, ?_⟩
      by_contra hne
      obtain ⟨due, hnew⟩ := Sched.init_obj {} (fun _ => 1) 0 false ho
      obtain ⟨due', hobj⟩ := S.reload_obj (fun _ => 1) S.mono ho
      rw [Sched.carry_some (hkx ▸ hq)] at hobj
      rw [Nat.zero_add, restarted_obj ho, hkx, if_neg hne, hnew, hobj] at hst
      have hup : (1 : ℚ) = (S.objs q).state.lastUp := congrArg NodeState.lastUp hst
      obtain ⟨j, oj, hj, rfl⟩ := hb.mem_scheduled.mp (S.previous_spec hq).1
      obtain ⟨due'', hold'⟩ := Sched.init_obj {} (fun _ => 0) 0 false hj
      rw [Nat.zero_add, hold'] at hup
      exact absurd hup (by simp [mkScheduled])
    obtain ⟨i, o, hi, rfl, h1⟩ := hlast n hn rfl
    obtain ⟨j, o', hj, rfl, h2⟩ := hlast m hm hkey.symm
    obtain rfl : i = j := Option.some.inj (h1.symm.trans h2)
    rw [Option.some.inj (hi.symm.trans hj)]
  · intro h S hS settings wall start stagger now later _ n hn
    obtain ⟨base, hb⟩ := hS.built
    obtain ⟨i, o, hpl, ho, rfl, hr⟩ := (Built.reload S G wall now).objectOf hn
    obtain ⟨i', o', hpl', -, -, hr'⟩ := Built.objectOf (F := G)
      (S := restarted G S settings wall start stagger later) Built.restarted hn
    obtain rfl : i = i' := Option.some.inj (hpl.symm.trans hpl')
    rw [Nat.zero_add] at hr'
    refine ⟨_, _, hr, hr', ?_, ?_⟩
    · cases hp : S.previous (G.node o.1).key with
      | none => rw [same_of_none ho hp]
      | some p =>
        have hold := hb.previous_isSome.mp ⟨p, hp⟩
        have hlast := (Built.init settings G wall start stagger).previous_unique ho fun m hm hk => h _ hn m hm hk hold
        rw [Nat.zero_add] at hlast
        exact same_of_last ho hp (capped_rule.on hS p) hlast
    · obtain ⟨due, hnew⟩ := Sched.init_obj settings wall start stagger ho
      rw [restarted, Sched.checked_importState, hnew]
      rfl

/-- **A restart forgets an outage that a reload keeps**: both pages are down, `/a` is up again after the restart. -/
theorem restart_forgets_outage : ∃ (S : Sched) (r r' : ℕ), S.On twoPages ∧ S.mono ≤ 3 ∧
    (S.reload twoPages (fun _ => 0) 3).objectOf twoPages 0 = some r ∧
    (restarted twoPages S {} (fun _ => 0) 0 true 1).objectOf twoPages 0 = some r' ∧
    ((S.reload twoPages (fun _ => 0) 3).objs r).state.lastcheck = Status.connRefused.code ∧
    ((restarted twoPages S {} (fun _ => 0) 0 true 1).objs r').state.lastcheck = Status.ok.code := by
  have hrun : (exec Sched.step (Sched.init {} twoPages (fun _ => 0) 0 false)
      [.tick 0, .finish 0 (some Status.connRefused.code) 0 1 1, .finish 1 (some Status.connRefused.code) 0 2 2]).map
      (fun q => (decide (q.1.mono ≤ 3), (q.1.reload twoPages (fun _ => 0) 3).objectOf twoPages 0,
        (restarted twoPages q.1 {} (fun _ => 0) 0 true 1).objectOf twoPages 0,
        ((q.1.reload twoPages (fun _ => 0) 3).objs 2).state.lastcheck,
        ((restarted twoPages q.1 {} (fun _ => 0) 0 true 1).objs 0).state.lastcheck)) =
      some (true, some 2, some 0, Status.connRefused.code, Status.ok.code) := by
    decide +kernel
  obtain ⟨⟨S, tr⟩, he, hq⟩ := Option.map_eq_some_iff.mp hrun
  simp only [Prod.mk.injEq, decide_eq_true_eq] at hq
  obtain ⟨hmono, h1, h2, h3, h4⟩ := hq
  exact ⟨S, 2, 0, (Sched.On.init {} twoPages (fun _ => 0) 0 false).exec (by decide) he, hmono, h1, h2, h3, h4⟩

end Restart

end Psysmon
