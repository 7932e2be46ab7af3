import Psysmon.Engine.Walk
import Psysmon.Engine.Health
import Psysmon.Engine.Reload

/-!
# Psysmon.Engine.Rebuild — which objects stand for which nodes

`S.On F`: the scheduler `S` is reachable and `F` is the forest it schedules, whatever it did before: earlier reloads,
checks, imports of any records.  `Built` is the invariant behind it: the live objects are those that the walk of `F`
orders, allocated one after the other, with the nodes and gates of that walk.

* `Sched.On.built`: a reachable scheduler is built from its forest.
* `StateRule.on`: what every write to a node state keeps, every reachable state has.
* `Live.transfer`: liveness depends on the gates and on which parents are usable, not on allocation numbers.
-/

namespace Psysmon

open Lib

/-- The forest that is scheduled after a segment. -/
def Label.forest : Label → Forest → Forest
  | .reload G _ _, _ => G
  | _, F => F

/-- Reachable schedulers, with the forest they schedule: construction, the segments, and imports of any records. -/
inductive Sched.On : Forest → Sched → Prop
  | init (settings : Settings) (F : Forest) (wall : ℕ → ℚ) (now : ℚ) (stagger : Bool) :
    On F (Sched.init settings F wall now stagger)
  | step {F : Forest} {S S' : Sched} {a : Label} {o : List Event} (h : On F S) (hs : S.step a = some (S', o)) :
    On (a.forest F) S'
  | restore {F : Forest} {S : Sched} (h : On F S) (records : List Record) {now : ℚ} (hn : S.mono ≤ now) :
    On F { (S.importState records now).sched with mono := now }

theorem Sched.On.exec {F : Forest} : ∀ {as : List Label} {S S' : Sched} {tr : List Event}, On F S →
    (∀ a ∈ as, a.isReload = false) → Lib.exec Sched.step S as = some (S', tr) → On F S'
  | [], S, S', tr, h, _, he => by
    obtain ⟨rfl, rfl⟩ := Prod.mk.inj (Option.some.inj he)
    exact h
  | a :: as, S, S', tr, h, has, he => by
    obtain ⟨S₁, o, tr', hs, he', -⟩ := Lib.exec_cons.mp he
    have hF : a.forest F = F := by
      have := has a (by simp)
      cases a <;> first | rfl | simp [Label.isReload] at this
    exact Sched.On.exec (hF ▸ h.step hs) (fun b hb => has b (by simp [hb])) he'

namespace Sched

/-- The object that stands for the node `n` of the scheduled forest. -/
def objectOf (S : Sched) (F : Forest) (n : ℕ) : Option ℕ := ((flatten F).place n).bind (S.scheduled[·]?)

/-- An import writes node states only. -/
theorem Kept.importState (S : Sched) (records : List Record) (now : ℚ) : S.Kept (S.importState records now).sched :=
  importState_ind S.Kept records now (fun _ _ _ q _ _ _ hI => hI.modifyState q _) (.refl S)

theorem checked_importState (S : Sched) (records : List Record) (now : ℚ) (r : ℕ) :
    ((S.importState records now).sched.objs r).checked = (S.objs r).checked := by
  refine importState_ind (fun T => (T.objs r).checked = (S.objs r).checked) records now ?_ rfl
  intro T _ c q _ _ _ hI
  by_cases hr : r = q
  · subst hr
    simpa [modifyState] using hI
  · rwa [modifyState, modify_objs_of_ne _ _ _ hr]

end Sched

/-! ### The objects of a forest -/

/-- The live objects are those of the walk of `F`, allocated from `base` on. -/
structure Built (F : Forest) (base : ℕ) (S : Sched) : Prop where
  fresh : S.fresh = base + (flatten F).order.length
  scheduled : S.scheduled = (List.range (flatten F).order.length).map (base + ·)
  node : ∀ i o, (flatten F).order[i]? = some o → (S.objs (base + i)).node = F.node o.1
  gate : ∀ i o, (flatten F).order[i]? = some o → (S.objs (base + i)).gate = o.2.map (base + ·)

/-- The object that `_flatten` and `_stagger_due` make for the `i`-th node of the walk. -/
theorem getElem?_newScheduled (settings : Settings) {F : Forest} (base : ℕ) (wall : ℕ → ℚ) (now : ℚ) (stagger : Bool)
    {i : ℕ} {o : ℕ × List ℕ} (h : (flatten F).order[i]? = some o) :
    ∃ due, (Sched.newScheduled settings F base wall now stagger)[i]? =
      some { mkScheduled settings (F.node o.1) (o.2.map (base + ·)) (wall i) with nextDue := due } := by
  refine ⟨now + if stagger then (i / (flatten F).order.length : ℚ) * settings.intervalS else 0, ?_⟩
  rw [Sched.newScheduled, List.getElem?_mapIdx, h]
  rfl

theorem length_newScheduled (settings : Settings) (F : Forest) (base : ℕ) (wall : ℕ → ℚ) (now : ℚ) (stagger : Bool) :
    (Sched.newScheduled settings F base wall now stagger).length = (flatten F).order.length := by
  simp [Sched.newScheduled]

theorem Sched.allocate_at (S : Sched) {news : List Scheduled} {i : ℕ} {o : Scheduled} (h : news[i]? = some o) :
    S.allocate news (S.fresh + i) = o := by
  rw [allocate, if_neg (by omega), Nat.add_sub_cancel_left, h, Option.getD_some]

theorem Sched.install_at (S : Sched) {news : List Scheduled} {i : ℕ} {o : Scheduled} (h : news[i]? = some o) :
    (S.install news).objs (S.fresh + i) = o := by
  obtain ⟨hp, n, hS⟩ := S.install_frame news
  rw [hS]
  exact S.allocate_at h

theorem Sched.carry_frame (S : Sched) (o : Scheduled) : (S.carry o).node = o.node ∧ (S.carry o).gate = o.gate := by
  unfold carry
  split <;> exact ⟨rfl, rfl⟩

/-- A new object as it was built. -/
theorem Sched.init_obj (settings : Settings) {F : Forest} (wall : ℕ → ℚ) (now : ℚ) (stagger : Bool) {i : ℕ}
    {o : ℕ × List ℕ} (h : (flatten F).order[i]? = some o) :
    ∃ due, (init settings F wall now stagger).objs i =
      { mkScheduled settings (F.node o.1) (o.2.map (0 + ·)) (wall i) with nextDue := due } := by
  obtain ⟨due, hdue⟩ := getElem?_newScheduled settings 0 wall now stagger h
  have hobj : (init settings F wall now stagger).objs (0 + i) = _ := install_at _ hdue
  rw [Nat.zero_add] at hobj
  exact ⟨due, hobj⟩

/-- An object of a reload: new, merged with its predecessor. -/
theorem Sched.reload_obj (S : Sched) {F : Forest} (wall : ℕ → ℚ) (now : ℚ) {i : ℕ} {o : ℕ × List ℕ}
    (h : (flatten F).order[i]? = some o) :
    ∃ due, (S.reload F wall now).objs (S.fresh + i) = S.carry
      { mkScheduled S.settings (F.node o.1) (o.2.map (S.fresh + ·)) (wall i) with nextDue := due } := by
  obtain ⟨due, hdue⟩ := getElem?_newScheduled S.settings S.fresh wall now true h
  refine ⟨due, ?_⟩
  rw [(S.reload_frame F wall now).2.2.2.2]
  refine S.allocate_at ?_
  rw [reloaded, List.getElem?_map, hdue]
  rfl

theorem Built.init (settings : Settings) (F : Forest) (wall : ℕ → ℚ) (now : ℚ) (stagger : Bool) :
    Built F 0 (Sched.init settings F wall now stagger) := by
  have hframe : (Sched.init settings F wall now stagger).fresh = 0 + (flatten F).order.length ∧
      (Sched.init settings F wall now stagger).scheduled = (List.range (flatten F).order.length).map (0 + ·) := by
    unfold Sched.init
    obtain ⟨hp, n, hS⟩ := Sched.install_frame _ (Sched.newScheduled settings F 0 wall now stagger)
    rw [hS, ← length_newScheduled settings F 0 wall now stagger]
    exact ⟨rfl, rfl⟩
  refine ⟨hframe.1, hframe.2, fun i o ho => ?_, fun i o ho => ?_⟩ <;>
  · obtain ⟨due, hobj⟩ := Sched.init_obj settings wall now stagger ho
    rw [Nat.zero_add, hobj]
    rfl

theorem Built.reload (S : Sched) (F : Forest) (wall : ℕ → ℚ) (now : ℚ) : Built F S.fresh (S.reload F wall now) := by
  obtain ⟨-, -, hfresh, hsched, -⟩ := S.reload_frame F wall now
  have hlen : (S.reloaded F wall now).length = (flatten F).order.length := by
    rw [Sched.reloaded, List.length_map, length_newScheduled]
  refine ⟨hlen ▸ hfresh, hlen ▸ hsched, fun i o ho => ?_, fun i o ho => ?_⟩
  · obtain ⟨due, hobj⟩ := S.reload_obj wall now ho
    rw [hobj, (S.carry_frame _).1]
    rfl
  · obtain ⟨due, hobj⟩ := S.reload_obj wall now ho
    rw [hobj, (S.carry_frame _).2]
    rfl

theorem Built.kept {F : Forest} {base : ℕ} {S S' : Sched} (h : Built F base S) (hk : S.Kept S') : Built F base S' :=
  ⟨hk.fresh.trans h.fresh, hk.scheduled.trans h.scheduled, fun i o ho => (hk.node _).trans (h.node i o ho),
    fun i o ho => (hk.gate _).trans (h.gate i o ho)⟩

/-- **A reachable scheduler is built from its forest.** -/
theorem Sched.On.built {F : Forest} {S : Sched} (h : On F S) : ∃ base, Built F base S := by
  induction h with
  | init settings F wall now stagger => exact ⟨0, .init settings F wall now stagger⟩
  | @step F S S' a o _ hs ih =>
    obtain ⟨base, hb⟩ := ih
    cases Sched.stepped hs with
    | @reload G wall now _ => exact ⟨S.fresh, .reload S G wall now⟩
    | _ => exact ⟨base, hb.kept ((Sched.stepped hs).kept rfl)⟩
  | @restore F S _ records now _ ih =>
    obtain ⟨base, hb⟩ := ih
    exact ⟨base, hb.kept ((Kept.importState S records now).trans
      ⟨rfl, rfl, rfl, fun _ => rfl, fun _ => rfl, fun _ => rfl, fun _ => rfl⟩)⟩

section Built

variable {F : Forest} {base : ℕ} {S : Sched}

theorem Built.mem_scheduled (h : Built F base S) {r : ℕ} :
    r ∈ S.scheduled ↔ ∃ i o, (flatten F).order[i]? = some o ∧ r = base + i := by
  rw [h.scheduled, List.mem_map]
  constructor
  · rintro ⟨i, hi, rfl⟩
    exact ⟨i, _, List.getElem?_eq_getElem (List.mem_range.mp hi), rfl⟩
  · rintro ⟨i, o, ho, rfl⟩
    exact ⟨i, List.mem_range.mpr (List.getElem?_eq_some_iff.mp ho).1, rfl⟩

/-- The object of a scheduled node is found by its place. -/
theorem Built.objectOf (h : Built F base S) {n : ℕ} (hn : n ∈ (flatten F).nodes) :
    ∃ i o, (flatten F).place n = some i ∧ (flatten F).order[i]? = some o ∧ o.1 = n ∧
      S.objectOf F n = some (base + i) := by
  cases hp : (flatten F).place n with
  | none => exact absurd hn (Flat.place_eq_none.mp hp)
  | some i =>
    have hi := Flat.place_eq_some hp
    rw [Flat.nodes, List.getElem?_map, Option.map_eq_some_iff] at hi
    obtain ⟨o, ho, rfl⟩ := hi
    refine ⟨i, o, rfl, ho, rfl, ?_⟩
    rw [Sched.objectOf, hp, Option.bind_some, h.scheduled, List.getElem?_map,
      List.getElem?_range (List.getElem?_eq_some_iff.mp ho).1]
    rfl

end Built

/-! ### Invariants of node states -/

/-- A property of node states that every write of the engine keeps. -/
structure StateRule (P : NodeState → Prop) : Prop where
  fresh (n : ℤ) (w : Number.PyFloat) : P { maxDown := n, lastUp := w }
  suppress {s : NodeState} : P s → P { s with suppressed := true }
  ack {s : NodeState} : P s → P { s with acked := true }
  note {s : NodeState} (x : Option Text) : P s → P { s with note := Sched.capNote x }
  parents {s : NodeState} (d : List Text) : P s → P { s with downParents := d }
  check {s : NodeState} (c : PagingCfg) (code : ℤ) (wall now later : ℚ) : P s →
    P (applyAndPage c s code wall now later).1
  sent {s : NodeState} (p : Page) (out : SendOutcome) (now : ℚ) : P s → P (afterSend s p out now)
  carry {old new : NodeState} : P old → P new → P (Sched.carryState old new)
  restore {s : NodeState} {r : Record} {c : Carried} (now : ℚ) (hc : validatedCarry r = .ok c) : P s →
    P (restoreState c now s)

/-- Every object's state has the property. -/
def AllStates (P : NodeState → Prop) (S : Sched) : Prop := ∀ r, P (S.objs r).state

section AllStates

variable {P : NodeState → Prop} {S : Sched}

theorem AllStates.modify (h : AllStates P S) (q : ℕ) {f : Scheduled → Scheduled}
    (hf : P (S.objs q).state → P (f (S.objs q)).state) : AllStates P (S.modify q f) := by
  intro r
  by_cases hr : r = q
  · subst hr
    rw [Sched.modify_objs_self]
    exact hf (h r)
  · rw [Sched.modify_objs_of_ne _ _ _ hr]
    exact h r

theorem AllStates.modifyState (h : AllStates P S) (q : ℕ) {f : NodeState → NodeState} (hf : ∀ s, P s → P (f s)) :
    AllStates P (S.modifyState q f) :=
  h.modify q (hf _)

theorem AllStates.publish (h : AllStates P S) (b : Bool) : AllStates P (S.publish b) := h

theorem AllStates.endTask (h : AllStates P S) (q : ℕ) : AllStates P (S.endTask q) := by
  have h1 : AllStates P (S.modify q fun o => { o with inFlight := false }) := h.modify q id
  unfold Sched.endTask
  dsimp only
  split <;> exact h1

theorem AllStates.mapStates (h : AllStates P S) (rs : List ℕ) {f : NodeState → NodeState}
    (hf : ∀ s, P s → P (f s)) : AllStates P (S.mapStates rs f) := by
  intro r
  simp only [Sched.mapStates]
  split
  · exact hf _ (h r)
  · exact h r

theorem AllStates.install (h : AllStates P S) {news : List Scheduled} (hnew : ∀ o ∈ news, P o.state) :
    AllStates P (S.install news) := by
  obtain ⟨hp, n, hS⟩ := S.install_frame news
  rw [hS]
  intro r
  show P (S.allocate news r).state
  by_cases hlt : r < S.fresh
  · rw [S.allocate_old news hlt]
    exact h r
  · by_cases hq : r < S.fresh + news.length
    · obtain ⟨o, ho, heq⟩ := S.allocate_new news ((S.mem_newRefs news).mpr ⟨by omega, hq⟩)
      exact heq ▸ hnew o ho
    · rw [S.allocate_beyond news (by omega)]
      exact h r

variable (hP : StateRule P)
include hP

theorem StateRule.dispatch (h : AllStates P S) (now : ℚ) (q : ℕ) : AllStates P (S.dispatch now q) := by
  have h1 : AllStates P (S.modify q fun o => { o with nextDue := now + o.interval }) := h.modify q id
  unfold Sched.dispatch
  dsimp only
  split
  · exact h1.modify q (f := fun o => { o with inFlight := true }) id
  · exact h1.modifyState q fun _ => hP.suppress

theorem StateRule.tickLoop (now : ℚ) : ∀ (n : ℕ) {S : Sched}, AllStates P S → AllStates P (Sched.tickLoop now n S)
  | 0, _, h => h
  | n + 1, S, h => by
    unfold Sched.tickLoop
    split
    · exact h
    · rename_i e rest _
      split
      · exact StateRule.tickLoop now n (hP.dispatch (S := { S with heap := rest }) h now e.sched)
      · exact h

theorem StateRule.applyVerdict (h : AllStates P S) (q : ℕ) (code : ℤ) (wall now later : ℚ) :
    AllStates P (S.applyVerdict q code wall now later).1 := by
  unfold Sched.applyVerdict
  split
  · exact h.endTask q
  split
  · exact (h.modifyState q fun _ => hP.suppress).endTask q
  · have h1 : AllStates P (S.modify q fun o => { o with
        state := (applyAndPage (S.pagingCfg q) (S.objs q).state code wall now later).1, checked := true }) :=
      h.modify q (hP.check _ code wall now later)
    dsimp only
    split
    · exact h1
    · exact (h1.publish _).endTask q

theorem StateRule.newScheduled {settings : Settings} {F : Forest} {base : ℕ} {wall : ℕ → ℚ} {now : ℚ}
    {stagger : Bool} {o : Scheduled} (ho : o ∈ Sched.newScheduled settings F base wall now stagger) : P o.state := by
  obtain ⟨-, -, -, n, w, hst, -⟩ := Sched.mem_newScheduled ho
  exact hst ▸ hP.fresh _ _

theorem StateRule.reload (h : AllStates P S) (F : Forest) (wall : ℕ → ℚ) (now : ℚ) :
    AllStates P (S.reload F wall now) := by
  suffices hnew : ∀ o ∈ (Sched.newScheduled S.settings F S.fresh wall now true).map S.carry, P o.state from h.install hnew
  intro o ho
  obtain ⟨o', ho', rfl⟩ := List.mem_map.mp ho
  unfold Sched.carry
  split
  · exact hP.newScheduled ho'
  · exact hP.carry (h _) (hP.newScheduled ho')

/-- **One segment.** -/
theorem StateRule.step (h : AllStates P S) {S' : Sched} {a : Label} {o : List Event} (hs : S.step a = some (S', o)) :
    AllStates P S' := by
  cases Sched.stepped hs with
  | tick => exact hP.tickLoop _ _ (S := { S with mono := _ }) h
  | raised => exact AllStates.endTask (S := S.resume _ _ _) h _
  | verdict => exact hP.applyVerdict (S := S.resume _ _ _) h _ _ _ _ _
  | @sent q p ch out ended now =>
    have h0 : AllStates P (S.resume q (.sending p ch) now) := h
    exact ((h0.modifyState q fun _ => hP.sent p out now).publish _).endTask q
  | ack => exact h.mapStates _ fun _ => hP.ack
  | setNote => exact h.mapStates _ fun _ => hP.note _
  | nodeStates =>
    intro r
    simp only [Sched.nodeStates]
    split
    · exact hP.parents _ (h r)
    · exact h r
  | clearDirty => exact h
  | reload => exact hP.reload h _ _ _

/-- **Every reachable node state** has a property that every write keeps. -/
theorem StateRule.on {F : Forest} (h : Sched.On F S) : AllStates P S := by
  induction h with
  | init settings F wall now stagger =>
    exact AllStates.install (fun r => hP.fresh 2 (.finite 0)) fun o ho => hP.newScheduled ho
  | step _ hs ih => exact hP.step ih hs
  | @restore F S _ records now _ ih =>
    exact Sched.importState_ind (AllStates P) records now
      (fun T r c q _ hc _ hT => AllStates.modify hT q (hP.restore now hc)) ih

end AllStates

/-! ### Liveness up to renumbering -/

/-- Liveness is carried over by a renumbering `f` of a set of objects that holds the parents of its members. -/
theorem Live.transfer {S T : Sched} {f : ℕ → ℕ} {D : ℕ → Prop}
    (hgate : ∀ r, D r → (T.objs (f r)).gate = (S.objs r).gate.map f)
    (hclosed : ∀ r, D r → ∀ p ∈ (S.objs r).gate, D p ∧ T.usable (f p) = S.usable p) {r : ℕ} (hr : D r) :
    Live T (f r) ↔ Live S r := by
  constructor
  · suffices hgen : ∀ x, Live T x → ∀ r, D r → x = f r → Live S r from fun h => hgen _ h r hr rfl
    intro x hx
    induction hx with
    | @root x h =>
      rintro r hr rfl
      rw [hgate r hr, List.map_eq_nil_iff] at h
      exact .root h
    | @via x p hp hu _ ih =>
      rintro r hr rfl
      rw [hgate r hr] at hp
      obtain ⟨p, hp', rfl⟩ := List.mem_map.mp hp
      obtain ⟨hD, huse⟩ := hclosed r hr p hp'
      exact .via hp' (huse ▸ hu) (ih p hD rfl)
  · intro h
    induction h with
    | @root r h => exact .root (by rw [hgate r hr, h, List.map_nil])
    | @via r p hp hu _ ih =>
      obtain ⟨hD, huse⟩ := hclosed r hr p hp
      exact .via (hgate r hr ▸ List.mem_map_of_mem hp) (huse.trans hu) (ih hD)

theorem Sched.On.gateInv {F : Forest} {S : Sched} (h : On F S) : GateInv S := by
  induction h with
  | init settings F wall now stagger => exact .init settings F wall now stagger
  | step _ hs ih => exact ih.step hs
  | @restore F S _ records now _ ih =>
    have hk := Kept.importState S records now
    intro r p hp
    have hp : p ∈ ((S.importState records now).sched.objs r).gate := hp
    show p < (S.importState records now).sched.fresh
    rw [hk.gate] at hp
    rw [hk.fresh]
    exact ih r p hp

end Psysmon
