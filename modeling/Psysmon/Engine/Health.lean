import Psysmon.Engine.Project
import Psysmon.Engine.Persist

/-!
# Psysmon.Engine.Health — the counters never contradict `lastcheck`

`Healthy` is the invariant of a node's outage data: an up node has no failures counted and no page outstanding, and
a node with an error on record has counted at least one.  It is kept by every step of the one-node machine
(`HealthInv.step`) and travels with the state through the two merge paths, `reload` and `import_state`.

* `healthy_of_reachable`: every object in every reachable state, restarts included, as long as no state is imported
  over a `DOWN` page that is still being sent.
* `import_over_pending_page`: without that proviso the invariant fails.
-/

namespace Psysmon

open Lib

/-- The invariant of a node's outage data. -/
structure Healthy (s : NodeState) : Prop where
  up : s.lastcheck = 0 → s.downct = 0 ∧ s.contacted = false
  nonneg : 0 ≤ s.downct
  hot : PagingError false s.lastcheck → 1 ≤ s.downct

theorem Healthy.fresh (n : ℤ) (w : Number.PyFloat) : Healthy { maxDown := n, lastUp := w } :=
  ⟨fun _ => ⟨rfl, rfl⟩, le_rfl, fun h => absurd rfl h.1⟩

/-- The invariant reads three fields only. -/
theorem Healthy.congr {s t : NodeState} (h : Healthy s) (h1 : t.lastcheck = s.lastcheck) (h2 : t.downct = s.downct)
    (h3 : t.contacted = s.contacted) : Healthy t :=
  ⟨by rw [h1, h2, h3]; exact h.up, by rw [h2]; exact h.nonneg, by rw [h1, h2]; exact h.hot⟩

/-- Marking a node that is not up as contacted. -/
theorem Healthy.mark {s : NodeState} (h : Healthy s) (hl : s.lastcheck ≠ 0) (t : ℚ) :
    Healthy { s with contacted := true, lastcontacted := t } :=
  ⟨fun h0 => absurd h0 hl, h.nonneg, h.hot⟩

theorem Healthy.applied {pod : Bool} {s s' : NodeState} {r : ℤ} {w : ℚ} {i : PageIntent} (h : Healthy s)
    (ha : Applied pod s r w s' i) : Healthy s' := by
  cases ha with
  | degraded => exact ⟨by simp, h.nonneg, fun he => absurd (he.2.2 rfl) (by simp)⟩
  | noDns => exact ⟨by simp, h.nonneg, fun he => absurd rfl he.2.1⟩
  | cameUp => exact ⟨fun _ => ⟨rfl, rfl⟩, le_rfl, fun he => absurd rfl he.1⟩
  | stillUp => exact h
  | sameError he hl =>
    have hn := h.nonneg
    exact ⟨fun h0 => absurd (hl.symm.trans h0) he.1, by dsimp only; omega, fun _ => by dsimp only; omega⟩
  | newError he => exact ⟨fun h0 => absurd h0 he.1, by simp, fun _ => le_rfl⟩

/-- A page intent comes from an error, so the node is not up. -/
theorem Applied.lastcheck_ne_zero {pod : Bool} {s s' : NodeState} {r : ℤ} {w : ℚ} {i : PageIntent}
    (ha : Applied pod s r w s' i) (hi : i = .down) : s'.lastcheck ≠ 0 := by
  rw [ha.lastcheck_eq]
  cases ha with
  | cameUp => split at hi <;> simp at hi
  | sameError he => exact he.1
  | newError he => exact he.1
  | _ => simp at hi

/-- The invariant with the task: a first `DOWN` page is sent for a node that is not up. -/
structure HealthInv (v : NodeView) : Prop where
  ok : Healthy v.st
  first : ∀ ch, v.task = some (.sending .first ch) → v.st.lastcheck ≠ 0

theorem HealthInv.check {c : PagingCfg} {s : NodeState} (h : Healthy s) (code : ℤ) (wall now later : ℚ) :
    Healthy (applyAndPage c s code wall now later).1 ∧
      ((applyAndPage c s code wall now later).2.1 = some .first →
        (applyAndPage c s code wall now later).1.lastcheck ≠ 0) := by
  obtain ⟨s₁, i, ha, hp, -⟩ := applyAndPage_spec c s code wall now later
  have h1 : Healthy s₁ := (h.congr rfl rfl rfl : Healthy { s with suppressed := false }).applied ha
  generalize (applyAndPage c s code wall now later).1 = s₂ at hp ⊢
  generalize (applyAndPage c s code wall now later).2.1 = pg at hp ⊢
  cases hp with
  | ackedDown => exact ⟨h1.mark (ha.lastcheck_ne_zero rfl) now, by simp⟩
  | sendDown => exact ⟨h1, fun _ => ha.lastcheck_ne_zero rfl⟩
  | markUp => exact ⟨h1.mark (ha.lastcheck_ne_zero rfl) now, by simp⟩
  | postpone => exact ⟨h1.congr rfl rfl rfl, by simp⟩
  | _ => exact ⟨h1, by simp⟩

theorem HealthInv.step {c : PagingCfg} {v v' : NodeView} {o : List NodeEvent} (h : HealthInv v)
    (hs : NodeStep c v o v') : HealthInv v' := by
  cases hs with
  | quiet => exact ⟨h.ok.congr rfl rfl rfl, h.first⟩
  | ack => exact ⟨h.ok.congr rfl rfl rfl, h.first⟩
  | dispatch => exact ⟨h.ok, by simp⟩
  | drop => exact ⟨h.ok.congr rfl rfl rfl, by simp⟩
  | check _ code wall now later =>
    obtain ⟨h1, h2⟩ := HealthInv.check (c := c) h.ok code wall now later
    refine ⟨h1, fun ch hp => ?_⟩
    obtain ⟨p, hp, hph⟩ := Option.map_eq_some_iff.mp hp
    obtain ⟨rfl, -⟩ := Phase.sending.inj hph
    exact h2 hp
  | @sent p ch htask out ended now =>
    refine ⟨?_, by simp⟩
    cases p with
    | first =>
      cases out with
      | delivered => exact h.ok.mark (h.first ch htask) now
      | _ => exact h.ok
    | repage => cases out <;> exact h.ok.congr rfl rfl rfl
    | recovery => cases out <;> exact h.ok

theorem HealthInv.run {c : PagingCfg} {v v' : NodeView} {tr : List NodeEvent} (h : HealthInv v)
    (hr : NodeRun c v tr v') : HealthInv v' :=
  hr.inv (fun v _ => HealthInv v) h fun _ _ _ _ hI hs => hI.step hs

/-! ## The whole scheduler -/

/-- Every existing object is healthy. -/
structure SchedHealth (S : Sched) : Prop where
  queue : QueueInv S []
  health : ∀ r < S.fresh, HealthInv (S.view r)

/-- A new object has no task yet. -/
theorem phaseOf_new {S : Sched} (hq : QueueInv S []) {r : ℕ} (hr : S.fresh ≤ r) : Sched.phaseOf S.tasks r = none := by
  refine Sched.phaseOf_eq_none (List.countP_eq_zero.mpr fun t ht => ?_)
  have := hq.task_lt t ht
  simp only [decide_eq_true_eq]
  omega

theorem healthy_newScheduled {settings : Settings} {F : Forest} {base : ℕ} {wall : ℕ → ℚ} {now : ℚ} {stagger : Bool}
    {o : Scheduled} (ho : o ∈ Sched.newScheduled settings F base wall now stagger) : Healthy o.state := by
  obtain ⟨-, -, -, n, w, hst, -⟩ := Sched.mem_newScheduled ho
  rw [hst]
  exact .fresh _ _

/-- The merge of `reload` copies a healthy state. -/
theorem healthy_carry {S : Sched} {o : Scheduled} (ho : Healthy o.state)
    (hold : ∀ r ∈ S.scheduled, Healthy (S.objs r).state) : Healthy (S.carry o).state := by
  unfold Sched.carry
  split
  · exact ho
  · rename_i r hr
    exact (hold r (List.mem_of_mem_filter (List.mem_of_getLast? hr))).congr rfl rfl rfl

theorem SchedHealth.init (settings : Settings) (F : Forest) (wall : ℕ → ℚ) (now : ℚ) (stagger : Bool) :
    SchedHealth (Sched.init settings F wall now stagger) := by
  have hq := QueueInv.init settings F wall now stagger
  refine ⟨hq, fun r hr => ?_⟩
  have hmem : r ∈ (Sched.init settings F wall now stagger).scheduled := by
    unfold Sched.init at hr ⊢
    obtain ⟨h, n, hS⟩ := Sched.install_frame _ (Sched.newScheduled settings F 0 wall now stagger)
    rw [hS] at hr ⊢
    exact (Sched.mem_newRefs _ _).mpr ⟨Nat.zero_le _, hr⟩
  obtain ⟨-, htask, -, -, w, hst⟩ := view_init hmem
  exact ⟨hst ▸ .fresh _ w, fun ch hc => by rw [htask] at hc; exact absurd hc (by simp)⟩

theorem SchedHealth.step {S S' : Sched} {a : Label} {o : List Event} (h : SchedHealth S)
    (hs : S.step a = some (S', o)) : SchedHealth S' := by
  refine ⟨h.queue.step hs, fun r hr => ?_⟩
  by_cases hlt : r < S.fresh
  · exact (h.health r hlt).run (project_step h.queue hs hlt)
  -- a new object: only a reload creates one
  cases Sched.stepped hs with
  | @reload F wall now hn =>
    obtain ⟨ht, -, hf, hsched, hobjs⟩ := S.reload_frame F wall now
    have hnew : r ∈ S.newRefs (S.reloaded F wall now) := (S.mem_newRefs _).mpr ⟨by omega, hf ▸ hr⟩
    obtain ⟨o, ho, heq⟩ := S.allocate_new _ hnew
    obtain ⟨o', ho', rfl⟩ := List.mem_map.mp ho
    refine ⟨?_, fun ch hc => ?_⟩
    · show Healthy ((S.reload F wall now).objs r).state
      rw [hobjs, heq]
      exact healthy_carry (healthy_newScheduled ho') fun q hq => (h.health q (h.queue.sched_lt q hq)).ok
    · have hnone : Sched.phaseOf (S.reload F wall now).tasks r = none := by
        rw [ht]
        exact phaseOf_new h.queue (by omega)
      have hc : Sched.phaseOf (S.reload F wall now).tasks r = some (.sending .first ch) := hc
      rw [hnone] at hc
      exact absurd hc (by simp)
  | _ => exact absurd (((Sched.stepped hs).kept rfl).fresh ▸ hr) hlt

/-! ## Restarts -/

/-- Reachable schedulers: construction, the segments, and an import of the records that a reachable scheduler exports,
in states where `mayImport` holds. -/
inductive Reachable (mayImport : Sched → Prop) : Sched → Prop
  | init (settings : Settings) (F : Forest) (wall : ℕ → ℚ) (now : ℚ) (stagger : Bool) :
    Reachable mayImport (Sched.init settings F wall now stagger)
  | step {S S' : Sched} {a : Label} {o : List Event} (h : Reachable mayImport S) (hs : S.step a = some (S', o)) :
    Reachable mayImport S'
  | restore {S T : Sched} {now : ℚ} (h : Reachable mayImport S) (hT : Reachable mayImport T) (hm : mayImport S)
      (hn : S.mono ≤ now) :
    Reachable mayImport { (S.importState T.exportState now).sched with mono := now }

/-- No first `DOWN` page is being sent. -/
def Sched.NoPendingPage (S : Sched) : Prop := ∀ r ch, (r, Phase.sending .first ch) ∉ S.tasks

/-- An exported record restores a healthy state. -/
theorem healthy_restore {T : Sched} (hT : SchedHealth T) {rec : Record} (hrec : rec ∈ T.exportState) {c : Carried}
    (hc : validatedCarry rec = .ok c) (now : ℚ) (s : NodeState) : Healthy (restoreState c now s) := by
  obtain ⟨q, hq, rfl⟩ := List.mem_map.mp hrec
  rw [Sched.validatedCarry_exportRecord] at hc
  obtain rfl := Except.ok.inj hc
  exact (hT.health q (hT.queue.sched_lt q hq)).ok.congr rfl rfl rfl

theorem SchedHealth.restore {S T : Sched} (h : SchedHealth S) (hT : SchedHealth T) (hm : S.NoPendingPage) (now : ℚ) :
    SchedHealth { (S.importState T.exportState now).sched with mono := now } := by
  have hinv := Sched.importState_ind
    (fun U => QueueInv U [] ∧ U.tasks = S.tasks ∧ U.fresh = S.fresh ∧ ∀ r < S.fresh, Healthy (U.objs r).state)
    T.exportState now ?_ ⟨h.queue, rfl, rfl, fun r hr => (h.health r hr).ok⟩
  · obtain ⟨h1, h2, h3, h4⟩ := hinv
    refine ⟨h1.congr rfl rfl rfl rfl rfl (fun _ => rfl) (fun _ _ => rfl), fun r hr => ⟨h4 r (h3 ▸ hr), fun ch hc => ?_⟩⟩
    have hc : Sched.phaseOf (S.importState T.exportState now).sched.tasks r = some (.sending .first ch) := hc
    rw [h2] at hc
    exact absurd (Sched.phaseOf_mem hc) (hm r ch)
  · rintro U rec c q hrec hc hq ⟨h1, h2, h3, h4⟩
    refine ⟨h1.modifyState q _, h2, h3, fun r hr => ?_⟩
    by_cases hrq : r = q
    · subst hrq
      simpa [Sched.modifyState] using healthy_restore hT hrec hc now _
    · rw [Sched.modifyState, Sched.modify_objs_of_ne _ _ _ hrq]
      exact h4 r hr

theorem Reachable.schedHealth {S : Sched} (h : Reachable Sched.NoPendingPage S) : SchedHealth S := by
  induction h with
  | init settings F wall now stagger => exact .init settings F wall now stagger
  | step _ hs ih => exact ih.step hs
  | restore _ _ hm _ ih ihT => exact ih.restore ihT hm _

/-- **The counters never contradict `lastcheck`.** -/
theorem healthy_of_reachable (S : Sched) (h : Reachable Sched.NoPendingPage S) (r : ℕ) (hr : r ∈ S.scheduled) :
    ((S.objs r).state.lastcheck = Status.ok.code → (S.objs r).state.downct = 0 ∧ (S.objs r).state.contacted = false) ∧
    0 ≤ (S.objs r).state.downct ∧
    ((S.objs r).state.contacted = true → (S.objs r).state.lastcheck ≠ Status.ok.code) := by
  have hh := (h.schedHealth.health r (h.schedHealth.queue.sched_lt r hr)).ok
  refine ⟨hh.up, hh.nonneg, fun hc h0 => ?_⟩
  have := (hh.up h0).2
  rw [show (S.view r).st.contacted = (S.objs r).state.contacted from rfl, hc] at this
  exact absurd this (by simp)

theorem Reachable.exec {mayImport : Sched → Prop} {S S' : Sched} {as : List Label} {tr : List Event}
    (h : Reachable mayImport S) (he : Lib.exec Sched.step S as = some (S', tr)) : Reachable mayImport S' :=
  exec_inv_state (P := fun _ _ => True) (Reachable mayImport) (fun _ _ _ _ h _ hs => h.step hs) h
    (along_of_forall as _ fun _ _ _ => trivial) he

/-- Two failures of the router, its first page being sent. -/
def pageRun : List Label := [.tick 0, .finish 0 (some 1) 0 1 1, .tick 30, .finish 0 (some 1) 0 31 31]

/-- A restart of a paged router: the restored node is contacted, and not up. -/
theorem healthy_of_reachable_restart : ∃ S, Reachable Sched.NoPendingPage S ∧ 0 ∈ S.scheduled ∧
    (S.objs 0).state.contacted = true ∧ (S.objs 0).state.lastcheck ≠ Status.ok.code := by
  have hrun : (exec Sched.step (Sched.init {} gatewayForest (fun _ => 0) 0 true)
      (pageRun ++ [.sent 0 .first true .delivered 33 34])).map (fun q =>
        (((Sched.init {} gatewayForest (fun _ => 9) 5 true).importState q.1.exportState 6).sched.scheduled,
          (((Sched.init {} gatewayForest (fun _ => 9) 5 true).importState q.1.exportState 6).sched.objs 0).state.contacted)) =
      some ([0, 1], true) := by
    decide +kernel
  obtain ⟨⟨T, tr⟩, he, hq⟩ := Option.map_eq_some_iff.mp hrun
  simp only [Prod.mk.injEq] at hq
  obtain ⟨hsched, hcon⟩ := hq
  have hT : Reachable Sched.NoPendingPage T := (Reachable.init {} gatewayForest (fun _ => 0) 0 true).exec he
  have hidle : (Sched.init {} gatewayForest (fun _ => 9) 5 true).tasks = [] := by decide +kernel
  have hS := Reachable.restore (Reachable.init {} gatewayForest (fun _ => 9) 5 true) hT
    (fun r ch => by rw [hidle]; simp) (show _ ≤ (6 : ℚ) by decide +kernel)
  have hmem : 0 ∈ ((Sched.init {} gatewayForest (fun _ => 9) 5 true).importState T.exportState 6).sched.scheduled := by
    rw [hsched]
    decide
  exact ⟨_, hS, hmem, hcon, (healthy_of_reachable _ hS 0 hmem).2.2 hcon⟩

/-- **An import over a page that is being sent**: the record says up, the delivery then marks the node contacted. -/
theorem import_over_pending_page : ∃ S, Reachable (fun _ => True) S ∧ 0 ∈ S.scheduled ∧
    (S.objs 0).state.lastcheck = Status.ok.code ∧ (S.objs 0).state.contacted = true := by
  have hrun : (exec Sched.step (Sched.init {} gatewayForest (fun _ => 0) 0 true) pageRun).map (fun q =>
      (decide (q.1.mono ≤ 32),
        (Sched.step { (q.1.importState (Sched.init {} gatewayForest (fun _ => 9) 5 true).exportState 32).sched with
          mono := 32 } (.sent 0 .first true .delivered 33 34)).map fun q =>
          (q.1.scheduled, (q.1.objs 0).state.lastcheck, (q.1.objs 0).state.contacted))) =
      some (true, some ([0, 1], 0, true)) := by
    decide +kernel
  obtain ⟨⟨S, tr⟩, he, hq⟩ := Option.map_eq_some_iff.mp hrun
  simp only [Prod.mk.injEq] at hq
  obtain ⟨hmono, hstep⟩ := hq
  obtain ⟨⟨S', o⟩, hs, hq⟩ := Option.map_eq_some_iff.mp hstep
  simp only [Prod.mk.injEq] at hq
  obtain ⟨hsched, hlast, hcon⟩ := hq
  have hS : Reachable (fun _ => True) S := (Reachable.init {} gatewayForest (fun _ => 0) 0 true).exec he
  have hR := Reachable.restore hS (Reachable.init {} gatewayForest (fun _ => 9) 5 true) trivial
    (show S.mono ≤ 32 by simpa using hmono)
  exact ⟨S', hR.step hs, by rw [hsched]; decide, hlast, hcon⟩

end Psysmon
