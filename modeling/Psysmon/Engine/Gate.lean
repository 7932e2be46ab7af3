import Psysmon.Engine.Pages

/-!
# Psysmon.Engine.Gate — a result counts only while the gate is open

`Live S r` says what eligibility is for: `r` is a root, or some chain of gate edges leads from it to a root through
parents that are each checked and up or degraded.

* `eligible_iff_live`: the search of `_reachable` decides it, cycles in the gate graph included.
* `reachable_iff_path`: the loop of `_reachable` ends on every gate graph, and what it answers is a path.
* `gated_results`: a result is applied to a node, or a page for it started, only while the node is alive and `Live`,
  before the write and after it; over any stretch in which it never is, its outage data are frozen.
-/

namespace Psysmon

open Lib

/-- A live path to a root. -/
inductive Live (S : Sched) : ℕ → Prop
  | root {r : ℕ} (h : (S.objs r).gate = []) : Live S r
  | via {r p : ℕ} (hp : p ∈ (S.objs r).gate) (hu : S.usable p = true) (h : Live S p) : Live S r

/-! ### The search decides it -/

/-- Gate edges lead to existing objects. -/
def GateInv (S : Sched) : Prop := ∀ r, ∀ p ∈ (S.objs r).gate, p < S.fresh

theorem live_of_reaches {S : Sched} {p q : ℕ} (h : Reaches S.hops p q) (hq : S.liveRoot q = true) :
    S.usable p = true ∧ Live S p := by
  induction h using Relation.ReflTransGen.head_induction_on with
  | refl =>
    simp only [Sched.liveRoot, Bool.and_eq_true, List.isEmpty_iff] at hq
    exact ⟨hq.1, .root hq.2⟩
  | head hstep _ ih =>
    unfold Sched.hops at hstep
    split at hstep
    · rename_i hu
      exact ⟨hu, .via hstep ih.1 ih.2⟩
    · simp at hstep

/-- **Soundness**: an eligible node has a live path. -/
theorem live_of_eligible {S : Sched} {r : ℕ} (h : S.eligible r = true) : Live S r := by
  unfold Sched.eligible at h
  rcases Bool.or_eq_true_iff.mp h with h | h
  · exact .root (List.isEmpty_iff.mp h)
  · obtain ⟨p, hp, q, hpq, hq⟩ := search_sound h
    obtain ⟨hu, hl⟩ := live_of_reaches hpq hq
    exact .via (List.mem_reverse.mp hp) hu hl

theorem reaches_of_live {S : Sched} {p : ℕ} (hu : S.usable p = true) (h : Live S p) :
    ∃ q, Reaches S.hops p q ∧ S.liveRoot q = true := by
  induction h with
  | @root r h => exact ⟨r, .refl, by simp [Sched.liveRoot, hu, h]⟩
  | @via r p hp hup _ ih =>
    obtain ⟨q, hq, hroot⟩ := ih hup
    exact ⟨q, .head (by simpa [Sched.hops, hu] using hp) hq, hroot⟩

theorem searchFuel_le_gateFuel (S : Sched) (r : ℕ) :
    searchFuel S.hops (Finset.range S.fresh) (S.objs r).gate.reverse [] ≤ S.gateFuel r := by
  have hsum : ∑ u ∈ Finset.range S.fresh, (S.hops u).length ≤
      ((List.range S.fresh).map fun p => (S.objs p).gate.length).sum := by
    refine Finset.sum_le_sum (g := fun p => (S.objs p).gate.length) fun u _ => ?_
    unfold Sched.hops
    split
    · exact le_rfl
    · exact Nat.zero_le _
  simp only [searchFuel, Sched.gateFuel, List.length_reverse, List.toFinset_nil, Finset.sdiff_empty]
  omega

/-- **`_eligible` is liveness**, on any gate graph without dangling edges. -/
theorem eligible_iff_live {S : Sched} (hg : GateInv S) (r : ℕ) : S.eligible r = true ↔ Live S r := by
  refine ⟨live_of_eligible, fun h => ?_⟩
  unfold Sched.eligible
  cases h with
  | root h => simp [h]
  | @via _ p hp hu h =>
    refine Bool.or_eq_true_iff.mpr (Or.inr ?_)
    obtain ⟨q, hpq, hq⟩ := reaches_of_live hu h
    refine (search_complete (U := Finset.range S.fresh) ?_ ?_ (searchFuel_le_gateFuel S r)).mpr
      ⟨p, List.mem_reverse.mpr hp, q, hpq, hq⟩
    · intro u _ v hv
      unfold Sched.hops at hv
      split at hv
      · exact Finset.mem_range.mpr (hg u v hv)
      · simp at hv
    · exact fun p hp => Finset.mem_range.mpr (hg r p (List.mem_reverse.mp hp))

/-- `_reachable` returns `b`; its loop has no bound here. -/
def Sched.ReachableReturns (S : Sched) (r : ℕ) (b : Bool) : Prop :=
  if (S.objs r).gate = [] then b = true else Searched S.hops S.liveRoot (S.objs r).gate.reverse [] b

/-- A gate edge to a parent that is checked and up or degraded. -/
def Sched.UsableEdge (S : Sched) (r p : ℕ) : Prop :=
  p ∈ (S.objs r).gate ∧ (S.objs p).checked = true ∧
    ((S.objs p).state.lastcheck = Status.ok.code ∨ (S.objs p).state.lastcheck = Status.degraded.code)

theorem usableEdge_iff {S : Sched} {r p : ℕ} : S.UsableEdge r p ↔ p ∈ (S.objs r).gate ∧ S.usable p = true := by
  simp [Sched.UsableEdge, Sched.usable, isReachable]

theorem live_iff_path {S : Sched} {r : ℕ} :
    Live S r ↔ (S.objs r).gate = [] ∨ ∃ q, Relation.TransGen S.UsableEdge r q ∧ (S.objs q).gate = [] := by
  constructor
  · intro h
    induction h with
    | root h => exact .inl h
    | @via r p hp hu _ ih =>
      have hedge : S.UsableEdge r p := usableEdge_iff.mpr ⟨hp, hu⟩
      rcases ih with hroot | ⟨q, hpq, hq⟩
      · exact .inr ⟨p, .single hedge, hroot⟩
      · exact .inr ⟨q, .head hedge hpq, hq⟩
  · rintro (h | ⟨q, hrq, hq⟩)
    · exact .root h
    · induction hrq using Relation.TransGen.head_induction_on with
      | single hedge =>
        obtain ⟨hp, hu⟩ := usableEdge_iff.mp hedge
        exact .via hp hu (.root hq)
      | head hedge _ ih =>
        obtain ⟨hp, hu⟩ := usableEdge_iff.mp hedge
        exact .via hp hu ih

theorem searched_eligible {S : Sched} (hg : GateInv S) (r : ℕ) : S.ReachableReturns r (S.eligible r) := by
  unfold Sched.ReachableReturns Sched.eligible
  split
  · rename_i h
    rw [h]
    rfl
  · rename_i h
    rw [List.isEmpty_eq_false_iff.mpr h, Bool.false_or]
    refine searched_search (U := Finset.range S.fresh) ?_ _ _ _ ?_ (searchFuel_le_gateFuel S r)
    · intro u _ v hv
      unfold Sched.hops at hv
      split at hv
      · exact Finset.mem_range.mpr (hg u v hv)
      · simp at hv
    · exact fun p hp => Finset.mem_range.mpr (hg r p (List.mem_reverse.mp hp))

/-- **`_reachable`**: on every finite gate graph the search ends, and it answers `True` if and only if the node has no
gate, or gate edges lead from it to a node without one through nodes that are all checked and up or degraded. -/
theorem reachable_iff_path {S : Sched} (hg : GateInv S) (r : ℕ) : ∃ b, S.ReachableReturns r b ∧
    (b = true ↔ (S.objs r).gate = [] ∨ ∃ q, Relation.TransGen S.UsableEdge r q ∧ (S.objs q).gate = []) :=
  ⟨S.eligible r, searched_eligible hg r, (eligible_iff_live hg r).trans live_iff_path⟩

/-- Two nodes that gate each other, and one of them a root as well: the third node is reachable around the cycle. -/
theorem reachable_around_cycle :
    let o (gate : List ℕ) (checked : Bool) : Scheduled :=
      { mkScheduled {} { hostname := "gw".toList, checkType := .ping } gate 0 with checked }
    let S : Sched := { Sched.init {} ⟨[], [], by simp, by simp⟩ (fun _ => 0) 0 true with
      objs := fun r =>
        if r = 0 then o [1] false else if r = 1 then o [2, 3] true else if r = 2 then o [1] true else o [] true
      fresh := 4 }
    GateInv S ∧ ∃ b, S.ReachableReturns 0 b ∧
      (b = true ↔ (S.objs 0).gate = [] ∨ ∃ q, Relation.TransGen S.UsableEdge 0 q ∧ (S.objs q).gate = []) := by
  intro o S
  have hg : GateInv S := by
    intro r p hp
    have : (S.objs r).gate = if r = 0 then [1] else if r = 1 then [2, 3] else if r = 2 then [1] else [] := by
      dsimp only [S]
      split_ifs <;> rfl
    rw [this] at hp
    change p < 4
    split_ifs at hp <;> simp at hp <;> omega
  exact ⟨hg, reachable_iff_path hg 0⟩

/-! ### Reachable states have no dangling gate edge -/

theorem GateInv.install {S : Sched} (h : GateInv S) {news : List Scheduled}
    (hnew : ∀ o ∈ news, ∀ p ∈ o.gate, p < S.fresh + news.length) : GateInv (S.install news) := by
  obtain ⟨hp, n, hS⟩ := S.install_frame news
  rw [hS]
  intro r p hp
  have hp : p ∈ (S.allocate news r).gate := hp
  show p < S.fresh + news.length
  by_cases hlt : r < S.fresh
  · rw [S.allocate_old news hlt] at hp
    have := h r p hp
    omega
  · by_cases hq : r < S.fresh + news.length
    · obtain ⟨o, ho, heq⟩ := S.allocate_new news ((S.mem_newRefs news).mpr ⟨by omega, hq⟩)
      exact hnew o ho p (heq ▸ hp)
    · rw [S.allocate_beyond news (by omega)] at hp
      have := h r p hp
      omega

/-- The gate edges of new objects stay among them. -/
theorem gate_newScheduled {settings : Settings} {F : Forest} {base : ℕ} {wall : ℕ → ℚ} {now : ℚ} {stagger : Bool}
    {o : Scheduled} (ho : o ∈ Sched.newScheduled settings F base wall now stagger) {p : ℕ} (hp : p ∈ o.gate) :
    p < base + (Sched.newScheduled settings F base wall now stagger).length := by
  obtain ⟨i, hi, rfl⟩ := List.mem_iff_getElem.mp ho
  simp only [Sched.newScheduled, List.getElem_mapIdx, mkScheduled, List.mem_map] at hp
  obtain ⟨q, hq, rfl⟩ := hp
  have := flatten_gate_lt F (List.getElem_mem (by simpa [Sched.newScheduled] using hi)) hq
  simp only [Sched.newScheduled, List.length_mapIdx]
  omega

theorem GateInv.init (settings : Settings) (F : Forest) (wall : ℕ → ℚ) (now : ℚ) (stagger : Bool) :
    GateInv (Sched.init settings F wall now stagger) := by
  refine GateInv.install (fun r p hp => by simp at hp) fun o ho p hp => ?_
  exact gate_newScheduled ho hp

theorem GateInv.reload {S : Sched} (h : GateInv S) (F : Forest) (wall : ℕ → ℚ) (now : ℚ) :
    GateInv (S.reload F wall now) := by
  refine GateInv.install h fun o ho p hp => ?_
  obtain ⟨o', ho', rfl⟩ := List.mem_map.mp ho
  rw [List.length_map]
  refine gate_newScheduled ho' ?_
  unfold Sched.carry at hp
  split at hp <;> exact hp

theorem GateInv.step {S S' : Sched} {a : Label} {o : List Event} (h : GateInv S) (hs : S.step a = some (S', o)) :
    GateInv S' := by
  by_cases ha : a.isReload = true
  · cases Sched.stepped hs with
    | @reload F wall now _ => exact h.reload F wall now
    | _ => simp [Label.isReload] at ha
  · have hk := (Sched.stepped hs).kept (by simpa using ha)
    intro r p hp
    rw [hk.gate] at hp
    rw [hk.fresh]
    exact h r p hp

/-- In every reachable state `_eligible` decides whether there is a live path. -/
theorem eligible_iff_live_exec {settings : Settings} {F : Forest} {wall : ℕ → ℚ} {now : ℚ} {stagger : Bool}
    {as : List Label} {S : Sched} {tr : List Event}
    (he : exec Sched.step (Sched.init settings F wall now stagger) as = some (S, tr)) (r : ℕ) :
    S.eligible r = true ↔ Live S r :=
  eligible_iff_live (exec_inv_state (P := fun _ _ => True) GateInv (fun _ _ _ _ h _ hs => h.step hs)
    (GateInv.init settings F wall now stagger) (along_of_forall as _ fun _ _ _ => trivial) he) r

/-! ### Freezing -/

/-- A write to `r` alone leaves `r` live: a live path through `r` itself can be cut short. -/
theorem Live.of_write {S S' : Sched} {r : ℕ} (hgate : ∀ q, (S'.objs q).gate = (S.objs q).gate)
    (huse : ∀ q, q ≠ r → S'.usable q = S.usable q) (h : Live S r) : Live S' r := by
  suffices hgen : ∀ x, Live S x → Live S' x ∨ Live S' r from (hgen r h).elim id id
  intro x hx
  induction hx with
  | root h => exact Or.inl (.root (by rw [hgate, h]))
  | @via x p hp hu _ ih =>
    rcases ih with ih | ih
    · by_cases hpr : p = r
      · exact Or.inr (hpr ▸ ih)
      · exact Or.inl (.via (by rw [hgate]; exact hp) (by rw [huse p hpr]; exact hu) ih)
    · exact Or.inr ih

/-- The outage data of a node. -/
def NodeState.outage (s : NodeState) : ℤ × ℤ × Number.PyFloat × Number.PyFloat := (s.lastcheck, s.downct, s.deathtime, s.lastUp)

def NodeEvent.isApplied : NodeEvent → Bool
  | .applied _ _ _ _ => true
  | _ => false

def NodeEvent.isSendStart : NodeEvent → Bool
  | .sendStart _ _ => true
  | _ => false

/-- Only an applied result touches the outage data. -/
theorem NodeRun.outage_eq {c : PagingCfg} {v₀ v : NodeView} {tr : List NodeEvent} (h : NodeRun c v₀ tr v) :
    (∀ ev ∈ tr, ev.isApplied = false) → v.st.outage = v₀.st.outage := by
  induction h with
  | start => exact fun _ => rfl
  | @step tr o v v' _ hs ih =>
    intro hno
    refine Eq.trans ?_ (ih fun ev hev => hno ev (List.mem_append_left _ hev))
    cases hs with
    | check _ code wall now later =>
      obtain ⟨s₁, i, -, -, hev⟩ := applyAndPage_spec c v.st code wall now later
      have := hno _ (List.mem_append_right _ (hev ▸ List.mem_cons_self))
      simp [NodeEvent.isApplied] at this
    | @sent p ch _ out =>
      cases p <;> cases out <;> rfl
    | _ => rfl

/-- **A result counts only while the gate is open.** -/
theorem gated_results (settings : Settings) (F : Forest) (wall : ℕ → ℚ) (now : ℚ) (stagger : Bool) (as : List Label)
    (S : Sched) (tr : List Event)
    (he : exec Sched.step (Sched.init settings F wall now stagger) as = some (S, tr)) (r : ℕ) (hr : r ∈ S.scheduled) :
    -- a segment that applies a result to `r` or starts a page for it
    (∀ a S' o, S.step a = some (S', o) →
      (∃ ev ∈ eventsOf r o, ev.isApplied = true ∨ ev.isSendStart = true) →
      (S.objs r).alive = true ∧ Live S r ∧ (S'.objs r).alive = true ∧ Live S' r) ∧
    -- a stretch in which `r` is never eligible
    (∀ bs S' tr', exec Sched.step S bs = some (S', tr') → Along Sched.step (fun T _ => ¬ Live T r) S bs →
      (S'.objs r).state.outage = (S.objs r).state.outage ∧ ∀ ev ∈ eventsOf r tr', ev.isSendStart = false) := by
  have hq := QueueInv.exec he
  constructor
  · rintro a S' o hs ⟨ev, hev, hkind⟩
    rcases step_events hs r with h | ⟨p, ok, e, h⟩ | ⟨code, w, n, l, halive, helig, -, -, -, hother⟩
    · simp [h] at hev
    · obtain rfl : ev = .sendEnd p ok e := by simpa [h] using hev
      simp [NodeEvent.isApplied, NodeEvent.isSendStart] at hkind
    · have hlive := live_of_eligible helig
      have ha : a.isReload = false := by
        cases Sched.stepped hs with
        | reload => simp [eventsOf] at hev
        | _ => rfl
      have hk := (Sched.stepped hs).kept ha
      refine ⟨halive, hlive, by rw [hk.alive]; exact halive, hlive.of_write hk.gate fun q hq => ?_⟩
      unfold Sched.usable
      rw [hother q hq]
  · intro bs S' tr' hrun hcold
    have hinv := exec_inv (P := fun T _ => ¬ Live T r)
      (fun T t => QueueInv T [] ∧ r < T.fresh ∧ (T.objs r).state.outage = (S.objs r).state.outage ∧
        ∀ ev ∈ eventsOf r t, ev.isSendStart = false) ?_ ⟨hq, hq.sched_lt r hr, rfl, by simp [eventsOf]⟩ hcold hrun
    · exact ⟨hinv.2.2.1, hinv.2.2.2⟩
    rintro T t a T' o ⟨h1, h2, h3, h4⟩ hdead hs
    have hquiet : ∀ ev ∈ eventsOf r o, ev.isApplied = false ∧ ev.isSendStart = false := by
      rcases step_events hs r with h | ⟨p, ok, e, h⟩ | ⟨code, w, n, l, -, helig, -⟩
      · simp [h]
      · simp [h, NodeEvent.isApplied, NodeEvent.isSendStart]
      · exact absurd (live_of_eligible helig) hdead
    refine ⟨h1.step hs, (node_step hs h2).1, ?_, ?_⟩
    · rw [← h3]
      exact (project_step h1 hs h2).outage_eq fun ev hev => (hquiet ev hev).1
    · rw [eventsOf_append]
      intro ev hev
      rcases List.mem_append.mp hev with hev | hev
      · exact h4 ev hev
      · exact (hquiet ev hev).2

/-- The web server is checked behind its router, and then frozen while the router is down. -/
theorem gated_results_behind_gateway : ∃ S tr S' tr',
    exec Sched.step (Sched.init {} gatewayForest (fun _ => 0) 0 false)
      [.tick 0, .finish 0 (some 0) 0 1 1, .tick 30, .finish 1 (some 0) 0 31 31, .finish 0 (some 1) 0 32 32] =
        some (S, tr) ∧
    exec Sched.step S [.tick 70] = some (S', tr') ∧ ¬ Live S 1 ∧
    (S'.objs 1).state.outage = (S.objs 1).state.outage ∧ ∀ ev ∈ eventsOf 1 tr', ev.isSendStart = false := by
  have hrun : ((exec Sched.step (Sched.init {} gatewayForest (fun _ => 0) 0 false)
      [.tick 0, .finish 0 (some 0) 0 1 1, .tick 30, .finish 1 (some 0) 0 31 31, .finish 0 (some 1) 0 32 32]).map
      fun q => (q.1.scheduled, q.1.eligible 1, (exec Sched.step q.1 [.tick 70]).isSome)) = some ([0, 1], false, true) := by
    decide +kernel
  obtain ⟨⟨S, tr⟩, he, hq⟩ := Option.map_eq_some_iff.mp hrun
  simp only [Prod.mk.injEq] at hq
  obtain ⟨hsched, helig, hmore⟩ := hq
  obtain ⟨⟨S', tr'⟩, he'⟩ := Option.isSome_iff_exists.mp hmore
  have hdead : ¬ Live S 1 := fun hl => by
    rw [← eligible_iff_live_exec he 1, helig] at hl
    exact absurd hl (by simp)
  have h := (gated_results {} gatewayForest (fun _ => 0) 0 false _ S tr he 1 (by rw [hsched]; decide)).2 [.tick 70] S' tr'
    he' ⟨hdead, fun _ _ => trivial⟩
  exact ⟨S, tr, S', tr', he, he', hdead, h⟩

end Psysmon
