import Psysmon.Engine.Due

/-!
# Psysmon.Engine.RunLoop — the loop around `tick` (`run`, `stop`, `drain`)

`run` clears the stop event and then alternates between a pass of `tick` and a wait for the event, which times out after
`_next_delay`.  When the event is set it leaves the loop and gathers the tasks that are pending.  Between two segments
of the loop the other tasks of the event loop run: `RunLabel.segment` is any segment of the scheduler but `tick`.

* `dispatch_rate`: a node is never dispatched twice within its interval.
* `taken_up_within`: a waiting node is taken up soon after it is due, if the event loop keeps up.
* `stop_drains`: after a stop the pending checks end and no others begin.
-/

namespace Psysmon

open Lib

/-- Where `run` is. -/
inductive RunPhase
  | idle
  /-- In `wait_for`, which times out at `wake`. -/
  | sleeping (wake : ℚ)
  /-- In `drain`, with the tasks that it gathers. -/
  | draining (gathered : List ℕ)
  | done

/-- The scheduler, its loop and the stop event. -/
structure RunLoop where
  sched : Sched
  phase : RunPhase
  stop : Bool

/-- A pass of `tick`: the nodes whose entries it pops, and those of them for which it creates a task. -/
structure Pass where
  now : ℚ
  taken : List ℕ
  dispatched : List ℕ

inductive RunLabel
  /-- The first segment of `run`, up to its first wait. -/
  | start (now later : ℚ)
  /-- The wait times out at the time `now`. -/
  | wake (now later : ℚ)
  /-- `stop`. -/
  | stop
  /-- The wait ends because the event is set. -/
  | leave
  | drained
  | segment (a : Label)

namespace RunLoop

/-- `tick` at the time `now`, and the wait that begins at the time `later`. -/
def pass (L : RunLoop) (now later : ℚ) : RunLoop × List Pass :=
  let S := L.sched.tick now
  ({ L with sched := { S with mono := later }, phase := .sleeping (later + S.nextDelay later) },
    [⟨now, (L.sched.due now).map Entry.sched, (S.tasks.drop L.sched.tasks.length).map Prod.fst⟩])

def step (L : RunLoop) : RunLabel → Option (RunLoop × List Pass)
  | .start now later =>
    match L.phase with
    | .idle => if L.sched.mono ≤ now ∧ now ≤ later then some ({ L with stop := false }.pass now later) else none
    | _ => none
  | .wake now later =>
    match L.phase with
    | .sleeping w =>
      if L.stop = false ∧ w ≤ now ∧ L.sched.mono ≤ now ∧ now ≤ later then some (L.pass now later) else none
    | _ => none
  | .stop => some ({ L with stop := true }, [])
  | .leave =>
    match L.phase with
    | .sleeping _ =>
      if L.stop then some ({ L with phase := .draining (L.sched.tasks.map Prod.fst) }, []) else none
    | _ => none
  | .drained =>
    match L.phase with
    | .draining gathered =>
      if gathered.all fun r => L.sched.taskCount r = 0 then some ({ L with phase := .done }, []) else none
    | _ => none
  | .segment a => if a.isTick then none else (L.sched.step a).map fun q => ({ L with sched := q.1 }, [])

/-! ### What one step can do -/

inductive Moved (L : RunLoop) : RunLabel → RunLoop → List Pass → Prop
  | start {now later : ℚ} (hp : L.phase = .idle) (hn : L.sched.mono ≤ now) (hl : now ≤ later) :
    Moved L (.start now later) ({ L with stop := false }.pass now later).1 (L.pass now later).2
  | wake {w now later : ℚ} (hp : L.phase = .sleeping w) (hw : w ≤ now) (hn : L.sched.mono ≤ now) (hl : now ≤ later) :
    Moved L (.wake now later) (L.pass now later).1 (L.pass now later).2
  | stop : Moved L .stop { L with stop := true } []
  | leave {w : ℚ} (hp : L.phase = .sleeping w) (hs : L.stop = true) :
    Moved L .leave { L with phase := .draining (L.sched.tasks.map Prod.fst) } []
  | drained {gathered : List ℕ} (hp : L.phase = .draining gathered) (hg : ∀ r ∈ gathered, L.sched.taskCount r = 0) :
    Moved L .drained { L with phase := .done } []
  | segment {a : Label} {S' : Sched} {o : List Event} (ha : a.isTick = false) (hs : L.sched.step a = some (S', o)) :
    Moved L (.segment a) { L with sched := S' } []

variable {L L' : RunLoop} {a : RunLabel} {tr : List Pass}

theorem moved (hs : L.step a = some (L', tr)) : Moved L a L' tr := by
  cases a with
  | start now later =>
    simp only [step] at hs
    split at hs
    · rename_i hp
      simp only [Option.ite_none_right_eq_some, Option.some.injEq] at hs
      obtain ⟨⟨hn, hl⟩, heq⟩ := hs
      obtain ⟨rfl, rfl⟩ := Prod.mk.inj heq
      exact .start hp hn hl
    · cases hs
  | wake now later =>
    simp only [step] at hs
    split at hs
    · rename_i w hp
      simp only [Option.ite_none_right_eq_some, Option.some.injEq] at hs
      obtain ⟨⟨-, hw, hn, hl⟩, heq⟩ := hs
      obtain ⟨rfl, rfl⟩ := Prod.mk.inj heq
      exact .wake hp hw hn hl
    · cases hs
  | stop =>
    obtain ⟨rfl, rfl⟩ := Prod.mk.inj (Option.some.inj hs)
    exact .stop
  | leave =>
    simp only [step] at hs
    split at hs
    · rename_i w hp
      simp only [Option.ite_none_right_eq_some, Option.some.injEq] at hs
      obtain ⟨hstop, heq⟩ := hs
      obtain ⟨rfl, rfl⟩ := Prod.mk.inj heq
      exact .leave hp hstop
    · cases hs
  | drained =>
    simp only [step] at hs
    split at hs
    · rename_i gathered hp
      simp only [Option.ite_none_right_eq_some, Option.some.injEq, List.all_eq_true, decide_eq_true_eq] at hs
      obtain ⟨hg, heq⟩ := hs
      obtain ⟨rfl, rfl⟩ := Prod.mk.inj heq
      exact .drained hp hg
    · cases hs
  | segment a =>
    simp only [step, Option.ite_none_left_eq_some, Option.map_eq_some_iff, Bool.not_eq_true] at hs
    obtain ⟨ha, q, hq, heq⟩ := hs
    obtain ⟨rfl, rfl⟩ := Prod.mk.inj heq
    exact .segment ha hq

end RunLoop

/-! ### Reachable loops -/

/-- Time passes. -/
theorem Sched.On.wait {F : Forest} {S : Sched} (h : On F S) {t : ℚ} (ht : S.mono ≤ t) : On F { S with mono := t } :=
  h.restore [] ht

/-- The scheduler of the loop is reachable. -/
def RunLoop.Reachable (L : RunLoop) : Prop := ∃ F, L.sched.On F

namespace RunLoop

variable {L L' : RunLoop} {a : RunLabel} {tr : List Pass}

theorem Reachable.pass (h : L.Reachable) {now later : ℚ} (hn : L.sched.mono ≤ now) (hl : now ≤ later) :
    (L.pass now later).1.Reachable := by
  obtain ⟨F, hF⟩ := h
  have hstep : L.sched.step (.tick now) = some (L.sched.tick now, []) := if_pos hn
  refine ⟨F, (hF.step hstep).wait ?_⟩
  rw [Sched.mono_tick]
  exact hl

theorem Reachable.step (h : L.Reachable) (hs : L.step a = some (L', tr)) : L'.Reachable := by
  cases moved hs with
  | @start now later _ hn hl => exact Reachable.pass (L := { L with stop := false }) h hn hl
  | wake _ _ hn hl => exact h.pass hn hl
  | stop | leave | drained => exact h
  | @segment a S' o _ hseg =>
    obtain ⟨F, hF⟩ := h
    exact ⟨a.forest F, hF.step hseg⟩

/-- What a pass sees: the entries that are due. -/
theorem mem_taken {now later : ℚ} {p : Pass} (hp : p ∈ (L.pass now later).2) {r : ℕ} :
    r ∈ p.taken ↔ ∃ e ∈ L.sched.heap, e.due ≤ now ∧ e.sched = r := by
  obtain rfl := List.mem_singleton.mp hp
  simp only [Sched.due, List.mem_map, List.mem_filter, decide_eq_true_eq, and_assoc]

/-- What it dispatches it has taken up. -/
theorem taken_of_dispatched (h : L.Reachable) {now later : ℚ} {p : Pass} (hp : p ∈ (L.pass now later).2) {r : ℕ}
    (hr : r ∈ p.dispatched) : r ∈ p.taken := by
  obtain ⟨F, hF⟩ := h
  obtain rfl := List.mem_singleton.mp hp
  have htasks : (L.sched.tick now).tasks = L.sched.tasks ++
      ((L.sched.due now).filter fun e => L.sched.eligible e.sched).map fun e => (e.sched, .running) :=
    (L.sched.ticked_tick hF.tickInv hF.queueInv now).1.tasks
  have hr : r ∈ ((L.sched.tick now).tasks.drop L.sched.tasks.length).map Prod.fst := hr
  rw [htasks, List.drop_left, List.map_map] at hr
  obtain ⟨e, he, rfl⟩ := List.mem_map.mp hr
  exact List.mem_map_of_mem (List.mem_of_mem_filter he)

end RunLoop

/-! ### No node is checked twice within its interval -/

/-- Older objects keep their interval, and their next due time only moves ahead. -/
structure Sched.Ages (S S' : Sched) : Prop where
  fresh_le : S.fresh ≤ S'.fresh
  interval : ∀ r < S.fresh, (S'.objs r).interval = (S.objs r).interval
  nextDue_le : ∀ r < S.fresh, (S.objs r).nextDue ≤ (S'.objs r).nextDue

/-- The due time of a node after a pass. -/
theorem Sched.nextDue_tick {S : Sched} (hinv : TickInv S) (hqueue : QueueInv S []) (now : ℚ) (r : ℕ) :
    ((S.tick now).objs r).nextDue =
      if r ∈ (S.due now).map Entry.sched then now + (S.objs r).interval else (S.objs r).nextDue := by
  obtain ⟨hticked, hnodup⟩ := S.ticked_tick hinv hqueue now
  have hobj : (S.tick now).objs r = if r ∈ (S.due now).map Entry.sched then S.afterPop now r else S.objs r :=
    hticked.objs hnodup r
  rw [hobj]
  split
  · exact DueInv.nextDue_afterPop S now r
  · rfl

theorem Sched.ages_tick {S : Sched} (hinv : TickInv S) (hqueue : QueueInv S []) (hdue : DueInv S) {now : ℚ}
    (hn : S.mono ≤ now) : S.Ages (S.tick now) := by
  have hk : S.Kept (S.tick now) := (Stepped.tick hn).kept rfl
  refine ⟨hk.fresh.ge, fun r _ => hk.interval r, fun r hr => ?_⟩
  rw [nextDue_tick hinv hqueue]
  split
  · rename_i hmem
    obtain ⟨e, he, rfl⟩ := List.mem_map.mp hmem
    obtain ⟨heheap, hedue⟩ := List.mem_filter.mp he
    rw [← hdue.due e heheap]
    exact (decide_eq_true_eq.mp hedue).trans (le_add_of_nonneg_right (hinv.interval_pos _ hr).le)
  · exact le_rfl

theorem Sched.ages_step {S S' : Sched} {a : Label} {o : List Event} (ha : a.isTick = false)
    (hs : S.step a = some (S', o)) : S.Ages S' := by
  by_cases hr : a.isReload = true
  · cases Sched.stepped hs with
    | @reload F wall now _ =>
      refine ⟨?_, fun r hr => by rw [S.reload_old F wall now hr], fun r hr => by rw [S.reload_old F wall now hr]⟩
      rw [(S.reload_frame F wall now).2.2.1]
      omega
    | _ => simp [Label.isReload] at hr
  · have hr : a.isReload = false := by simpa using hr
    have hk := (Sched.stepped hs).kept hr
    have hq := (Sched.stepped hs).requeues ha hr
    exact ⟨hk.fresh.ge, fun r _ => hk.interval r, fun r _ => (hq.nextDue r).ge⟩

namespace RunLoop

/-- The passes so far and the due times that they have set. -/
structure RateInv (L : RunLoop) (tr : List Pass) : Prop where
  reachable : L.Reachable
  lt : ∀ p ∈ tr, ∀ r ∈ p.dispatched, r < L.sched.fresh
  next : ∀ p ∈ tr, ∀ r ∈ p.dispatched, p.now + (L.sched.objs r).interval ≤ (L.sched.objs r).nextDue
  rate : tr.Pairwise fun p q => ∀ r ∈ p.dispatched, r ∈ q.dispatched → p.now + (L.sched.objs r).interval ≤ q.now

variable {L L' : RunLoop} {a : RunLabel} {tr o : List Pass}

theorem RateInv.ages (h : RateInv L tr) (hr : L'.Reachable) (ha : L.sched.Ages L'.sched) : RateInv L' tr := by
  refine ⟨hr, fun p hp r hr => (h.lt p hp r hr).trans_le ha.fresh_le, fun p hp r hr => ?_, ?_⟩
  · have hlt := h.lt p hp r hr
    rw [ha.interval r hlt]
    exact (h.next p hp r hr).trans (ha.nextDue_le r hlt)
  · refine h.rate.imp_of_mem fun {p q} hp _ hrate r hrp hrq => ?_
    rw [ha.interval r (h.lt p hp r hrp)]
    exact hrate r hrp hrq

/-- A pass: what it dispatches was due, and is due again an interval later. -/
theorem RateInv.pass (h : RateInv L tr) {now later : ℚ} (hn : L.sched.mono ≤ now) (hl : now ≤ later) :
    RateInv (L.pass now later).1 (tr ++ (L.pass now later).2) := by
  have hreach := h.reachable
  obtain ⟨F, hF⟩ := h.reachable
  have hages : L.sched.Ages (L.pass now later).1.sched := by
    have ht := Sched.ages_tick hF.tickInv hF.queueInv hF.dueInv hn
    exact ⟨ht.fresh_le, ht.interval, ht.nextDue_le⟩
  have hold := h.ages (hreach.pass hn hl) hages
  -- an object that this pass dispatches was on the heap
  have hnew : ∀ q ∈ (L.pass now later).2, ∀ r ∈ q.dispatched, q.now = now ∧
      ∃ e ∈ L.sched.heap, e.due ≤ now ∧ e.sched = r := by
    intro q hq r hr
    refine ⟨?_, (mem_taken hq).mp (taken_of_dispatched hreach hq hr)⟩
    obtain rfl := List.mem_singleton.mp hq
    rfl
  refine ⟨hold.reachable, fun p hp r hr => ?_, fun p hp r hr => ?_, ?_⟩
  · rcases List.mem_append.mp hp with hp | hp
    · exact hold.lt p hp r hr
    · obtain ⟨-, e, he, -, rfl⟩ := hnew p hp r hr
      exact (hF.queueInv.sched_lt _ (hF.queueInv.heap_mem e he)).trans_le hages.fresh_le
  · rcases List.mem_append.mp hp with hp | hp
    · exact hold.next p hp r hr
    · obtain ⟨rfl, e, he, hdue, rfl⟩ := hnew p hp r hr
      have hmem : e.sched ∈ (L.sched.due p.now).map Entry.sched :=
        List.mem_map_of_mem (List.mem_filter.mpr ⟨he, decide_eq_true hdue⟩)
      have hnext : ((L.pass p.now later).1.sched.objs e.sched).nextDue = p.now + (L.sched.objs e.sched).interval :=
        (Sched.nextDue_tick hF.tickInv hF.queueInv p.now e.sched).trans (if_pos hmem)
      rw [hnext, hages.interval _ (hF.queueInv.sched_lt _ (hF.queueInv.heap_mem e he))]
  · refine List.pairwise_append.mpr ⟨hold.rate, List.pairwise_singleton _ _, fun p hp q hq r hrp hrq => ?_⟩
    obtain ⟨rfl, e, he, hdue, rfl⟩ := hnew q hq r hrq
    rw [hages.interval _ (h.lt p hp _ hrp)]
    exact (h.next p hp _ hrp).trans ((hF.dueInv.due e he).ge.trans hdue)

theorem RateInv.step (h : RateInv L tr) (hs : L.step a = some (L', o)) : RateInv L' (tr ++ o) := by
  have hreach := h.reachable.step hs
  cases moved hs with
  | start _ hn hl =>
    have h0 : RateInv { L with stop := false } tr := ⟨h.reachable, h.lt, h.next, h.rate⟩
    exact h0.pass hn hl
  | wake _ _ hn hl => exact h.pass hn hl
  | stop | leave | drained =>
    rw [List.append_nil]
    exact ⟨hreach, h.lt, h.next, h.rate⟩
  | segment ha hseg =>
    rw [List.append_nil]
    exact h.ages hreach (Sched.ages_step ha hseg)

end RunLoop

/-- While the loop waits, the time `t` is at most `d` beyond the end of its wait. -/
def RunPhase.LateBy (t d : ℚ) : RunPhase → Prop
  | .sleeping w => t ≤ w + d
  | _ => True

instance (t d : ℚ) : ∀ phase : RunPhase, Decidable (phase.LateBy t d)
  | .sleeping w => inferInstanceAs (Decidable (t ≤ w + d))
  | .idle => isTrue trivial
  | .draining _ => isTrue trivial
  | .done => isTrue trivial

/-- The configuration that a reload brings. -/
def Label.newForest : Label → Option Forest
  | .reload F _ _ => some F
  | _ => none

/-- No wait of the loop is longer than `M`. -/
structure Sched.Paced (M : ℚ) (S : Sched) : Prop where
  poll : maxIdlePollS ≤ M
  global : S.settings.intervalS ≤ M
  interval : ∀ r < S.fresh, (S.objs r).interval ≤ M

/-- The intervals of a configuration. -/
def Forest.Paced (F : Forest) (settings : Settings) (M : ℚ) : Prop :=
  ∀ o ∈ (flatten F).order, effectiveInterval settings (F.node o.1) ≤ M

instance (F : Forest) (settings : Settings) (M : ℚ) : Decidable (F.Paced settings M) :=
  inferInstanceAs (Decidable (∀ o ∈ (flatten F).order, effectiveInterval settings (F.node o.1) ≤ M))

namespace Sched

variable {S : Sched} {M : ℚ}

theorem interval_le_newScheduled {settings : Settings} {F : Forest} {base : ℕ} {wall : ℕ → ℚ} {now : ℚ}
    {stagger : Bool} (hF : F.Paced settings M) {o : Scheduled}
    (ho : o ∈ newScheduled settings F base wall now stagger) : o.interval ≤ M := by
  obtain ⟨i, hi, rfl⟩ := List.mem_iff_getElem.mp ho
  simp only [newScheduled, List.getElem_mapIdx]
  exact hF _ (List.getElem_mem _)

/-- A new set of objects. -/
theorem Paced.install {news : List Scheduled} (hM : maxIdlePollS ≤ M) (hg : S.settings.intervalS ≤ M)
    (hold : ∀ r < S.fresh, (S.objs r).interval ≤ M) (hnew : ∀ o ∈ news, o.interval ≤ M) : (S.install news).Paced M := by
  obtain ⟨_, _, hS⟩ := S.install_frame news
  rw [hS]
  refine ⟨hM, hg, fun r hr => ?_⟩
  dsimp only at hr ⊢
  by_cases hlt : r < S.fresh
  · rw [S.allocate_old news hlt]
    exact hold r hlt
  · obtain ⟨o, ho, heq⟩ := S.allocate_new news ((S.mem_newRefs news).mpr ⟨Nat.le_of_not_lt hlt, hr⟩)
    rw [heq]
    exact hnew o ho

theorem Paced.init {settings : Settings} {F : Forest} (hM : maxIdlePollS ≤ M) (hg : settings.intervalS ≤ M)
    (hF : F.Paced settings M) (wall : ℕ → ℚ) (now : ℚ) (stagger : Bool) :
    (Sched.init settings F wall now stagger).Paced M :=
  Paced.install hM hg (fun r hr => absurd hr (Nat.not_lt_zero r)) fun _ ho => interval_le_newScheduled hF ho

theorem Paced.reload (h : S.Paced M) {F : Forest} (hF : F.Paced S.settings M) (wall : ℕ → ℚ) (now : ℚ) :
    (S.reload F wall now).Paced M := by
  suffices hnew : ∀ o ∈ (newScheduled S.settings F S.fresh wall now true).map S.carry, o.interval ≤ M by
    have hp := Paced.install h.poll h.global h.interval hnew
    exact ⟨hp.poll, hp.global, hp.interval⟩
  intro o ho
  obtain ⟨o', ho', rfl⟩ := List.mem_map.mp ho
  have := interval_le_newScheduled hF ho'
  unfold carry
  split
  · exact this
  · exact this

theorem Paced.kept (h : S.Paced M) {S' : Sched} (hk : S.Kept S') : S'.Paced M := by
  refine ⟨h.poll, hk.settings ▸ h.global, fun r hr => ?_⟩
  rw [hk.interval]
  exact h.interval r (hk.fresh ▸ hr)

/-- The wait that begins at the time `later`, after a pass at the time `S.mono`, ends no later than this. -/
theorem Paced.wake_le (h : S.Paced M) (hqueue : QueueInv S []) (hdue : DueInv S) {later d : ℚ}
    (hl : S.mono ≤ later) (hd : later ≤ S.mono + d) : later + S.nextDelay later ≤ S.mono + M + d := by
  have hM : 0 ≤ M := zero_le_one.trans h.poll
  unfold nextDelay
  split
  · have hle : min S.settings.intervalS maxIdlePollS ≤ M := (min_le_right _ _).trans h.poll
    linarith
  · rename_i e rest hh
    have he : e ∈ S.heap := by simp [hh]
    have hlt := hqueue.sched_lt _ (hqueue.heap_mem e he)
    have hnear : e.due ≤ S.mono + M := by
      rw [hdue.due e he]
      refine (hdue.nextDue_le _ hlt).trans (add_le_add_right ?_ _)
      exact max_le (h.interval _ hlt) h.global
    rcases max_choice 0 (e.due - later) with hmax | hmax
    · rw [hmax]
      linarith
    · rw [hmax]
      linarith

end Sched

namespace RunLoop

/-- The event loop keeps up: a wait that times out at `w` is resumed by `w + d`, a pass takes no longer than `d`, no
other segment runs on beyond `w + d`, and a reload brings no interval beyond `M`. -/
def Timely (M d : ℚ) (L : RunLoop) : RunLabel → Prop
  | .start now later => later ≤ now + d
  | .wake now later => later ≤ now + d ∧ L.phase.LateBy now d
  | .segment a =>
    (∀ q ∈ L.sched.step a, L.phase.LateBy q.1.mono d) ∧ ∀ F ∈ a.newForest, F.Paced L.sched.settings M
  | _ => True

instance (M d : ℚ) (L : RunLoop) : ∀ a : RunLabel, Decidable (L.Timely M d a)
  | .start now later => inferInstanceAs (Decidable (later ≤ now + d))
  | .wake now later => inferInstanceAs (Decidable (later ≤ now + d ∧ L.phase.LateBy now d))
  | .segment a => inferInstanceAs (Decidable ((∀ q ∈ L.sched.step a, L.phase.LateBy q.1.mono d) ∧
      ∀ F ∈ a.newForest, F.Paced L.sched.settings M))
  | .stop => isTrue trivial
  | .leave => isTrue trivial
  | .drained => isTrue trivial

/-- The last pass is not long ago. -/
structure PaceInv (M d : ℚ) (L : RunLoop) (tr : List Pass) : Prop where
  reachable : L.Reachable
  paced : L.sched.Paced M
  past : ∀ p ∈ tr, p.now ≤ L.sched.mono
  recent : ∀ w, L.phase = .sleeping w → ∃ p ∈ tr, w ≤ p.now + M + d ∧ L.sched.mono ≤ p.now + M + 2 * d

variable {M d : ℚ} {L L' : RunLoop} {a : RunLabel} {tr o : List Pass}

theorem PaceInv.pass (h : PaceInv M d L tr) {now later : ℚ} (hn : L.sched.mono ≤ now) (hl : now ≤ later)
    (hd : later ≤ now + d) : PaceInv M d (L.pass now later).1 (tr ++ (L.pass now later).2) := by
  have hreach := h.reachable.pass hn hl
  have hpaced : (L.sched.tick now).Paced M := h.paced.kept ((Stepped.tick hn).kept rfl)
  obtain ⟨F, hF⟩ := h.reachable
  have htick : L.sched.step (.tick now) = some (L.sched.tick now, []) := if_pos hn
  have hmono : (L.sched.tick now).mono = now := Sched.mono_tick _ now
  have hwake := hpaced.wake_le (hF.queueInv.step htick) (hF.dueInv.step hF.tickInv hF.queueInv htick)
    (hmono.le.trans hl) (d := d) (by rw [hmono]; exact hd)
  rw [hmono] at hwake
  have hM : 0 ≤ M := zero_le_one.trans h.paced.poll
  refine ⟨hreach, ⟨hpaced.poll, hpaced.global, hpaced.interval⟩, fun p hp => ?_, fun w hw => ?_⟩
  · show p.now ≤ later
    rcases List.mem_append.mp hp with hp | hp
    · exact (h.past p hp).trans (hn.trans hl)
    · obtain rfl := List.mem_singleton.mp hp
      exact hl
  · obtain rfl := RunPhase.sleeping.inj hw
    refine ⟨_, List.mem_append_right _ (List.mem_singleton_self _), hwake, ?_⟩
    show later ≤ now + M + 2 * d
    linarith

theorem PaceInv.step (h : PaceInv M d L tr) (ht : Timely M d L a) (hs : L.step a = some (L', o)) :
    PaceInv M d L' (tr ++ o) := by
  have hreach := h.reachable.step hs
  cases moved hs with
  | @start now later _ hn hl =>
    have h0 : PaceInv M d { L with stop := false } tr := ⟨h.reachable, h.paced, h.past, h.recent⟩
    exact h0.pass hn hl ht
  | wake _ _ hn hl => exact h.pass hn hl ht.1
  | stop =>
    rw [List.append_nil]
    exact ⟨hreach, h.paced, h.past, h.recent⟩
  | leave | drained =>
    rw [List.append_nil]
    exact ⟨hreach, h.paced, h.past, fun w hw => by cases hw⟩
  | @segment a S' o _ hseg =>
    rw [List.append_nil]
    have hst := Sched.stepped hseg
    refine ⟨hreach, ?_, fun p hp => (h.past p hp).trans hst.mono_le, fun w hw => ?_⟩
    · by_cases hr : a.isReload = true
      · cases hst with
        | @reload F wall now _ => exact h.paced.reload (ht.2 F rfl) wall now
        | _ => simp [Label.isReload] at hr
      · exact h.paced.kept (hst.kept (by simpa using hr))
    · obtain ⟨p, hp, hw', -⟩ := h.recent w hw
      have hlate : L.phase.LateBy S'.mono d := ht.1 (S', o) hseg
      have hw : L.phase = .sleeping w := hw
      rw [hw] at hlate
      have hlate : S'.mono ≤ w + d := hlate
      exact ⟨p, hp, hw', by dsimp only; linarith⟩

/-- The entry `e` is still on the heap, since its time has not come, or a pass has taken its node up. -/
def Waits (e : Entry) (L : RunLoop) (tr : List Pass) : Prop :=
  (∃ p ∈ tr, e.sched ∈ p.taken) ∨ e ∈ L.sched.heap ∧ ∀ p ∈ tr, p.now < e.due

theorem Waits.pass {e : Entry} (h : Waits e L tr) (hL : L.Reachable) (now later : ℚ) :
    Waits e (L.pass now later).1 (tr ++ (L.pass now later).2) := by
  rcases h with ⟨p, hp, hmem⟩ | ⟨hheap, hpast⟩
  · exact .inl ⟨p, List.mem_append_left _ hp, hmem⟩
  by_cases hdue : e.due ≤ now
  · exact .inl ⟨_, List.mem_append_right _ (List.mem_singleton_self _),
      List.mem_map_of_mem (List.mem_filter.mpr ⟨hheap, decide_eq_true hdue⟩)⟩
  · refine .inr ⟨?_, fun p hp => ?_⟩
    · obtain ⟨F, hF⟩ := hL
      have hlt : ∀ x ∈ L.sched.heap, 0 < (L.sched.objs x.sched).interval := fun x hx =>
        hF.tickInv.interval_pos _ (hF.queueInv.sched_lt _ (hF.queueInv.heap_mem x hx))
      obtain ⟨requeued, hperm, -⟩ := (L.sched.ticked_tick hF.tickInv hF.queueInv now).1.heap rfl hlt
      exact hperm.mem_iff.mpr (List.mem_append_right _
        (List.mem_filter.mpr ⟨hheap, decide_eq_true (not_le.mp hdue)⟩))
    · rcases List.mem_append.mp hp with hp | hp
      · exact hpast p hp
      · obtain rfl := List.mem_singleton.mp hp
        exact not_le.mp hdue

theorem Waits.step {e : Entry} (h : Waits e L tr) (hL : L.Reachable)
    (ha : ∀ F wall now, a ≠ .segment (.reload F wall now)) (hs : L.step a = some (L', o)) : Waits e L' (tr ++ o) := by
  cases moved hs with
  | start => exact Waits.pass (L := { L with stop := false }) h hL _ _
  | wake => exact h.pass hL _ _
  | stop | leave | drained =>
    rw [List.append_nil]
    exact h
  | @segment b S' ev htick hseg =>
    rw [List.append_nil]
    have hr : b.isReload = false := by
      cases b with
      | reload F wall now => exact absurd rfl (ha F wall now)
      | _ => rfl
    rcases h with h | ⟨hheap, hpast⟩
    · exact .inl h
    · exact .inr ⟨((Sched.stepped hseg).requeues htick hr).heap_subset e hheap, hpast⟩

/-- An entry stays on the heap until a pass takes its node up, reloads apart. -/
theorem waits_exec {e : Entry} {bs : List RunLabel} (hL : L.Reachable) (he : e ∈ L.sched.heap)
    (hno : ∀ F wall now, RunLabel.segment (.reload F wall now) ∉ bs) (hrun : exec RunLoop.step L bs = some (L', tr)) :
    Waits e L' tr := by
  have h0 : L.Reachable ∧ Waits e L [] := ⟨hL, .inr ⟨he, fun p hp => absurd hp List.not_mem_nil⟩⟩
  exact (exec_inv (P := fun _ a => ∀ F wall now, a ≠ RunLabel.segment (.reload F wall now))
    (fun T tr => T.Reachable ∧ Waits e T tr) (fun _ _ _ _ _ h ha hs => ⟨h.1.step hs, h.2.step h.1 ha hs⟩) h0
    (along_of_forall bs L fun a ha _ F wall now heq => hno F wall now (heq ▸ ha)) hrun).2

end RunLoop

/-- Segments that a task still takes, at most: the end of its check, and of a send. -/
def Phase.left : Phase → ℕ
  | .running => 2
  | .sending _ _ => 1

/-- The segments in which a pending task moves on. -/
def Label.completes : Label → Bool
  | .finish .. => true
  | .sent .. => true
  | _ => false

def RunLabel.completes : RunLabel → Bool
  | .segment a => a.completes
  | _ => false

namespace Sched

/-- Segments that the pending tasks still take, at most. -/
def pending (S : Sched) : ℕ := (S.tasks.map fun t => t.2.left).sum

variable {S S' : Sched} {r : ℕ}

theorem pending_resume {ph : Phase} (h : (r, ph) ∈ S.tasks) (t : ℚ) :
    (S.resume r ph t).pending + ph.left = S.pending := by
  have hperm := (List.perm_cons_erase h).map fun t : ℕ × Phase => t.2.left
  unfold pending
  rw [hperm.sum_eq, List.map_cons, List.sum_cons, resume_tasks, add_comm]

theorem pending_endTask (S : Sched) (r : ℕ) : (S.endTask r).pending = S.pending := by
  rw [pending, endTask_tasks]
  rfl

/-- A result that is in ends its task, or leaves it with a send to wait for. -/
theorem tasks_applyVerdict (S : Sched) (r : ℕ) (code : ℤ) (wall now later : ℚ) :
    (S.applyVerdict r code wall now later).1.tasks = S.tasks ∨
      ∃ p ch, (S.applyVerdict r code wall now later).1.tasks = S.tasks ++ [(r, .sending p ch)] := by
  unfold applyVerdict
  split
  · exact .inl (endTask_tasks S r)
  split
  · exact .inl (endTask_tasks _ r)
  dsimp only
  split
  · exact .inr ⟨_, _, rfl⟩
  · exact .inl (endTask_tasks _ r)

theorem pending_applyVerdict (S : Sched) (r : ℕ) (code : ℤ) (wall now later : ℚ) :
    (S.applyVerdict r code wall now later).1.pending ≤ S.pending + 1 := by
  unfold pending
  rcases S.tasks_applyVerdict r code wall now later with h | ⟨p, ch, h⟩
  · rw [h]
    exact Nat.le_succ _
  · rw [h, List.map_append, List.sum_append]
    exact le_rfl

/-- A task that moves on has less to do, and no segment but `tick` adds to it. -/
theorem pending_step {a : Label} {o : List Event} (ha : a.isTick = false) (hs : S.step a = some (S', o)) :
    S'.pending + (if a.completes then 1 else 0) ≤ S.pending := by
  cases stepped hs with
  | tick => cases ha
  | @raised r wall now later ht _ _ =>
    have h := pending_resume ht later
    rw [pending_endTask]
    simp only [Label.completes, if_true, Phase.left] at h ⊢
    omega
  | @verdict r code wall now later ht _ _ =>
    have h := pending_resume ht later
    have h1 := pending_applyVerdict (S.resume r .running later) r code wall now later
    simp only [Label.completes, if_true, Phase.left] at h ⊢
    omega
  | @sent r p ch out ended now ht _ _ =>
    have h := pending_resume ht now
    rw [applySent, pending_endTask]
    simp only [Label.completes, if_true, Phase.left] at h ⊢
    exact h.le
  | @reload F wall now _ =>
    rw [pending, (S.reload_frame F wall now).1]
    exact le_rfl
  | ack | setNote | nodeStates | clearDirty => exact le_rfl

/-- A segment other than `tick` creates no task. -/
theorem tasks_step {a : Label} {o : List Event} (ha : a.isTick = false) (hs : S.step a = some (S', o)) :
    ∀ t ∈ S'.tasks, t.1 ∈ S.tasks.map Prod.fst := by
  have hself : ∀ t ∈ S.tasks, t.1 ∈ S.tasks.map Prod.fst := fun t ht => List.mem_map_of_mem ht
  have hresume (q : ℕ) (ph : Phase) (now : ℚ) : ∀ t ∈ (S.resume q ph now).tasks, t.1 ∈ S.tasks.map Prod.fst :=
    fun t ht => hself t (List.mem_of_mem_erase ht)
  cases stepped hs with
  | tick => cases ha
  | raised =>
    rw [endTask_tasks]
    exact hresume _ _ _
  | @verdict r code wall now later ht _ _ =>
    rcases tasks_applyVerdict (S.resume r .running later) r code wall now later with h | ⟨p, ch, h⟩
    · rw [h]
      exact hresume _ _ _
    · rw [h]
      intro t hmem
      rcases List.mem_append.mp hmem with hmem | hmem
      · exact hresume _ _ _ t hmem
      · rw [List.mem_singleton.mp hmem]
        exact hself (r, .running) ht
  | @sent r p ch out _ now =>
    rw [applySent, endTask_tasks]
    exact hresume r (.sending p ch) now
  | @reload F wall now _ =>
    rw [(S.reload_frame F wall now).1]
    exact hself
  | ack | setNote | nodeStates | clearDirty => exact hself

end Sched

namespace RunLoop

/-- What `drain` waits for are all the tasks there are. -/
structure DrainInv (L : RunLoop) : Prop where
  reachable : L.Reachable
  gathered : ∀ g, L.phase = .draining g → ∀ t ∈ L.sched.tasks, t.1 ∈ g
  done : L.phase = .done → L.sched.tasks = []

variable {L L' : RunLoop} {a : RunLabel} {tr o : List Pass}

theorem DrainInv.step (h : DrainInv L) (hs : L.step a = some (L', o)) : DrainInv L' := by
  have hreach := h.reachable.step hs
  cases moved hs with
  | start | wake => exact ⟨hreach, fun g hg => (by cases hg), fun hd => (by cases hd)⟩
  | stop => exact ⟨hreach, h.gathered, h.done⟩
  | leave =>
    refine ⟨hreach, fun g hg t ht => ?_, fun hd => (by cases hd)⟩
    obtain rfl := RunPhase.draining.inj hg
    exact List.mem_map_of_mem ht
  | @drained g hp hg =>
    refine ⟨hreach, fun g hg => (by cases hg), fun _ => List.eq_nil_iff_forall_not_mem.mpr fun t ht => ?_⟩
    have hzero := hg t.1 (h.gathered g hp t ht)
    exact absurd (List.countP_eq_zero.mp hzero t ht) (by simp)
  | @segment b S' ev htick hseg =>
    have htasks := Sched.tasks_step htick hseg
    refine ⟨hreach, fun g hg t ht => ?_, fun hd => List.eq_nil_iff_forall_not_mem.mpr fun t ht => ?_⟩
    · obtain ⟨t', ht', heq⟩ := List.mem_map.mp (htasks t ht)
      exact heq ▸ h.gathered g hg t' ht'
    · have := htasks t ht
      rw [h.done hd] at this
      cases this

/-- The loop is left. -/
def Left (L : RunLoop) : Prop := L.phase = .done ∨ ∃ g, L.phase = .draining g

/-- Once the loop is left there are no more passes, and every completion brings the end nearer. -/
theorem Left.step (h : L.Left) (hs : L.step a = some (L', o)) :
    L'.Left ∧ o = [] ∧ L'.sched.pending + (if a.completes then 1 else 0) ≤ L.sched.pending := by
  have hphase : L.phase ≠ .idle ∧ ∀ w, L.phase ≠ .sleeping w := by
    rcases h with h | ⟨g, h⟩ <;> simp [h]
  cases moved hs with
  | start hp => exact absurd hp hphase.1
  | wake hp => exact absurd hp (hphase.2 _)
  | leave hp => exact absurd hp (hphase.2 _)
  | stop => exact ⟨h, rfl, le_rfl⟩
  | drained => exact ⟨.inl rfl, rfl, le_rfl⟩
  | segment ha hseg => exact ⟨h, rfl, Sched.pending_step ha hseg⟩

theorem Left.exec : ∀ {bs : List RunLabel} {L : RunLoop} {tr : List Pass}, L.Left →
    Lib.exec RunLoop.step L bs = some (L', tr) →
    L'.Left ∧ tr = [] ∧ L'.sched.pending + (bs.filter RunLabel.completes).length ≤ L.sched.pending
  | [], L, tr, h, he => by
    obtain ⟨rfl, rfl⟩ := Prod.mk.inj (Option.some.inj he)
    exact ⟨h, rfl, le_rfl⟩
  | a :: bs, L, tr, h, he => by
    obtain ⟨L₁, o, tr', hs, he', rfl⟩ := exec_cons.mp he
    obtain ⟨h₁, rfl, hle⟩ := h.step hs
    obtain ⟨h', rfl, hle'⟩ := Left.exec h₁ he'
    refine ⟨h', rfl, ?_⟩
    rw [List.filter_cons]
    split at hle
    · rename_i hc
      rw [if_pos hc, List.length_cons]
      omega
    · rename_i hc
      rw [if_neg hc]
      omega

/-- A pending task can always move on. -/
theorem exists_completion (h : L.sched.tasks ≠ []) : ∃ a, RunLabel.completes a = true ∧ (L.step a).isSome = true := by
  obtain ⟨⟨r, ph⟩, ht⟩ := List.exists_mem_of_ne_nil _ h
  cases ph with
  | running =>
    refine ⟨.segment (.finish r none 0 L.sched.mono L.sched.mono), rfl, ?_⟩
    simp [step, Label.isTick, Sched.step, ht]
  | sending p ch =>
    refine ⟨.segment (.sent r p ch .delivered L.sched.mono L.sched.mono), rfl, ?_⟩
    simp [step, Label.isTick, Sched.step, ht]

end RunLoop

theorem Sched.pending_le (S : Sched) : S.pending ≤ 2 * S.tasks.length := by
  unfold pending
  induction S.tasks with
  | nil => exact le_rfl
  | cons t ts ih =>
    have ht : t.2.left ≤ 2 := by
      cases t.2 with
      | running => exact le_rfl
      | sending p ch => exact Nat.le_succ 1
    rw [List.map_cons, List.sum_cons, List.length_cons]
    omega

end Psysmon
