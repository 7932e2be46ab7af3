import Psysmon.Engine.Tick
import Psysmon.Engine.Rebuild

/-!
# Psysmon.Engine.Due — due times

A node is queued at its `next_due`, and a pass of `tick` puts `next_due` one interval ahead.  `DueInv` says so of every
reachable scheduler: an entry on the heap carries the `next_due` of its node, and that lies at most one interval ahead
of the clock, or one global interval for a node that `_stagger_due` has placed.

* `Sched.Requeues`: a segment between two passes queues nodes at their `next_due` and moves no `next_due`.
* `DueInv.step`: one segment.
* `Sched.On.queueInv`, `On.tickInv`, `On.dueInv`: every reachable scheduler.
-/

namespace Psysmon

open Lib

/-! ### Reachable schedulers -/

theorem Sched.On.queueInv {F : Forest} {S : Sched} (h : On F S) : QueueInv S [] := by
  induction h with
  | init settings F wall now stagger => exact .init settings F wall now stagger
  | step _ hs ih => exact ih.step hs
  | @restore F S _ records now _ ih =>
    have hrec := importState_ind (fun T => QueueInv T []) records now (fun T _ _ q _ _ _ hT => hT.modifyState q _) ih
    exact hrec.congr rfl rfl rfl rfl rfl (fun _ => rfl) fun _ _ => rfl

theorem Sched.On.tickInv {F : Forest} {S : Sched} (h : On F S) : TickInv S := by
  induction h with
  | init settings F wall now stagger => exact .init settings F wall now stagger
  | step _ hs ih => exact ih.step hs
  | @restore F S _ records now _ ih =>
    have hk := Kept.importState S records now
    refine ⟨importState_ind (fun T => T.heap.Pairwise Entry.le) records now (fun _ _ _ _ _ _ _ hT => hT) ih.sorted,
      fun r hr => ?_⟩
    show 0 < ((S.importState records now).sched.objs r).interval
    rw [hk.interval]
    exact ih.interval_pos r (hk.fresh ▸ hr)

def Label.isTick : Label → Bool
  | .tick _ => true
  | _ => false

namespace Sched

/-! ### Segments between two passes -/

/-- What a segment other than `tick` and `reload` does to the queue: a new entry comes up at the `next_due` of its
node, and no `next_due` moves. -/
structure Requeues (S S' : Sched) : Prop where
  nextDue : ∀ r, (S'.objs r).nextDue = (S.objs r).nextDue
  heap : ∀ e ∈ S'.heap, e ∈ S.heap ∨ e.due = (S.objs e.sched).nextDue
  heap_subset : ∀ e ∈ S.heap, e ∈ S'.heap

namespace Requeues

variable {S S' : Sched}

theorem refl (S : Sched) : Requeues S S := ⟨fun _ => rfl, fun _ he => .inl he, fun _ he => he⟩

theorem modify (h : Requeues S S') (q : ℕ) (f : Scheduled → Scheduled) (hf : ∀ o, (f o).nextDue = o.nextDue) :
    Requeues S (S'.modify q f) := by
  refine ⟨fun r => ?_, h.heap, h.heap_subset⟩
  by_cases hr : r = q
  · subst hr
    rw [modify_objs_self, hf, h.nextDue]
  · rw [modify_objs_of_ne _ _ _ hr, h.nextDue]

theorem push (h : Requeues S S') (q : ℕ) : Requeues S (S'.push q) := by
  have hperm := S'.push_heap_perm q
  refine ⟨h.nextDue, fun e he => ?_, fun e he => hperm.mem_iff.mpr (List.mem_cons_of_mem _ (h.heap_subset e he))⟩
  rcases List.mem_cons.mp (hperm.mem_iff.mp he) with rfl | he
  · exact .inr (h.nextDue q)
  · exact h.heap e he

theorem publish (h : Requeues S S') (b : Bool) : Requeues S (S'.publish b) := ⟨h.nextDue, h.heap, h.heap_subset⟩

theorem endTask (h : Requeues S S') (q : ℕ) : Requeues S (S'.endTask q) := by
  have h1 : Requeues S (S'.modify q fun o => { o with inFlight := false }) := h.modify q _ fun _ => rfl
  unfold Sched.endTask
  dsimp only
  split
  · exact h1.push q
  · exact h1

theorem applyVerdict (h : Requeues S S') (q : ℕ) (code : ℤ) (wall now later : ℚ) :
    Requeues S (S'.applyVerdict q code wall now later).1 := by
  unfold Sched.applyVerdict
  split
  · exact h.endTask q
  split
  · exact (h.modify q (fun o => { o with state := { o.state with suppressed := true } }) fun _ => rfl).endTask q
  · have h1 : Requeues S (S'.modify q fun o => { o with
        state := (applyAndPage (S'.pagingCfg q) (S'.objs q).state code wall now later).1, checked := true }) :=
      h.modify q _ fun _ => rfl
    dsimp only
    split
    · exact ⟨h1.nextDue, h1.heap, h1.heap_subset⟩
    · exact (h1.publish _).endTask q

theorem applySent (h : Requeues S S') (q : ℕ) (p : Page) (ch : Bool) (out : SendOutcome) (now : ℚ) :
    Requeues S (S'.applySent q p ch out now) := by
  have h1 : Requeues S (S'.modifyState q fun st => afterSend st p out now) := h.modify q _ fun _ => rfl
  exact (h1.publish _).endTask q

theorem mapStates (h : Requeues S S') (rs : List ℕ) (f : NodeState → NodeState) :
    Requeues S (S'.mapStates rs f) := by
  refine ⟨fun r => ?_, h.heap, h.heap_subset⟩
  rw [← h.nextDue r]
  simp only [Sched.mapStates]
  split <;> rfl

end Requeues

end Sched

theorem Stepped.requeues {S S' : Sched} {a : Label} {o : List Event} (hs : Stepped S a S' o)
    (ht : a.isTick = false) (hr : a.isReload = false) : S.Requeues S' := by
  have h := Sched.Requeues.refl S
  have hresume (r : ℕ) (ph : Phase) (t : ℚ) : S.Requeues (S.resume r ph t) := ⟨h.nextDue, h.heap, h.heap_subset⟩
  cases hs with
  | tick => cases ht
  | raised => exact (hresume _ _ _).endTask _
  | verdict => exact (hresume _ _ _).applyVerdict _ _ _ _ _
  | sent => exact (hresume _ _ _).applySent _ _ _ _ _
  | ack => exact (h.mapStates _ _).publish _
  | setNote => exact (h.mapStates _ _).publish _
  | nodeStates =>
    refine ⟨fun r => ?_, h.heap, h.heap_subset⟩
    simp only [Sched.nodeStates]
    split <;> rfl
  | clearDirty => exact ⟨h.nextDue, h.heap, h.heap_subset⟩
  | reload => cases hr

/-! ### The clock never runs backwards -/

theorem Sched.mono_tickLoop (now : ℚ) : ∀ (n : ℕ) (S : Sched), (tickLoop now n S).mono = S.mono
  | 0, _ => rfl
  | n + 1, S => by
    unfold tickLoop
    split
    · rfl
    split
    · rename_i e rest _ _
      rw [mono_tickLoop now n]
      cases h : Sched.eligible { S with heap := rest } e.sched with
      | true => rw [dispatch_of_eligible h]
      | false => rw [dispatch_of_not_eligible h]
    · rfl

@[simp] theorem Sched.mono_tick (S : Sched) (now : ℚ) : (S.tick now).mono = now := mono_tickLoop now _ _

theorem Sched.mono_applyVerdict (S : Sched) (r : ℕ) (code : ℤ) (wall now later : ℚ) :
    (S.applyVerdict r code wall now later).1.mono = S.mono := by
  unfold applyVerdict
  split
  · exact endTask_mono S r
  split
  · exact endTask_mono _ r
  dsimp only
  split
  · rfl
  · exact endTask_mono _ r

theorem Stepped.mono_le {S S' : Sched} {a : Label} {o : List Event} (hs : Stepped S a S' o) : S.mono ≤ S'.mono := by
  cases hs with
  | tick h =>
    rw [Sched.mono_tick]
    exact h
  | raised _ hn hl =>
    rw [Sched.endTask_mono]
    exact hn.trans hl
  | verdict _ hn hl =>
    rw [Sched.mono_applyVerdict]
    exact hn.trans hl
  | sent _ he hn =>
    rw [Sched.applySent, Sched.endTask_mono]
    exact he.trans hn
  | reload h => exact h
  | ack | setNote | nodeStates | clearDirty => exact le_rfl

/-! ### Due times -/

/-- Entries carry the `next_due` of their nodes, and these lie near. -/
structure DueInv (S : Sched) : Prop where
  due : ∀ e ∈ S.heap, e.due = (S.objs e.sched).nextDue
  nextDue_le : ∀ r < S.fresh, (S.objs r).nextDue ≤ S.mono + max (S.objs r).interval S.settings.intervalS

namespace DueInv

variable {S S' : Sched}

/-- A segment between two passes. -/
theorem requeues (h : DueInv S) (hk : S.Kept S') (hq : S.Requeues S') (hm : S.mono ≤ S'.mono) : DueInv S' := by
  refine ⟨fun e he => ?_, fun r hr => ?_⟩
  · rw [hq.nextDue]
    rcases hq.heap e he with he | hdue
    · exact h.due e he
    · exact hdue
  · rw [hq.nextDue, hk.interval, hk.settings]
    exact (h.nextDue_le r (hk.fresh ▸ hr)).trans (add_le_add_left hm _)

/-- A node with an entry that is not due has no entry that is. -/
theorem not_mem_due (hqueue : QueueInv S []) {now : ℚ} {e : Entry} (he : e ∈ S.later now) :
    e.sched ∉ (S.due now).map Entry.sched := by
  intro hmem
  obtain ⟨x, hx, hsched⟩ := List.mem_map.mp hmem
  obtain ⟨hxheap, hxdue⟩ := List.mem_filter.mp hx
  obtain ⟨heheap, hedue⟩ := List.mem_filter.mp he
  have hxe : x = e := List.inj_on_of_nodup_map hqueue.sched_nodup hxheap heheap hsched
  subst hxe
  simp only [decide_eq_true_eq] at hxdue hedue
  exact absurd hxdue (not_le.mpr hedue)

theorem nextDue_afterPop (S : Sched) (now : ℚ) (r : ℕ) : (S.afterPop now r).nextDue = now + (S.objs r).interval := by
  unfold Sched.afterPop
  split <;> rfl

/-- One pass: the nodes it takes up are due an interval from now, and the others keep their place. -/
theorem tick (h : DueInv S) (hinv : TickInv S) (hqueue : QueueInv S []) {now : ℚ} (hnow : S.mono ≤ now) :
    DueInv (S.tick now) := by
  obtain ⟨hticked, hnodup⟩ := S.ticked_tick hinv hqueue now
  have hk : S.Kept (S.tick now) := (Stepped.tick hnow).kept rfl
  have hlt : ∀ e ∈ S.heap, e.sched < S.fresh := fun e he => hqueue.sched_lt _ (hqueue.heap_mem e he)
  have hobjs : ∀ q, (S.tick now).objs q = if q ∈ (S.due now).map Entry.sched then S.afterPop now q else S.objs q :=
    hticked.objs hnodup
  obtain ⟨requeued, hperm, hmap⟩ : ∃ requeued : List Entry, (S.tick now).heap.Perm (requeued ++ S.later now) ∧
      requeued.map (fun e => (e.sched, e.due)) = ((S.due now).filter fun e => !S.eligible e.sched).map
        (fun e => (e.sched, now + (S.objs e.sched).interval)) :=
    hticked.heap rfl fun e he => hinv.interval_pos _ (hlt e he)
  refine ⟨fun e he => ?_, fun r hr => ?_⟩
  · rw [hobjs]
    rcases List.mem_append.mp (hperm.mem_iff.mp he) with hreq | hlater
    · have hpair := List.mem_map_of_mem (f := fun e : Entry => (e.sched, e.due)) hreq
      rw [hmap] at hpair
      obtain ⟨x, hx, heq⟩ := List.mem_map.mp hpair
      obtain ⟨hsched, hdue⟩ := Prod.mk.inj heq
      rw [← hsched, ← hdue, if_pos (List.mem_map_of_mem (List.mem_of_mem_filter hx)), nextDue_afterPop]
    · rw [if_neg (not_mem_due hqueue hlater)]
      exact h.due e (List.mem_of_mem_filter hlater)
  · rw [hk.interval, hk.settings, Sched.mono_tick, hobjs]
    split
    · rw [nextDue_afterPop]
      exact add_le_add_right (le_max_left _ _) now
    · exact (h.nextDue_le r (hk.fresh ▸ hr)).trans (add_le_add_left hnow _)

/-! ### Construction and reload -/

theorem foldl_push_due : ∀ (refs : List ℕ) (S : Sched), (∀ e ∈ S.heap, e.due = (S.objs e.sched).nextDue) →
    ∀ e ∈ (refs.foldl Sched.push S).heap, e.due = ((refs.foldl Sched.push S).objs e.sched).nextDue
  | [], _, h => h
  | r :: refs, S, h => by
    refine foldl_push_due refs (S.push r) fun e he => ?_
    rcases List.mem_cons.mp ((S.push_heap_perm r).mem_iff.mp he) with rfl | he
    · rfl
    · exact h e he

/-- A new set of objects at the time `now`. -/
theorem install (hnext : ∀ r < S.fresh, (S.objs r).nextDue ≤ S.mono + max (S.objs r).interval S.settings.intervalS)
    (news : List Scheduled) {now : ℚ} (hnow : S.mono ≤ now)
    (hnew : ∀ o ∈ news, o.nextDue ≤ now + max o.interval S.settings.intervalS) :
    DueInv { S.install news with mono := now } := by
  refine ⟨foldl_push_due _ _ (fun e he => absurd he (List.not_mem_nil)), fun r hr => ?_⟩
  obtain ⟨_, _, hS⟩ := S.install_frame news
  rw [hS] at hr ⊢
  dsimp only at hr ⊢
  by_cases hold : r < S.fresh
  · rw [S.allocate_old news hold]
    exact (hnext r hold).trans (add_le_add_left hnow _)
  · obtain ⟨o, ho, heq⟩ := S.allocate_new news ((S.mem_newRefs news).mpr ⟨Nat.le_of_not_lt hold, hr⟩)
    rw [heq]
    exact hnew o ho

/-- `_stagger_due` spreads the nodes over one global interval. -/
theorem nextDue_newScheduled {settings : Settings} {F : Forest} {base : ℕ} {wall : ℕ → ℚ} {now : ℚ} {stagger : Bool}
    {o : Scheduled} (ho : o ∈ Sched.newScheduled settings F base wall now stagger) :
    o.nextDue ≤ now + max o.interval settings.intervalS := by
  have hpos := Sched.interval_newScheduled ho
  obtain ⟨i, hi, rfl⟩ := List.mem_iff_getElem.mp ho
  have hi : i < (flatten F).order.length := by simpa [Sched.newScheduled] using hi
  simp only [Sched.newScheduled, List.getElem_mapIdx] at hpos ⊢
  apply add_le_add_right
  have hn : (0 : ℚ) < (flatten F).order.length := by exact_mod_cast Nat.zero_lt_of_lt hi
  have hfrac : (i / (flatten F).order.length : ℚ) ≤ 1 := by
    rw [div_le_one hn]
    exact_mod_cast hi.le
  have hfrac0 : (0 : ℚ) ≤ i / (flatten F).order.length := by positivity
  split
  · rcases le_total settings.intervalS 0 with hneg | hnn
    · exact (mul_nonpos_of_nonneg_of_nonpos hfrac0 hneg).trans (hpos.le.trans (le_max_left _ _))
    · exact (mul_le_of_le_one_left hnn hfrac).trans (le_max_right _ _)
  · exact hpos.le.trans (le_max_left _ _)

theorem init (settings : Settings) (F : Forest) (wall : ℕ → ℚ) (now : ℚ) (stagger : Bool) :
    DueInv (Sched.init settings F wall now stagger) := by
  unfold Sched.init
  generalize hempty : Sched.mk settings _ 0 [] [] 0 [] true (flattenWarnings F) now = S
  have hnext : ∀ r < S.fresh, (S.objs r).nextDue ≤ S.mono + max (S.objs r).interval S.settings.intervalS := by
    subst hempty
    exact fun r hr => absurd hr (Nat.not_lt_zero r)
  have hnew : ∀ o ∈ Sched.newScheduled settings F 0 wall now stagger,
      o.nextDue ≤ now + max o.interval S.settings.intervalS := by
    subst hempty
    exact fun o ho => nextDue_newScheduled ho
  have hmono : S.mono = now := by
    subst hempty
    rfl
  have h := install hnext _ hmono.le hnew
  have hframe : (S.install (Sched.newScheduled settings F 0 wall now stagger)).mono = now := by
    obtain ⟨_, _, hS⟩ := S.install_frame (Sched.newScheduled settings F 0 wall now stagger)
    rw [hS]
    exact hmono
  refine ⟨h.due, fun r hr => ?_⟩
  rw [hframe]
  exact h.nextDue_le r hr

theorem reload (h : DueInv S) (F : Forest) (wall : ℕ → ℚ) {now : ℚ} (hnow : S.mono ≤ now) :
    DueInv (S.reload F wall now) := by
  suffices hnew : ∀ o ∈ (Sched.newScheduled S.settings F S.fresh wall now true).map S.carry,
      o.nextDue ≤ now + max o.interval S.settings.intervalS from
    ⟨(install h.nextDue_le _ hnow hnew).due, (install h.nextDue_le _ hnow hnew).nextDue_le⟩
  intro o ho
  obtain ⟨o', ho', rfl⟩ := List.mem_map.mp ho
  have := nextDue_newScheduled ho'
  unfold Sched.carry
  split
  · exact this
  · exact this

/-- **One segment.** -/
theorem step {a : Label} {o : List Event} (h : DueInv S) (hinv : TickInv S) (hqueue : QueueInv S [])
    (hs : S.step a = some (S', o)) : DueInv S' := by
  have hst := Sched.stepped hs
  cases hst with
  | tick hnow => exact h.tick hinv hqueue hnow
  | reload hnow => exact h.reload _ _ hnow
  | _ => exact h.requeues ((Sched.stepped hs).kept rfl) ((Sched.stepped hs).requeues rfl rfl) (Sched.stepped hs).mono_le

end DueInv

/-- **Every reachable scheduler.** -/
theorem Sched.On.dueInv {F : Forest} {S : Sched} (h : On F S) : DueInv S := by
  induction h with
  | init settings F wall now stagger => exact .init settings F wall now stagger
  | step h hs ih => exact ih.step h.tickInv h.queueInv hs
  | @restore F S _ records now hn ih =>
    have hq : S.Requeues (S.importState records now).sched :=
      importState_ind S.Requeues records now (fun T _ _ q _ _ _ hT => hT.modify q _ fun _ => rfl) (.refl S)
    exact ih.requeues ((Kept.importState S records now).trans
      ⟨rfl, rfl, rfl, fun _ => rfl, fun _ => rfl, fun _ => rfl, fun _ => rfl⟩) ⟨hq.nextDue, hq.heap, hq.heap_subset⟩ hn

end Psysmon
