import Psysmon.Engine.Scheduler

/-!
# Psysmon.Engine.Queue — every scheduled node is in exactly one place

A scheduled node waits on the heap or has a check task, never both and never neither.  Between the pop of an entry
(or the end of a task) and the next write the node in question is in neither place; `QueueInv S [r]` is the
invariant with `r` so afloat, `QueueInv S []` the invariant between two segments.

* `QueueInv.step`: one segment, from any state with the invariant.
* `heap_discipline`: every state reached from construction.
-/

namespace Psysmon

namespace Sched

/-- Entries of `r` on the heap. -/
def heapCount (S : Sched) (r : ℕ) : ℕ := S.heap.countP (·.sched = r)

/-- Pending check tasks of `r`. -/
def taskCount (S : Sched) (r : ℕ) : ℕ := S.tasks.countP (·.1 = r)

/-- `r` waits on the heap, or is in flight. -/
def Home (S : Sched) (r : ℕ) : Prop :=
  (S.heapCount r = 1 ∧ (S.objs r).inFlight = false ∧ S.taskCount r = 0) ∨
    (S.heapCount r = 0 ∧ (S.objs r).inFlight = true ∧ S.taskCount r = 1)

theorem push_heapCount (S : Sched) (r q : ℕ) :
    (S.push r).heapCount q = S.heapCount q + if r = q then 1 else 0 := by
  unfold heapCount
  rw [(S.push_heap_perm r).countP_eq, List.countP_cons]
  simp

end Sched

/-- The queue invariant with the nodes of `float` in neither place. -/
structure QueueInv (S : Sched) (float : List ℕ) : Prop where
  nodup : S.scheduled.Nodup
  alive_iff : ∀ r, (S.objs r).alive = true ↔ r ∈ S.scheduled
  sched_lt : ∀ r ∈ S.scheduled, r < S.fresh
  task_lt : ∀ t ∈ S.tasks, t.1 < S.fresh
  heap_mem : ∀ e ∈ S.heap, e.sched ∈ S.scheduled
  seq_lt : ∀ e ∈ S.heap, e.seq < S.heapSeq
  seq_nodup : (S.heap.map Entry.seq).Nodup
  home : ∀ r ∈ S.scheduled, r ∉ float → S.Home r
  task_le : ∀ r, S.taskCount r ≤ 1
  floating : ∀ r ∈ float, S.heapCount r = 0 ∧ S.taskCount r = 0

namespace QueueInv

variable {S : Sched} {float : List ℕ} {r : ℕ}

/-! ### The writes a segment is made of -/

/-- A change that touches neither the queue nor, afloat nodes apart, the flags. -/
theorem congr {S' : Sched} (h : QueueInv S float) (h1 : S'.scheduled = S.scheduled) (h2 : S'.fresh = S.fresh)
    (h3 : S'.tasks = S.tasks) (h4 : S'.heap = S.heap) (h5 : S'.heapSeq = S.heapSeq)
    (h6 : ∀ q, (S'.objs q).alive = (S.objs q).alive)
    (h7 : ∀ q ∉ float, (S'.objs q).inFlight = (S.objs q).inFlight) : QueueInv S' float := by
  have hheap : ∀ q, S'.heapCount q = S.heapCount q := fun q => by unfold Sched.heapCount; rw [h4]
  have htask : ∀ q, S'.taskCount q = S.taskCount q := fun q => by unfold Sched.taskCount; rw [h3]
  refine ⟨h1 ▸ h.nodup, fun q => ?_, ?_, ?_, ?_, ?_, h4 ▸ h.seq_nodup, fun q hq hfl => ?_, fun q => ?_, fun q hq => ?_⟩
  · rw [h6, h1]
    exact h.alive_iff q
  · rw [h1, h2]
    exact h.sched_lt
  · rw [h3, h2]
    exact h.task_lt
  · rw [h4, h1]
    exact h.heap_mem
  · rw [h4, h5]
    exact h.seq_lt
  · unfold Sched.Home
    rw [hheap, htask, h7 q hfl]
    exact h.home q (h1 ▸ hq) hfl
  · rw [htask]
    exact h.task_le q
  · rw [hheap, htask]
    exact h.floating q hq

/-- A write to the object `r`. -/
theorem modify (h : QueueInv S float) (r : ℕ) (f : Scheduled → Scheduled) (ha : ∀ o, (f o).alive = o.alive)
    (hi : r ∈ float ∨ ∀ o, (f o).inFlight = o.inFlight) : QueueInv (S.modify r f) float := by
  refine h.congr rfl rfl rfl rfl rfl (fun q => ?_) (fun q hq => ?_)
  · by_cases hqr : q = r
    · subst hqr
      rw [Sched.modify_objs_self]
      exact ha _
    · rw [Sched.modify_objs_of_ne _ _ _ hqr]
  · by_cases hqr : q = r
    · subst hqr
      rw [Sched.modify_objs_self]
      exact hi.resolve_left hq _
    · rw [Sched.modify_objs_of_ne _ _ _ hqr]

theorem modifyState (h : QueueInv S float) (r : ℕ) (f : NodeState → NodeState) :
    QueueInv (S.modifyState r f) float :=
  h.modify r (fun o => { o with state := f o.state }) (fun _ => rfl) (Or.inr fun _ => rfl)

theorem publish (h : QueueInv S float) (b : Bool) : QueueInv (S.publish b) float :=
  h.congr rfl rfl rfl rfl rfl (fun _ => rfl) (fun _ _ => rfl)

/-- The popped node is afloat. -/
theorem pop (h : QueueInv S []) {e : Entry} {rest : List Entry} (hh : S.heap = e :: rest) :
    QueueInv { S with heap := rest } [e.sched] ∧ e.sched ∈ S.scheduled ∧
      (S.objs e.sched).inFlight = false := by
  have he : e.sched ∈ S.scheduled := h.heap_mem e (by simp [hh])
  have hcount : ∀ q, S.heapCount q = rest.countP (·.sched = q) + if e.sched = q then 1 else 0 := by
    intro q
    unfold Sched.heapCount
    rw [hh, List.countP_cons]
    simp
  -- an entry on the heap: the node is not in flight, and this is its only entry
  obtain ⟨h1, h2, h3⟩ : S.heapCount e.sched = 1 ∧ (S.objs e.sched).inFlight = false ∧ S.taskCount e.sched = 0 := by
    refine (h.home _ he (by simp)).resolve_right fun hr => ?_
    have := hcount e.sched
    simp at this
    omega
  refine ⟨⟨h.nodup, h.alive_iff, h.sched_lt, h.task_lt, fun x hx => h.heap_mem x (by simp [hh, hx]),
    fun x hx => h.seq_lt x (by simp [hh, hx]), ?_, fun q hq hfl => ?_, h.task_le, ?_⟩, he, h2⟩
  · have := h.seq_nodup
    rw [hh, List.map_cons, List.nodup_cons] at this
    exact this.2
  · have hne : ¬ e.sched = q := fun hc => hfl (by simp [hc])
    have hc := hcount q
    rw [if_neg hne] at hc
    have := h.home q hq (by simp)
    unfold Sched.Home at this ⊢
    rw [hc] at this
    exact this
  · intro q hq
    obtain rfl := List.mem_singleton.mp hq
    refine ⟨?_, h3⟩
    have hc := hcount e.sched
    rw [h1, if_pos rfl] at hc
    show rest.countP _ = 0
    omega

/-- Its node is afloat once a task is over. -/
theorem taken (h : QueueInv S []) {ph : Phase} (ht : (r, ph) ∈ S.tasks) (t : ℚ) :
    QueueInv (S.resume r ph t) [r] ∧ r < S.fresh ∧
      (r ∈ S.scheduled → (S.objs r).inFlight = true) := by
  have hcount : ∀ q, S.taskCount q = (S.tasks.erase (r, ph)).countP (·.1 = q) + if r = q then 1 else 0 := by
    intro q
    unfold Sched.taskCount
    rw [(List.perm_cons_erase ht).countP_eq, List.countP_cons]
    simp
  have hzero : (S.tasks.erase (r, ph)).countP (·.1 = r) = 0 := by
    have h1 := hcount r
    have h2 := h.task_le r
    simp at h1
    omega
  have hone : S.taskCount r = 1 := by
    have := hcount r
    simp at this
    omega
  have hflight : r ∈ S.scheduled → S.heapCount r = 0 ∧ (S.objs r).inFlight = true := by
    intro hr
    rcases h.home r hr (by simp) with hh | hh
    · omega
    · exact ⟨hh.1, hh.2.1⟩
  refine ⟨⟨h.nodup, h.alive_iff, h.sched_lt, fun x hx => h.task_lt x (List.mem_of_mem_erase hx), h.heap_mem,
    h.seq_lt, h.seq_nodup, fun q hq hfl => ?_, fun q => ?_, ?_⟩, h.task_lt _ ht, fun hr => (hflight hr).2⟩
  · have hne : ¬ r = q := fun hc => hfl (by simp [hc])
    have hc := hcount q
    rw [if_neg hne] at hc
    have := h.home q hq (by simp)
    unfold Sched.Home at this ⊢
    rw [hc] at this
    exact this
  · have h1 := hcount q
    have h2 := h.task_le q
    show (S.tasks.erase (r, ph)).countP _ ≤ 1
    omega
  · intro q hq
    rw [List.mem_singleton.mp hq]
    refine ⟨?_, hzero⟩
    by_cases hr : r ∈ S.scheduled
    · exact (hflight hr).1
    · -- a retired node has no heap entry
      refine List.countP_eq_zero.mpr fun e he => ?_
      simp only [decide_eq_true_eq]
      rintro rfl
      exact hr (h.heap_mem e he)

theorem addTask (h : QueueInv S [r]) (hlt : r < S.fresh)
    (hi : r ∈ S.scheduled → (S.objs r).inFlight = true) (ph : Phase) :
    QueueInv (S.addTask r ph) [] := by
  have hcount : ∀ q, (S.tasks ++ [(r, ph)]).countP (·.1 = q) = S.taskCount q + if r = q then 1 else 0 := by
    intro q
    rw [List.countP_append, List.countP_singleton]
    simp [Sched.taskCount]
  obtain ⟨hf1, hf2⟩ := h.floating r (by simp)
  refine ⟨h.nodup, h.alive_iff, h.sched_lt, fun x hx => ?_, h.heap_mem, h.seq_lt, h.seq_nodup, fun q hq _ => ?_,
    fun q => ?_, by simp⟩
  · rcases List.mem_append.mp hx with hx | hx
    · exact h.task_lt x hx
    · rw [List.mem_singleton.mp hx]
      exact hlt
  · unfold Sched.Home Sched.taskCount
    rw [Sched.addTask_tasks, hcount]
    by_cases hrq : r = q
    · subst hrq
      exact Or.inr ⟨hf1, hi hq, by simp [hf2]⟩
    · rw [if_neg hrq]
      exact h.home q hq (by simpa using Ne.symm hrq)
  · unfold Sched.taskCount
    rw [Sched.addTask_tasks, hcount]
    have := h.task_le q
    split
    · subst_vars
      omega
    · omega

theorem pushed (h : QueueInv S (r :: float)) (hfl : r ∉ float) (hr : r ∈ S.scheduled) (hi : (S.objs r).inFlight = false) :
    QueueInv (S.push r) float := by
  have hperm := S.push_heap_perm r
  obtain ⟨hf1, hf2⟩ := h.floating r (by simp)
  refine ⟨h.nodup, h.alive_iff, h.sched_lt, h.task_lt, fun e he => ?_, fun e he => ?_, ?_, fun q hq hqf => ?_,
    h.task_le, fun q hq => ?_⟩
  · rcases List.mem_cons.mp (hperm.mem_iff.mp he) with rfl | he
    · exact hr
    · exact h.heap_mem e he
  · rw [Sched.push_heapSeq]
    rcases List.mem_cons.mp (hperm.mem_iff.mp he) with rfl | he
    · exact Nat.lt_succ_self _
    · exact Nat.lt_succ_of_lt (h.seq_lt e he)
  · rw [(hperm.map Entry.seq).nodup_iff, List.map_cons, List.nodup_cons]
    refine ⟨fun hm => ?_, h.seq_nodup⟩
    obtain ⟨e, he, hs⟩ := List.mem_map.mp hm
    exact absurd hs (h.seq_lt e he).ne
  · unfold Sched.Home
    rw [Sched.push_heapCount]
    by_cases hrq : r = q
    · subst hrq
      exact Or.inl ⟨by simp [hf1], hi, hf2⟩
    · rw [if_neg hrq]
      exact h.home q hq (by simpa using ⟨Ne.symm hrq, hqf⟩)
  · have hne : ¬ r = q := fun hrq => hfl (hrq ▸ hq)
    rw [Sched.push_heapCount, if_neg hne]
    exact h.floating q (by simp [hq])

/-- The `finally` of `_run_check` puts a live node back and lets go of a retired one. -/
theorem endTask (h : QueueInv S [r]) : QueueInv (S.endTask r) [] := by
  have h1 := h.modify r (fun o => { o with inFlight := false }) (fun _ => rfl) (Or.inl (by simp))
  unfold Sched.endTask
  dsimp only
  split
  · rename_i ha
    exact h1.pushed (by simp) ((h1.alive_iff r).mp ha) (by simp)
  · rename_i ha
    have hr : r ∉ (S.modify r fun o => { o with inFlight := false }).scheduled := fun hr =>
      ha ((h1.alive_iff r).mpr hr)
    exact ⟨h1.nodup, h1.alive_iff, h1.sched_lt, h1.task_lt, h1.heap_mem, h1.seq_lt, h1.seq_nodup,
      fun q hq _ => h1.home q hq (fun hqr => hr (List.mem_singleton.mp hqr ▸ hq)), h1.task_le, by simp⟩

/-! ### Segments -/

theorem dispatch (h : QueueInv S [r]) (hr : r ∈ S.scheduled) (hi : (S.objs r).inFlight = false) (now : ℚ) :
    QueueInv (S.dispatch now r) [] := by
  have h1 := h.modify r (fun o => { o with nextDue := now + o.interval }) (fun _ => rfl) (Or.inr fun _ => rfl)
  unfold Sched.dispatch
  dsimp only
  split
  · exact (h1.modify r (fun o => { o with inFlight := true }) (fun _ => rfl) (Or.inl (by simp))).addTask
      (h.sched_lt r hr) (fun _ => by simp) .running
  · exact (h1.modifyState r _).pushed (by simp) hr (by simpa [Sched.modifyState] using hi)

theorem tickLoop (now : ℚ) : ∀ (n : ℕ) {S : Sched}, QueueInv S [] → QueueInv (Sched.tickLoop now n S) []
  | 0, _, h => h
  | n + 1, S, h => by
    unfold Sched.tickLoop
    split
    · exact h
    · rename_i e rest hh
      split
      · obtain ⟨h1, hr, hi⟩ := h.pop hh
        exact tickLoop now n (h1.dispatch hr hi now)
      · exact h

theorem applyVerdict (h : QueueInv S [r]) (hlt : r < S.fresh)
    (hi : r ∈ S.scheduled → (S.objs r).inFlight = true) (code : ℤ) (wall now later : ℚ) :
    QueueInv (S.applyVerdict r code wall now later).1 [] := by
  unfold Sched.applyVerdict
  split
  · exact h.endTask
  · split
    · exact (h.modifyState r _).endTask
    · have h1 := h.modify r (fun o => { o with
        state := (applyAndPage (S.pagingCfg r) (S.objs r).state code wall now later).1, checked := true })
        (fun _ => rfl) (Or.inr fun _ => rfl)
      dsimp only
      split
      · exact h1.addTask hlt (fun hr => by simpa using hi hr) _
      · exact (h1.publish _).endTask

theorem applySent (h : QueueInv S [r]) (p : Page) (ch : Bool) (out : SendOutcome) (now : ℚ) :
    QueueInv (S.applySent r p ch out now) [] :=
  ((h.modifyState r _).publish _).endTask

theorem mapStates (h : QueueInv S []) (rs : List ℕ) (f : NodeState → NodeState) :
    QueueInv (S.mapStates rs f) [] := by
  refine h.congr rfl rfl rfl rfl rfl (fun q => ?_) (fun q _ => ?_) <;>
  · simp only [Sched.mapStates]
    split <;> rfl

/-- `_build_heap`: pushing the nodes afloat one after the other leaves none afloat. -/
theorem foldl_push : ∀ (refs : List ℕ) {S : Sched}, QueueInv S refs → refs.Nodup →
    (∀ r ∈ refs, r ∈ S.scheduled ∧ (S.objs r).inFlight = false) → QueueInv (refs.foldl Sched.push S) []
  | [], _, h, _, _ => h
  | r :: refs, S, h, hn, hr => by
    rw [List.nodup_cons] at hn
    obtain ⟨h1, h2⟩ := hr r (by simp)
    exact foldl_push refs (h.pushed hn.1 h1 h2) hn.2 (fun q hq => hr q (by simp [hq]))

/-- A new set of objects, none of them in flight, over any old state. -/
theorem install (h : QueueInv S []) (news : List Scheduled)
    (hnew : ∀ o ∈ news, o.alive = true ∧ o.inFlight = false) : QueueInv (S.install news) [] := by
  have hnew' : ∀ q ∈ S.newRefs news, (S.allocate news q).alive = true ∧ (S.allocate news q).inFlight = false := by
    intro q hq
    obtain ⟨o, ho, heq⟩ := S.allocate_new news hq
    rw [heq]
    exact hnew o ho
  have htask : ∀ q, S.fresh ≤ q → S.taskCount q = 0 := by
    intro q hq
    refine List.countP_eq_zero.mpr fun t ht => ?_
    have := h.task_lt t ht
    simp only [decide_eq_true_eq]
    omega
  refine foldl_push (S.newRefs news) ⟨S.newRefs_nodup news, fun q => ?_, fun q hq => ?_, fun t ht => ?_, by simp,
    by simp, by simp, fun q hq hfl => absurd hq hfl, h.task_le, fun q hq => ⟨rfl, ?_⟩⟩ (S.newRefs_nodup news)
    (fun q hq => ⟨hq, (hnew' q hq).2⟩)
  · refine ⟨fun ha => ?_, fun hq => (hnew' q hq).1⟩
    have ha : (S.allocate news q).alive = true := ha
    by_contra hq
    rw [S.mem_newRefs] at hq
    by_cases hlt : q < S.fresh
    · -- every older object is retired by now
      rw [S.allocate_old news hlt, Bool.and_eq_true] at ha
      exact absurd ((h.alive_iff q).mp ha.1) (by simpa using ha.2)
    · rw [S.allocate_beyond news (by omega)] at ha
      exact hlt (h.sched_lt q ((h.alive_iff q).mp ha))
  · exact ((S.mem_newRefs news).mp hq).2
  · have := h.task_lt t ht
    dsimp only
    omega
  · exact htask q ((S.mem_newRefs news).mp hq).1

end QueueInv

/-- A `_Scheduled` from `_flatten` is alive and waits. -/
theorem Sched.mem_newScheduled {settings : Settings} {F : Forest} {base : ℕ} {wall : ℕ → ℚ} {now : ℚ} {stagger : Bool}
    {o : Scheduled} (ho : o ∈ newScheduled settings F base wall now stagger) :
    o.alive = true ∧ o.inFlight = false ∧ o.checked = false ∧
      ∃ n w, o.state = { maxDown := n.maxDown, lastUp := w } ∧ o.node = n := by
  obtain ⟨i, hi, rfl⟩ := List.mem_iff_getElem.mp ho
  simp only [newScheduled, List.getElem_mapIdx]
  exact ⟨rfl, rfl, rfl, _, _, rfl, rfl⟩

theorem QueueInv.reload {S : Sched} (h : QueueInv S []) (F : Forest) (wall : ℕ → ℚ) (now : ℚ) :
    QueueInv (S.reload F wall now) [] := by
  refine (h.install ((Sched.newScheduled S.settings F S.fresh wall now true).map S.carry) fun o ho => ?_).congr
    rfl rfl rfl rfl rfl (fun _ => rfl) (fun _ _ => rfl)
  obtain ⟨o', ho', rfl⟩ := List.mem_map.mp ho
  obtain ⟨h1, h2, -⟩ := Sched.mem_newScheduled ho'
  unfold Sched.carry
  split
  · exact ⟨h1, h2⟩
  · exact ⟨h1, h2⟩

theorem QueueInv.init (settings : Settings) (F : Forest) (wall : ℕ → ℚ) (now : ℚ) (stagger : Bool) :
    QueueInv (Sched.init settings F wall now stagger) [] := by
  refine QueueInv.install ⟨by simp, by simp, by simp, by simp, by simp, by simp, by simp, by simp,
    by simp [Sched.taskCount], by simp⟩ _ fun o ho => ?_
  obtain ⟨h1, h2, -⟩ := Sched.mem_newScheduled ho
  exact ⟨h1, h2⟩

/-- **One segment keeps every scheduled node in exactly one place.** -/
theorem QueueInv.step {S S' : Sched} {a : Label} {o : List Event} (h : QueueInv S []) (hs : S.step a = some (S', o)) :
    QueueInv S' [] := by
  cases Sched.stepped hs with
  | @tick now _ =>
    have h1 : QueueInv { S with mono := now } [] := h.congr rfl rfl rfl rfl rfl (fun _ => rfl) (fun _ _ => rfl)
    exact h1.tickLoop _ _
  | raised ht => exact (h.taken ht _).1.endTask
  | verdict ht =>
    obtain ⟨h1, hlt, hi⟩ := h.taken ht _
    exact h1.applyVerdict hlt hi _ _ _ _
  | sent ht => exact (h.taken ht _).1.applySent _ _ _ _
  | ack => exact (h.mapStates _ _).publish _
  | setNote => exact (h.mapStates _ _).publish _
  | nodeStates =>
    refine h.congr rfl rfl rfl rfl rfl (fun q => ?_) (fun q _ => ?_) <;>
    · simp only [Sched.nodeStates]
      split <;> rfl
  | clearDirty => exact h.congr rfl rfl rfl rfl rfl (fun _ => rfl) (fun _ _ => rfl)
  | reload => exact h.reload _ _ _

theorem QueueInv.exec {settings : Settings} {F : Forest} {wall : ℕ → ℚ} {now : ℚ} {stagger : Bool} {as : List Label}
    {S : Sched} {tr : List Event} (he : Lib.exec Sched.step (Sched.init settings F wall now stagger) as = some (S, tr)) :
    QueueInv S [] :=
  Lib.exec_inv_state (P := fun _ _ => True) (fun S => QueueInv S []) (fun _ _ _ _ h _ hs => h.step hs)
    (QueueInv.init settings F wall now stagger) (Lib.along_of_forall as _ fun _ _ _ => trivial) he

/-- The tuple comparison of two heap entries gets as far as the `_Scheduled` objects. -/
def Entry.ComparesScheduled (a b : Entry) : Prop := a.due = b.due ∧ a.seq = b.seq

/-- **Heap discipline.**  In every reachable state a scheduled node is on the heap exactly once and not in flight, or
off the heap with exactly one pending task; no retired node is on the heap; and the `seq` numbers are distinct, among
the entries and from the next push, so that no comparison ever reaches two `_Scheduled` objects. -/
theorem heap_discipline (settings : Settings) (F : Forest) (wall : ℕ → ℚ) (now : ℚ) (stagger : Bool) (as : List Label)
    (S : Sched) (tr : List Event)
    (he : Lib.exec Sched.step (Sched.init settings F wall now stagger) as = some (S, tr)) :
    (∀ r ∈ S.scheduled,
      (S.heapCount r = 1 ∧ (S.objs r).inFlight = false) ∨
        (S.heapCount r = 0 ∧ (S.objs r).inFlight = true ∧ S.taskCount r = 1)) ∧
    (∀ r, (S.objs r).alive = false → S.heapCount r = 0) ∧
    (S.heap.map Entry.seq).Nodup ∧
    S.heap.Pairwise (fun a b => ¬ a.ComparesScheduled b) ∧
    ∀ e ∈ S.heap, ∀ r, ¬ e.ComparesScheduled ⟨(S.objs r).nextDue, S.heapSeq, r⟩ := by
  have h := QueueInv.exec he
  refine ⟨fun r hr => ?_, fun r ha => ?_, h.seq_nodup, ?_, fun e he r hc => (h.seq_lt e he).ne hc.2⟩
  · rcases h.home r hr (by simp) with ⟨h1, h2, -⟩ | h1
    · exact Or.inl ⟨h1, h2⟩
    · exact Or.inr h1
  · refine List.countP_eq_zero.mpr fun e he => ?_
    simp only [decide_eq_true_eq]
    rintro rfl
    rw [(h.alive_iff _).mpr (h.heap_mem e he)] at ha
    exact absurd ha (by simp)
  · exact (List.pairwise_map.mp h.seq_nodup).imp fun hne hc => hne hc.2

/-- A router with one web server behind it. -/
def gatewayForest : Forest where
  objs := [({ hostname := "gw".toList, checkType := .ping }, [1]), ({ hostname := "www".toList, checkType := .tcp, port := 80 }, [])]
  roots := [0]
  roots_lt := by decide
  children_lt := by decide

/-- A run in which the router's check, in flight at a reload, ends on the retired object. -/
theorem heap_discipline_across_reload : ∃ S tr,
    Lib.exec Sched.step (Sched.init {} gatewayForest (fun _ => 0) 0 true)
      [.tick 0, .reload gatewayForest (fun _ => 5) 1, .finish 0 (some 0) 9 2 2, .tick 40] = some (S, tr) ∧
    (∀ r ∈ S.scheduled,
      (S.heapCount r = 1 ∧ (S.objs r).inFlight = false) ∨
        (S.heapCount r = 0 ∧ (S.objs r).inFlight = true ∧ S.taskCount r = 1)) ∧
    ∀ r, (S.objs r).alive = false → S.heapCount r = 0 := by
  have hrun : (Lib.exec Sched.step (Sched.init {} gatewayForest (fun _ => 0) 0 true)
      [.tick 0, .reload gatewayForest (fun _ => 5) 1, .finish 0 (some 0) 9 2 2, .tick 40]).isSome = true := by
    decide +kernel
  obtain ⟨⟨S, tr⟩, he⟩ := Option.isSome_iff_exists.mp hrun
  have h := heap_discipline {} gatewayForest (fun _ => 0) 0 true _ S tr he
  exact ⟨S, tr, he, h.1, h.2.1⟩

end Psysmon
