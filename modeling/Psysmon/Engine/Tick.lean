import Psysmon.Config.Modern
import Psysmon.Engine.Gate

/-!
# Psysmon.Engine.Tick — one pass of the run loop

`tick` drains the heap while it pushes entries back onto it.  `Ticked` is its loop without a bound; that it ends rests
on the floor under every interval, which puts an entry pushed back into the future.

* `TickInv`: the heap is sorted and every interval is positive, in every reachable state.
* `tick_drains`: each entry that is due is popped once and no other; what happens to it; what is left on the heap.
* `nextDelay_pos_iff`: when the delay until the next pass is positive.
-/

namespace Psysmon

open Lib

/-! ### The heap is sorted and intervals are positive -/

theorem Entry.le_total (a b : Entry) : a.le b ∨ b.le a := by
  unfold Entry.le
  rcases lt_trichotomy a.due b.due with h | h | h
  · exact .inl (.inl h)
  · rcases Nat.le_total a.seq b.seq with hs | hs
    · exact .inl (.inr ⟨h, hs⟩)
    · exact .inr (.inr ⟨h.symm, hs⟩)
  · exact .inr (.inl h)

theorem Entry.le_trans {a b c : Entry} (hab : a.le b) (hbc : b.le c) : a.le c := by
  unfold Entry.le at *
  rcases hab with hab | ⟨hab, hs⟩
  · rcases hbc with hbc | ⟨hbc, -⟩
    · exact .inl (hab.trans hbc)
    · exact .inl (hbc ▸ hab)
  · rcases hbc with hbc | ⟨hbc, ht⟩
    · exact .inl (hab ▸ hbc)
    · exact .inr ⟨hab.trans hbc, hs.trans ht⟩

theorem Entry.due_le {a b : Entry} (h : a.le b) : a.due ≤ b.due := by
  rcases h with h | ⟨h, -⟩
  · exact h.le
  · exact h.le

instance : Std.Total Entry.le := ⟨Entry.le_total⟩

instance : IsTrans Entry Entry.le := ⟨fun _ _ _ => Entry.le_trans⟩

theorem minIntervalS_pos : 0 < minIntervalS := by
  unfold minIntervalS
  norm_num

theorem effectiveInterval_pos (settings : Settings) (n : Node) : 0 < effectiveInterval settings n :=
  lt_of_lt_of_le minIntervalS_pos (le_max_right _ _)

/-- What the loop of `tick` relies on. -/
structure TickInv (S : Sched) : Prop where
  sorted : S.heap.Pairwise Entry.le
  interval_pos : ∀ r < S.fresh, 0 < (S.objs r).interval

namespace Sched

variable {S : Sched}

theorem sorted_push (h : S.heap.Pairwise Entry.le) (r : ℕ) : (S.push r).heap.Pairwise Entry.le :=
  h.orderedInsert _ _

theorem sorted_endTask (h : S.heap.Pairwise Entry.le) (r : ℕ) : (S.endTask r).heap.Pairwise Entry.le := by
  unfold endTask
  dsimp only
  split
  · refine sorted_push ?_ r
    exact h
  · exact h

theorem sorted_dispatch (h : S.heap.Pairwise Entry.le) (now : ℚ) (r : ℕ) :
    (S.dispatch now r).heap.Pairwise Entry.le := by
  unfold dispatch
  dsimp only
  split
  · exact h
  · refine sorted_push ?_ r
    exact h

theorem sorted_tickLoop (now : ℚ) : ∀ (n : ℕ) {S : Sched}, S.heap.Pairwise Entry.le →
    (tickLoop now n S).heap.Pairwise Entry.le
  | 0, _, h => h
  | n + 1, S, h => by
    unfold tickLoop
    split
    · exact h
    · rename_i e rest hh
      rw [hh] at h
      split
      · exact sorted_tickLoop now n (sorted_dispatch h.of_cons now e.sched)
      · rw [hh]
        exact h

theorem sorted_applyVerdict (h : S.heap.Pairwise Entry.le) (r : ℕ) (code : ℤ) (wall now later : ℚ) :
    (S.applyVerdict r code wall now later).1.heap.Pairwise Entry.le := by
  unfold applyVerdict
  split
  · exact sorted_endTask h r
  split
  · refine sorted_endTask ?_ r
    exact h
  dsimp only
  split
  · exact h
  · refine sorted_endTask ?_ r
    exact h

theorem sorted_install (S : Sched) (news : List Scheduled) : (S.install news).heap.Pairwise Entry.le := by
  have hfold : ∀ (refs : List ℕ) (T : Sched), T.heap.Pairwise Entry.le → (refs.foldl push T).heap.Pairwise Entry.le := by
    intro refs
    induction refs with
    | nil => exact fun T h => h
    | cons r refs ih => exact fun T h => ih (T.push r) (sorted_push h r)
  exact hfold _ _ List.Pairwise.nil

theorem interval_install {news : List Scheduled} (h : ∀ r < S.fresh, 0 < (S.objs r).interval)
    (hnew : ∀ o ∈ news, 0 < o.interval) : ∀ r < (S.install news).fresh, 0 < ((S.install news).objs r).interval := by
  obtain ⟨_, _, hS⟩ := S.install_frame news
  rw [hS]
  intro r hr
  dsimp only at hr ⊢
  by_cases hold : r < S.fresh
  · rw [S.allocate_old news hold]
    exact h r hold
  · obtain ⟨o, ho, heq⟩ := S.allocate_new news ((S.mem_newRefs news).mpr ⟨Nat.le_of_not_lt hold, hr⟩)
    rw [heq]
    exact hnew o ho

theorem interval_newScheduled {settings : Settings} {F : Forest} {base : ℕ} {wall : ℕ → ℚ} {now : ℚ} {stagger : Bool}
    {o : Scheduled} (ho : o ∈ newScheduled settings F base wall now stagger) : 0 < o.interval := by
  obtain ⟨i, hi, rfl⟩ := List.mem_iff_getElem.mp ho
  simp only [newScheduled, List.getElem_mapIdx]
  exact effectiveInterval_pos settings _

end Sched

theorem TickInv.init (settings : Settings) (F : Forest) (wall : ℕ → ℚ) (now : ℚ) (stagger : Bool) :
    TickInv (Sched.init settings F wall now stagger) where
  sorted := Sched.sorted_install _ _
  interval_pos := Sched.interval_install (fun r hr => absurd hr (Nat.not_lt_zero r))
    fun _ ho => Sched.interval_newScheduled ho

theorem TickInv.reload {S : Sched} (h : TickInv S) (F : Forest) (wall : ℕ → ℚ) (now : ℚ) :
    TickInv (S.reload F wall now) where
  sorted := Sched.sorted_install _ _
  interval_pos := by
    refine Sched.interval_install h.interval_pos fun o ho => ?_
    obtain ⟨o', ho', rfl⟩ := List.mem_map.mp ho
    have := Sched.interval_newScheduled ho'
    unfold Sched.carry
    split
    · exact this
    · exact this

theorem TickInv.step {S S' : Sched} {a : Label} {o : List Event} (h : TickInv S) (hs : S.step a = some (S', o)) :
    TickInv S' := by
  by_cases ha : a.isReload = true
  · cases Sched.stepped hs with
    | @reload F wall now _ => exact h.reload F wall now
    | _ => simp [Label.isReload] at ha
  · have hk := (Sched.stepped hs).kept (by simpa using ha)
    refine ⟨?_, fun r hr => ?_⟩
    · cases Sched.stepped hs with
      | tick => exact Sched.sorted_tickLoop _ _ h.sorted
      | raised => exact Sched.sorted_endTask (S := S.resume _ _ _) h.sorted _
      | verdict => exact Sched.sorted_applyVerdict (S := S.resume _ _ _) h.sorted _ _ _ _ _
      | @sent r p ch out _ now =>
        let T := (S.resume r (.sending p ch) now).modifyState r fun st => afterSend st p out now
        exact Sched.sorted_endTask (S := T.publish (ch && out ≠ .raised)) h.sorted r
      | reload => exact absurd rfl ha
      | ack | setNote | nodeStates | clearDirty => exact h.sorted
    · rw [hk.fresh] at hr
      rw [hk.interval]
      exact h.interval_pos r hr

theorem TickInv.exec {settings : Settings} {F : Forest} {wall : ℕ → ℚ} {start : ℚ} {stagger : Bool} {as : List Label}
    {S : Sched} {tr : List Event}
    (he : Lib.exec Sched.step (Sched.init settings F wall start stagger) as = some (S, tr)) : TickInv S :=
  exec_inv_state (P := fun _ _ => True) TickInv (fun _ _ _ _ h _ hs => h.step hs)
    (TickInv.init settings F wall start stagger) (along_of_forall as _ fun _ _ _ => trivial) he

/-! ### The loop of `tick` -/

/-- The loop of `tick` without a bound: from `S` it pops the entries `popped`, one after the other, and ends in `S'`. -/
inductive Ticked (now : ℚ) : Sched → List Entry → Sched → Prop
  | stop {S : Sched} (h : ∀ e ∈ S.heap.head?, now < e.due) : Ticked now S [] S
  | pop {S S' : Sched} {e : Entry} {rest popped : List Entry} (hh : S.heap = e :: rest) (hd : e.due ≤ now)
    (h : Ticked now ({ S with heap := rest }.dispatch now e.sched) popped S') : Ticked now S (e :: popped) S'

/-- The entries that are due. -/
def Sched.due (S : Sched) (now : ℚ) : List Entry := S.heap.filter (·.due ≤ now)

/-- The entries that are not. -/
def Sched.later (S : Sched) (now : ℚ) : List Entry := S.heap.filter (now < ·.due)

/-- The object of a popped entry, once `tick` is done with it. -/
def Sched.afterPop (S : Sched) (now : ℚ) (r : ℕ) : Scheduled :=
  if S.eligible r then { S.objs r with nextDue := now + (S.objs r).interval, inFlight := true }
  else { S.objs r with
    nextDue := now + (S.objs r).interval
    state := { (S.objs r).state with suppressed := true } }

namespace Sched

variable {S : Sched} {now : ℚ} {r : ℕ}

/-- Eligibility depends on the gates, the checked flags and the last results alone. -/
theorem eligible_congr (S T : Sched) (hf : T.fresh = S.fresh) (hg : ∀ q, (T.objs q).gate = (S.objs q).gate)
    (hu : ∀ q, T.usable q = S.usable q) (q : ℕ) : T.eligible q = S.eligible q := by
  have hhops : T.hops = S.hops := funext fun p => by rw [hops, hops, hu, hg]
  have hroot : T.liveRoot = S.liveRoot := funext fun p => by rw [liveRoot, liveRoot, hu, hg]
  have hfuel : T.gateFuel q = S.gateFuel q := by
    unfold gateFuel
    rw [hf, hg, funext fun p => congrArg List.length (hg p)]
  rw [eligible, eligible, hhops, hroot, hfuel, hg]

theorem eligible_modify (f : Scheduled → Scheduled)
    (hf : ∀ o, (f o).gate = o.gate ∧ (f o).checked = o.checked ∧ (f o).state.lastcheck = o.state.lastcheck) (q : ℕ) :
    (S.modify r f).eligible q = S.eligible q := by
  have hobj (p : ℕ) : ((S.modify r f).objs p).gate = (S.objs p).gate ∧ (S.modify r f).usable p = S.usable p := by
    unfold usable
    by_cases hp : p = r
    · subst hp
      obtain ⟨h1, h2, h3⟩ := hf (S.objs p)
      rw [modify_objs_self, h1, h2, h3]
      exact ⟨rfl, rfl⟩
    · rw [modify_objs_of_ne _ _ _ hp]
      exact ⟨rfl, rfl⟩
  exact eligible_congr S (S.modify r f) rfl (fun p => (hobj p).1) (fun p => (hobj p).2) q

/-- The dispatch of an eligible node. -/
theorem dispatch_of_eligible (h : S.eligible r = true) : S.dispatch now r =
    { S with objs := Function.update S.objs r (S.afterPop now r), tasks := S.tasks ++ [(r, .running)] } := by
  have he : (S.modify r fun o => { o with nextDue := now + o.interval }).eligible r = true :=
    (eligible_modify (fun o => { o with nextDue := now + o.interval }) (fun _ => ⟨rfl, rfl, rfl⟩) r).trans h
  unfold dispatch
  dsimp only
  rw [if_pos he]
  simp [addTask, modify, afterPop, h]

/-- A node that is not eligible is re-queued. -/
theorem dispatch_of_not_eligible (h : S.eligible r = false) : S.dispatch now r =
    { S with
      objs := Function.update S.objs r (S.afterPop now r)
      heap := heappush S.heap ⟨now + (S.objs r).interval, S.heapSeq, r⟩
      heapSeq := S.heapSeq + 1 } := by
  have he : (S.modify r fun o => { o with nextDue := now + o.interval }).eligible r = false :=
    (eligible_modify (fun o => { o with nextDue := now + o.interval }) (fun _ => ⟨rfl, rfl, rfl⟩) r).trans h
  unfold dispatch
  dsimp only
  rw [if_neg (by rw [he]; exact Bool.false_ne_true)]
  simp [push, modifyState, modify, afterPop, h]

theorem dispatch_objs : (S.dispatch now r).objs = Function.update S.objs r (S.afterPop now r) := by
  cases h : S.eligible r with
  | true => rw [dispatch_of_eligible h]
  | false => rw [dispatch_of_not_eligible h]

theorem eligible_dispatch (q : ℕ) : (S.dispatch now r).eligible q = S.eligible q := by
  have hobj (p : ℕ) : ((S.dispatch now r).objs p).gate = (S.objs p).gate ∧
      (S.dispatch now r).usable p = S.usable p := by
    unfold usable
    rw [dispatch_objs]
    by_cases hp : p = r
    · subst hp
      rw [Function.update_self, afterPop]
      split
      · exact ⟨rfl, rfl⟩
      · exact ⟨rfl, rfl⟩
    · rw [Function.update_of_ne hp]
      exact ⟨rfl, rfl⟩
  exact eligible_congr S _ ((Kept.refl S).dispatch now r).fresh (fun p => (hobj p).1) (fun p => (hobj p).2) q

theorem mem_heap_dispatch {e : Entry} (he : e ∈ (S.dispatch now r).heap) : e ∈ S.heap ∨ e.sched = r := by
  cases h : S.eligible r with
  | true =>
    rw [dispatch_of_eligible h] at he
    exact .inl he
  | false =>
    rw [dispatch_of_not_eligible h] at he
    rcases (List.mem_orderedInsert _).mp he with rfl | he
    · exact .inr rfl
    · exact .inl he

/-- An entry pushed into the future is not due. -/
theorem due_heappush {h : List Entry} {e : Entry} (he : now < e.due) :
    (heappush h e).filter (·.due ≤ now) = h.filter (·.due ≤ now) := by
  have hne : ¬ e.due ≤ now := not_le.mpr he
  unfold heappush
  induction h with
  | nil => simp [hne]
  | cons a h ih =>
    rw [List.orderedInsert_cons]
    split
    · rw [List.filter_cons_of_neg (by simpa using he)]
    · rw [List.filter_cons, List.filter_cons, ih]

theorem due_dispatch (hi : 0 < (S.objs r).interval) : (S.dispatch now r).due now = S.due now := by
  cases h : S.eligible r with
  | true => rw [dispatch_of_eligible h]; rfl
  | false =>
    rw [dispatch_of_not_eligible h]
    exact due_heappush (lt_add_of_pos_right now hi)

end Sched

/-- Where no entry is due the loop stops. -/
theorem Ticked.of_due_eq_nil {S : Sched} {now : ℚ} (h : S.due now = []) : Ticked now S (S.due now) S := by
  rw [h]
  refine .stop fun e he => ?_
  by_contra hle
  have hmem : e ∈ S.due now := List.mem_filter.mpr ⟨List.mem_of_mem_head? he, by simpa using hle⟩
  rw [h] at hmem
  cases hmem

/-- The loop goes on as long as an entry is due, since the heap is sorted, and a pass of it takes one of them away,
since what it pushes lies in the future. -/
theorem ticked_tickLoop {now : ℚ} : ∀ (n : ℕ) {S : Sched}, TickInv S → (∀ e ∈ S.heap, e.sched < S.fresh) →
    (S.due now).length ≤ n → Ticked now S (S.due now) (Sched.tickLoop now n S)
  | 0, S, _, _, hn => .of_due_eq_nil (List.length_eq_zero_iff.mp (Nat.le_zero.mp hn))
  | n + 1, S, hinv, hlt, hn => by
    unfold Sched.tickLoop
    split
    · rename_i hh
      exact .of_due_eq_nil (by rw [Sched.due, hh]; rfl)
    rename_i e rest hh
    have hsorted := hinv.sorted
    rw [hh] at hsorted
    split
    · rename_i hd
      let T : Sched := { S with heap := rest }
      have hpos : 0 < (T.objs e.sched).interval := hinv.interval_pos _ (hlt e (by simp [hh]))
      have hT : S.Kept T := ⟨rfl, rfl, rfl, fun _ => rfl, fun _ => rfl, fun _ => rfl, fun _ => rfl⟩
      have hk : S.Kept (T.dispatch now e.sched) := hT.dispatch now e.sched
      have hdue : S.due now = e :: (T.dispatch now e.sched).due now := by
        rw [Sched.due_dispatch hpos, Sched.due, hh, List.filter_cons_of_pos (by simpa using hd)]
        rfl
      have hinv' : TickInv (T.dispatch now e.sched) := by
        refine ⟨Sched.sorted_dispatch hsorted.of_cons now e.sched, fun r hr => ?_⟩
        rw [hk.interval]
        exact hinv.interval_pos r (hk.fresh ▸ hr)
      have hlt' : ∀ x ∈ (T.dispatch now e.sched).heap, x.sched < (T.dispatch now e.sched).fresh := by
        intro x hx
        rw [hk.fresh]
        rcases Sched.mem_heap_dispatch hx with hx | hx
        · exact hlt x (by rw [hh]; exact List.mem_cons_of_mem e hx)
        · rw [hx]
          exact hlt e (by simp [hh])
      rw [hdue]
      rw [hdue] at hn
      exact .pop hh hd (ticked_tickLoop n hinv' hlt' (Nat.le_of_succ_le_succ hn))
    · rename_i hd
      refine .of_due_eq_nil (List.filter_eq_nil_iff.mpr fun x hx => ?_)
      rw [hh] at hx
      have hle : e.due ≤ x.due := by
        rcases List.mem_cons.mp hx with rfl | hx
        · exact le_rfl
        · exact Entry.due_le (List.rel_of_pairwise_cons hsorted hx)
      simpa using lt_of_lt_of_le (not_le.mp hd) hle

/-! ### What the loop does to the entries it pops -/

namespace Ticked

variable {S S' : Sched} {now : ℚ} {popped : List Entry}

theorem tasks (h : Ticked now S popped S') :
    S'.tasks = S.tasks ++ (popped.filter fun e => S.eligible e.sched).map fun e => (e.sched, .running) := by
  induction h with
  | stop => rw [List.filter_nil, List.map_nil, List.append_nil]
  | @pop S S' e rest popped hh hd h ih =>
    have hel (q : ℕ) : ({ S with heap := rest }.dispatch now e.sched).eligible q = S.eligible q :=
      Sched.eligible_dispatch q
    rw [ih]
    simp only [hel]
    cases he : S.eligible e.sched with
    | true =>
      have he' : { S with heap := rest }.eligible e.sched = true := he
      rw [Sched.dispatch_of_eligible he', List.filter_cons, if_pos he, List.map_cons, List.append_assoc,
        List.singleton_append]
    | false =>
      have he' : { S with heap := rest }.eligible e.sched = false := he
      rw [Sched.dispatch_of_not_eligible he', List.filter_cons, if_neg (by simp [he])]

/-- Each object changes at most once, when its entry is popped. -/
theorem objs (h : Ticked now S popped S') (hnd : (popped.map Entry.sched).Nodup) (q : ℕ) :
    S'.objs q = if q ∈ popped.map Entry.sched then S.afterPop now q else S.objs q := by
  induction h with
  | stop => rw [List.map_nil, if_neg List.not_mem_nil]
  | @pop S S' e rest popped hh hd h ih =>
    have hel (q : ℕ) : ({ S with heap := rest }.dispatch now e.sched).eligible q = S.eligible q :=
      Sched.eligible_dispatch q
    have hobjs : ({ S with heap := rest }.dispatch now e.sched).objs =
        Function.update S.objs e.sched (S.afterPop now e.sched) := Sched.dispatch_objs
    rw [List.map_cons, List.nodup_cons] at hnd
    rw [ih hnd.2, List.map_cons]
    by_cases hq : q = e.sched
    · subst hq
      rw [if_neg hnd.1, if_pos List.mem_cons_self, hobjs, Function.update_self]
    · have hafter : ({ S with heap := rest }.dispatch now e.sched).afterPop now q = S.afterPop now q := by
        rw [Sched.afterPop, Sched.afterPop, hel, hobjs, Function.update_of_ne hq]
      rw [hafter, hobjs, Function.update_of_ne hq]
      simp only [List.mem_cons, hq, false_or]

/-- The heap afterwards: what was not due, and an entry for every popped node that was not eligible. -/
theorem heap (h : Ticked now S popped S') (hp : popped = S.due now)
    (hpos : ∀ e ∈ S.heap, 0 < (S.objs e.sched).interval) :
    ∃ requeued : List Entry, S'.heap.Perm (requeued ++ S.later now) ∧
      requeued.map (fun e => (e.sched, e.due)) = (popped.filter fun e => !S.eligible e.sched).map
        (fun e => (e.sched, now + (S.objs e.sched).interval)) := by
  induction h with
  | @stop S _ =>
    have hlater : S.later now = S.heap := List.filter_eq_self.mpr fun e he => by
      have := List.filter_eq_nil_iff.mp hp.symm e he
      simpa using this
    exact ⟨[], by rw [List.nil_append, hlater], rfl⟩
  | @pop S S' e rest popped hh hd h ih =>
    have hT : S.Kept { S with heap := rest } := ⟨rfl, rfl, rfl, fun _ => rfl, fun _ => rfl, fun _ => rfl, fun _ => rfl⟩
    have hk := hT.dispatch now e.sched
    have hel (q : ℕ) : ({ S with heap := rest }.dispatch now e.sched).eligible q = S.eligible q :=
      Sched.eligible_dispatch q
    have hepos : 0 < (S.objs e.sched).interval := hpos e (by simp [hh])
    have hlater : S.later now = { S with heap := rest }.later now := by
      rw [Sched.later, hh, List.filter_cons_of_neg (by simpa using hd)]
      rfl
    have hdue : ({ S with heap := rest }.dispatch now e.sched).due now = { S with heap := rest }.due now :=
      Sched.due_dispatch hepos
    obtain ⟨requeued, hperm, hmap⟩ := ih
      (by
        rw [hdue]
        rw [Sched.due, hh, List.filter_cons_of_pos (by simpa using hd)] at hp
        exact (List.cons.inj hp).2)
      (fun x hx => by
        rw [hk.interval]
        rcases Sched.mem_heap_dispatch hx with hx | hx
        · exact hpos x (by rw [hh]; exact List.mem_cons_of_mem e hx)
        · rw [hx]
          exact hepos)
    simp only [hel, hk.interval] at hmap
    cases he : S.eligible e.sched with
    | true =>
      have he' : { S with heap := rest }.eligible e.sched = true := he
      rw [Sched.dispatch_of_eligible he'] at hperm
      refine ⟨requeued, ?_, ?_⟩
      · rw [hlater]
        exact hperm
      · rw [List.filter_cons, if_neg (by simp [he]), hmap]
    | false =>
      have he' : { S with heap := rest }.eligible e.sched = false := he
      let new : Entry := ⟨now + (S.objs e.sched).interval, S.heapSeq, e.sched⟩
      rw [Sched.dispatch_of_not_eligible he'] at hperm
      refine ⟨new :: requeued, ?_, ?_⟩
      · have hnew : ((heappush rest new).filter (now < ·.due)).Perm (new :: rest.filter (now < ·.due)) := by
          refine ((List.perm_orderedInsert _ new rest).filter _).trans ?_
          rw [List.filter_cons, if_pos (by simpa [new] using hepos)]
        rw [hlater]
        exact hperm.trans ((hnew.append_left requeued).trans List.perm_middle)
      · rw [List.filter_cons, if_pos (by simp [he]), List.map_cons, List.map_cons, hmap]

end Ticked

/-- A node has at most one entry. -/
theorem QueueInv.sched_nodup {S : Sched} (h : QueueInv S []) : (S.heap.map Entry.sched).Nodup := by
  refine List.nodup_iff_count_le_one.mpr fun r => ?_
  have hcount : (S.heap.map Entry.sched).count r = S.heapCount r := by
    rw [List.count, List.countP_map]
    exact List.countP_congr fun e _ => by simp
  rw [hcount]
  by_cases hr : r ∈ S.scheduled
  · rcases h.home r hr (by simp) with ⟨h1, -⟩ | ⟨h0, -⟩
    · exact h1.le
    · exact h0.le.trans (Nat.zero_le 1)
  · refine le_of_eq_of_le (List.countP_eq_zero.mpr fun e he => ?_) (Nat.zero_le 1)
    simp only [decide_eq_true_eq]
    rintro rfl
    exact hr (h.heap_mem e he)

/-- What `tick` pops, in a state with both invariants. -/
theorem Sched.ticked_tick {S : Sched} (hinv : TickInv S) (hqueue : QueueInv S []) (now : ℚ) :
    Ticked now { S with mono := now } (S.due now) (S.tick now) ∧ ((S.due now).map Entry.sched).Nodup := by
  have hlt : ∀ e ∈ S.heap, e.sched < S.fresh := fun e hmem => hqueue.sched_lt _ (hqueue.heap_mem e hmem)
  exact ⟨ticked_tickLoop S.heap.length (S := { S with mono := now }) ⟨hinv.sorted, hinv.interval_pos⟩ hlt
      (List.length_filter_le _ _),
    hqueue.sched_nodup.sublist (List.filter_sublist.map Entry.sched)⟩

/-- **One pass of `tick`.**  In every reachable state and at every time the loop of `tick` ends.  It pops the entries
that are due, each once, and no other.  The node of a popped entry is dispatched if it is eligible and otherwise
re-queued suppressed, and its next time is an interval from now.  Every entry on the heap afterwards lies in the
future. -/
theorem tick_drains (settings : Settings) (F : Forest) (wall : ℕ → ℚ) (start : ℚ) (stagger : Bool) (as : List Label)
    (S : Sched) (tr : List Event)
    (he : Lib.exec Sched.step (Sched.init settings F wall start stagger) as = some (S, tr)) (now : ℚ) :
    Ticked now { S with mono := now } (S.due now) (S.tick now) ∧
    (S.tick now).tasks =
      S.tasks ++ ((S.due now).filter fun e => S.eligible e.sched).map (fun e => (e.sched, .running)) ∧
    (∃ requeued : List Entry, (S.tick now).heap.Perm (requeued ++ S.later now) ∧
      requeued.map (fun e => (e.sched, e.due)) = ((S.due now).filter fun e => !S.eligible e.sched).map
        (fun e => (e.sched, now + (S.objs e.sched).interval))) ∧
    (∀ q, (S.tick now).objs q = if q ∈ (S.due now).map Entry.sched then S.afterPop now q else S.objs q) ∧
    ∀ e ∈ (S.tick now).heap, now < e.due := by
  have hinv := TickInv.exec he
  have hqueue := QueueInv.exec he
  have hlt : ∀ e ∈ S.heap, e.sched < S.fresh := fun e hmem => hqueue.sched_lt _ (hqueue.heap_mem e hmem)
  obtain ⟨hticked, hnodup⟩ := S.ticked_tick hinv hqueue now
  have hheap := hticked.heap rfl fun e hmem => hinv.interval_pos _ (hlt e hmem)
  refine ⟨hticked, hticked.tasks, hheap, hticked.objs hnodup, fun e hmem => ?_⟩
  obtain ⟨requeued, hperm, hmap⟩ := hheap
  rcases List.mem_append.mp (hperm.mem_iff.mp hmem) with hreq | hlater
  · have hpair := List.mem_map_of_mem (f := fun e : Entry => (e.sched, e.due)) hreq
    rw [hmap] at hpair
    obtain ⟨x, hx, heq⟩ := List.mem_map.mp hpair
    have hheap : x ∈ S.heap := List.mem_of_mem_filter (List.mem_of_mem_filter hx)
    rw [← (Prod.mk.inj heq).2]
    exact lt_add_of_pos_right now (hinv.interval_pos _ (hlt x hheap))
  · simpa using (List.mem_filter.mp hlater).2

/-- The web server behind the router, unchecked as yet, is re-queued, although the configured interval is negative. -/
theorem tick_drains_negative_interval :
    let S := Sched.init { intervalS := -5 } gatewayForest (fun _ => 0) 0 false
    Ticked 0 { S with mono := 0 } (S.due 0) (S.tick 0) ∧ (S.due 0).map Entry.sched = [0, 1] ∧
      (S.tick 0).heap.map Entry.sched = [1] ∧ ∀ e ∈ (S.tick 0).heap, 0 < e.due := by
  intro S
  have h := tick_drains { intervalS := -5 } gatewayForest (fun _ => 0) 0 false [] S [] rfl 0
  exact ⟨h.1, by decide +kernel, by decide +kernel, h.2.2.2.2⟩

/-! ### The delay until the next pass -/

/-- `_MAX_IDLE_POLL_S`. -/
def maxIdlePollS : ℚ := 1

/-- `_next_delay`, read at the time `now`. -/
def Sched.nextDelay (S : Sched) (now : ℚ) : ℚ :=
  match S.heap with
  | [] => min S.settings.intervalS maxIdlePollS
  | e :: _ => max 0 (e.due - now)

/-- Where no entry is due, the run loop waits for a positive time if and only if an entry is waiting or the global
interval is positive. -/
theorem nextDelay_pos_iff (S : Sched) (now : ℚ) (h : ∀ e ∈ S.heap, now < e.due) :
    0 < S.nextDelay now ↔ S.heap ≠ [] ∨ 0 < S.settings.intervalS := by
  unfold Sched.nextDelay
  split
  · rename_i hh
    have hmax : 0 < maxIdlePollS := one_pos
    rw [lt_min_iff]
    simp [hh, hmax]
  · rename_i e rest hh
    have hdue : now < e.due := h e (by simp [hh])
    simp [hh, hdue]

/-- The default settings, with nothing to monitor. -/
theorem nextDelay_pos_empty :
    0 < (Sched.init {} ⟨[], [], by simp, by simp⟩ (fun _ => 0) 0 true).nextDelay 7 :=
  (nextDelay_pos_iff _ 7 (by decide)).mpr (.inr (by decide +kernel))

/-- The file accepts the interval `0`.  Once the check of its only node is in flight, the delay is `0`. -/
theorem nextDelay_zero :
    ((@Modern.parse Python.ascii "config queuetime 0;\nobject gw \x7b host gw; type ping; \x7d\n".toList 2).toOption.bind
      fun r => (merge r.overrides .empty).bind fun settings =>
        (Lib.exec Sched.step (Sched.init settings r.roots (fun _ => 0) 0 true) [.tick 0]).map fun p =>
          (r.warnings, p.1.heap.length, p.1.tasks, p.1.nextDelay 0)) =
      some ([], 0, [(0, .running)], 0) := by
  decide +kernel

end Psysmon
