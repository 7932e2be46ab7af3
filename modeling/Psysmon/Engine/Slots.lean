import Psysmon.Lib.Semaphore
import Psysmon.Engine.Due

/-!
# Psysmon.Engine.Slots — the cap on concurrent checks (`_run_check`, `_sem`)

A check task other than a ping asks the semaphore for a slot before it runs, and gives it back when the check returns
or raises; a page is sent without a slot.  `Slotted` is the scheduler with this semaphore: a task that `tick` has
created begins in a segment of its own, and its check can finish only once it has a slot.

* `Slotted.step_sched`: with the semaphore forgotten, a step is a segment of the scheduler or none.
* `SlotInv`: the clients of the semaphore are the tasks that have begun, pings apart.
* `waiting_exec`: the queue for a slot is served in order.
* `concurrency_bounded`: what the cap means for every run.
-/

namespace Psysmon

open Lib

/-- The scheduler with its semaphore of `n` slots. -/
structure Slotted (n : ℕ) where
  sched : Sched
  sem : Semaphore ℕ n
  /-- The check tasks that have begun and whose checks are not over. -/
  begun : List ℕ

inductive SlotLabel
  /-- The task of `r` runs for the first time, up to its check or to its wait for a slot. -/
  | start (r : ℕ)
  | segment (a : Label)

namespace Sched

/-- `is_ping_type(node.check_type)`. -/
def pings (S : Sched) (r : ℕ) : Bool := isPingType (S.objs r).node.checkType

end Sched

namespace Slotted

variable {n : ℕ}

def step (X : Slotted n) : SlotLabel → Option (Slotted n × List Event)
  | .start r =>
    if X.sched.tasks.contains (r, Phase.running) = true ∧ r ∉ X.begun then
      some ({ X with begun := r :: X.begun, sem := if X.sched.pings r then X.sem else X.sem.acquire r }, [])
    else none
  | .segment (.finish r code wall now later) =>
    if r ∈ X.begun then
      if X.sched.pings r then
        (X.sched.step (.finish r code wall now later)).map fun q =>
          ({ X with sched := q.1, begun := X.begun.erase r }, q.2)
      else if h : r ∈ X.sem.holding then
        (X.sched.step (.finish r code wall now later)).map fun q =>
          ({ sched := q.1, sem := X.sem.release r h, begun := X.begun.erase r }, q.2)
      else none
    else none
  | .segment a => (X.sched.step a).map fun q => ({ X with sched := q.1 }, q.2)

/-! ### What one step can do -/

inductive Moved (X : Slotted n) : SlotLabel → Slotted n → List Event → Prop
  | start {r : ℕ} (ht : (r, Phase.running) ∈ X.sched.tasks) (hb : r ∉ X.begun) :
    Moved X (.start r)
      { X with begun := r :: X.begun, sem := if X.sched.pings r then X.sem else X.sem.acquire r } []
  /-- The check of a ping ends. -/
  | pinged {r : ℕ} {code : Option ℤ} {wall now later : ℚ} {S' : Sched} {o : List Event} (hb : r ∈ X.begun)
      (hp : X.sched.pings r = true) (hs : X.sched.step (.finish r code wall now later) = some (S', o)) :
    Moved X (.segment (.finish r code wall now later)) { X with sched := S', begun := X.begun.erase r } o
  /-- Another check ends and gives its slot back. -/
  | checked {r : ℕ} {code : Option ℤ} {wall now later : ℚ} {S' : Sched} {o : List Event} (hb : r ∈ X.begun)
      (hp : X.sched.pings r = false) (hh : r ∈ X.sem.holding)
      (hs : X.sched.step (.finish r code wall now later) = some (S', o)) :
    Moved X (.segment (.finish r code wall now later))
      { sched := S', sem := X.sem.release r hh, begun := X.begun.erase r } o
  | other {a : Label} {S' : Sched} {o : List Event} (ha : ∀ r code wall now later, a ≠ .finish r code wall now later)
      (hs : X.sched.step a = some (S', o)) : Moved X (.segment a) { X with sched := S' } o

variable {X X' : Slotted n} {a : SlotLabel} {o : List Event}

theorem moved (hs : X.step a = some (X', o)) : Moved X a X' o := by
  unfold step at hs
  split at hs
  · simp only [Option.ite_none_right_eq_some, Option.some.injEq, Prod.mk.injEq] at hs
    obtain ⟨⟨ht, hb⟩, rfl, rfl⟩ := hs
    exact .start (List.contains_iff_mem.mp ht) hb
  · simp only [Option.ite_none_right_eq_some] at hs
    obtain ⟨hb, hs⟩ := hs
    split at hs
    · rename_i hp
      obtain ⟨q, hq, heq⟩ := Option.map_eq_some_iff.mp hs
      obtain ⟨rfl, rfl⟩ := Prod.mk.inj heq
      exact .pinged hb hp hq
    · rename_i hp
      split at hs
      · rename_i hh
        obtain ⟨q, hq, heq⟩ := Option.map_eq_some_iff.mp hs
        obtain ⟨rfl, rfl⟩ := Prod.mk.inj heq
        exact .checked hb (by simpa using hp) hh hq
      · cases hs
  · rename_i ha
    obtain ⟨q, hq, heq⟩ := Option.map_eq_some_iff.mp hs
    obtain ⟨rfl, rfl⟩ := Prod.mk.inj heq
    exact .other (fun r code wall now later h => ha r code wall now later h) hq

/-- With the semaphore forgotten, a step is a segment of the scheduler, or none. -/
theorem step_sched (hs : X.step a = some (X', o)) : ∃ bs, exec Sched.step X.sched bs = some (X'.sched, o) := by
  have hone {b : Label} {S' : Sched} {o : List Event} (h : X.sched.step b = some (S', o)) :
      exec Sched.step X.sched [b] = some (S', o) :=
    exec_cons.mpr ⟨S', o, [], h, rfl, (List.append_nil o).symm⟩
  cases moved hs with
  | start => exact ⟨[], rfl⟩
  | pinged _ _ h => exact ⟨_, hone h⟩
  | checked _ _ _ h => exact ⟨_, hone h⟩
  | other _ h => exact ⟨_, hone h⟩

theorem exec_sched : ∀ {as : List SlotLabel} {X : Slotted n} {tr : List Event}, exec step X as = some (X', tr) →
    ∃ bs, exec Sched.step X.sched bs = some (X'.sched, tr)
  | [], X, tr, he => by
    obtain ⟨rfl, rfl⟩ := Prod.mk.inj (Option.some.inj he)
    exact ⟨[], rfl⟩
  | a :: as, X, tr, he => by
    obtain ⟨X₁, o, tr', hs, he', rfl⟩ := exec_cons.mp he
    obtain ⟨bs, hbs⟩ := step_sched hs
    obtain ⟨cs, hcs⟩ := exec_sched he'
    exact ⟨bs ++ cs, exec_append.mpr ⟨X₁.sched, o, tr', hbs, hcs, rfl⟩⟩

end Slotted

/-! ### Running tasks -/

namespace Sched

variable {S S' : Sched} {r q : ℕ} {o : List Event}

/-- The end of one check leaves the other running tasks alone. -/
theorem running_finish {code : Option ℤ} {wall now later : ℚ} (hs : S.step (.finish r code wall now later) = some (S', o))
    (hq : (q, Phase.running) ∈ S.tasks) (hne : q ≠ r) : (q, Phase.running) ∈ S'.tasks := by
  have hmem : (q, Phase.running) ∈ (S.resume r .running later).tasks :=
    (List.mem_erase_of_ne fun h => hne (Prod.mk.inj h).1).mpr hq
  cases stepped hs with
  | raised =>
    rw [endTask_tasks]
    exact hmem
  | @verdict _ code _ _ _ _ _ _ =>
    unfold applyVerdict
    split
    · rw [endTask_tasks]
      exact hmem
    split
    · rw [endTask_tasks]
      exact hmem
    dsimp only
    split
    · exact List.mem_append_left _ hmem
    · rw [endTask_tasks]
      exact hmem

/-- Only the end of its check takes a running task away. -/
theorem running_step {F : Forest} (hS : S.On F) {a : Label} (ha : ∀ r code wall now later, a ≠ .finish r code wall now later)
    (hs : S.step a = some (S', o)) (hq : (q, Phase.running) ∈ S.tasks) : (q, Phase.running) ∈ S'.tasks := by
  cases stepped hs with
  | @tick now _ =>
    have htasks : (S.tick now).tasks = S.tasks ++ _ := (S.ticked_tick hS.tickInv hS.queueInv now).1.tasks
    rw [htasks]
    exact List.mem_append_left _ hq
  | raised => exact absurd rfl (ha _ _ _ _ _)
  | verdict => exact absurd rfl (ha _ _ _ _ _)
  | @sent r p ch out ended now _ _ _ =>
    rw [applySent, endTask_tasks]
    exact (List.mem_erase_of_ne fun h => Phase.noConfusion (Prod.mk.inj h).2).mpr hq
  | @reload G wall now _ =>
    rw [(S.reload_frame G wall now).1]
    exact hq
  | ack | setNote | nodeStates | clearDirty => exact hq

theorem pings_step {a : Label} (hs : S.step a = some (S', o)) (hr : r < S.fresh) : S'.pings r = S.pings r := by
  rw [pings, pings, (node_step hs hr).2]

end Sched

namespace Slotted

variable {n : ℕ} {X X' : Slotted n} {a : SlotLabel} {o : List Event}

/-- The tasks that have begun are running, and pings apart they are the clients of the semaphore. -/
structure SlotInv (X : Slotted n) : Prop where
  reachable : ∃ F, X.sched.On F
  running : ∀ r ∈ X.begun, (r, Phase.running) ∈ X.sched.tasks
  nodup : X.begun.Nodup
  clients : X.sem.clients.Perm (X.begun.filter fun r => !X.sched.pings r)

namespace SlotInv

theorem lt (h : SlotInv X) {r : ℕ} (hr : r ∈ X.begun) : r < X.sched.fresh := by
  obtain ⟨F, hF⟩ := h.reachable
  exact hF.queueInv.task_lt _ (h.running r hr)

/-- The check types do not change. -/
theorem filter_pings (h : SlotInv X) {S' : Sched} {b : Label} (hs : X.sched.step b = some (S', o)) :
    (X.begun.filter fun r => !S'.pings r) = X.begun.filter fun r => !X.sched.pings r :=
  List.filter_congr fun r hr => by rw [Sched.pings_step hs (h.lt hr)]

/-- A check of `r` ends. -/
theorem filter_erase (h : SlotInv X) {r : ℕ} (hr : r ∈ X.begun) {S' : Sched} {b : Label}
    (hs : X.sched.step b = some (S', o)) :
    (X.begun.filter fun r => !X.sched.pings r).Perm
      (if X.sched.pings r then (X.begun.erase r).filter fun r => !S'.pings r
        else r :: (X.begun.erase r).filter fun r => !S'.pings r) := by
  have hperm := (List.perm_cons_erase hr).filter fun r => !S'.pings r
  rw [h.filter_pings hs, List.filter_cons, Sched.pings_step hs (h.lt hr)] at hperm
  cases hp : X.sched.pings r with
  | true => simpa [hp] using hperm
  | false => simpa [hp] using hperm

theorem finish (h : SlotInv X) {r : ℕ} {code : Option ℤ} {wall now later : ℚ} {S' : Sched}
    (hs : X.sched.step (.finish r code wall now later) = some (S', o)) :
    (∃ F, S'.On F) ∧ (∀ q ∈ X.begun.erase r, (q, Phase.running) ∈ S'.tasks) ∧ (X.begun.erase r).Nodup := by
  obtain ⟨F, hF⟩ := h.reachable
  refine ⟨⟨F, hF.step hs⟩, fun q hq => ?_, h.nodup.erase r⟩
  obtain ⟨hne, hq⟩ := h.nodup.mem_erase_iff.mp hq
  exact Sched.running_finish hs (h.running q hq) hne

theorem step (h : SlotInv X) (hs : X.step a = some (X', o)) : SlotInv X' := by
  cases moved hs with
  | @start r ht hb =>
    refine ⟨h.reachable, fun q hq => ?_, List.nodup_cons.mpr ⟨hb, h.nodup⟩, ?_⟩
    · rcases List.mem_cons.mp hq with rfl | hq
      · exact ht
      · exact h.running q hq
    · dsimp only
      rw [List.filter_cons]
      cases hp : X.sched.pings r with
      | true => simpa [hp] using h.clients
      | false => simpa [hp] using (X.sem.clients_acquire r).trans (h.clients.cons r)
  | @pinged r _ _ _ _ S' _ hb hp hstep =>
    obtain ⟨hreach, hrun, hnodup⟩ := h.finish hstep
    have hperm := h.filter_erase hb hstep
    rw [if_pos hp] at hperm
    exact ⟨hreach, hrun, hnodup, h.clients.trans hperm⟩
  | @checked r _ _ _ _ S' _ hb hp hh hstep =>
    obtain ⟨hreach, hrun, hnodup⟩ := h.finish hstep
    have hperm := h.filter_erase hb hstep
    rw [if_neg (by simp [hp])] at hperm
    exact ⟨hreach, hrun, hnodup, List.perm_cons r |>.mp ((X.sem.clients_release r hh).trans (h.clients.trans hperm))⟩
  | @other b S' _ hb hstep =>
    obtain ⟨F, hF⟩ := h.reachable
    refine ⟨⟨b.forest F, hF.step hstep⟩, fun q hq => Sched.running_step hF hb hstep (h.running q hq), h.nodup, ?_⟩
    exact (h.filter_pings hstep).symm ▸ h.clients

end SlotInv

/-- The checks other than pings that are past the semaphore. -/
def checking (X : Slotted n) : List ℕ := X.begun.filter fun r => !X.sched.pings r && decide (r ∉ X.sem.waiting)

/-- They are the holders of the slots. -/
theorem SlotInv.checking_perm (h : SlotInv X) : X.checking.Perm X.sem.holding := by
  have hnodup : X.sem.clients.Nodup := h.clients.nodup_iff.mpr (h.nodup.filter _)
  have hsplit : X.checking = (X.begun.filter fun r => !X.sched.pings r).filter fun r => decide (r ∉ X.sem.waiting) := by
    rw [checking, List.filter_filter]
    exact List.filter_congr fun r _ => Bool.and_comm _ _
  rw [hsplit]
  refine (h.clients.symm.filter _).trans ?_
  unfold Semaphore.clients at hnodup ⊢
  obtain ⟨-, -, hdisj⟩ := List.nodup_append.mp hnodup
  rw [List.filter_append, List.filter_eq_nil_iff.mpr (by simp), List.nil_append, List.filter_eq_self.mpr]
  intro r hr
  exact decide_eq_true fun hw => hdisj r hw r hr rfl

/-- `_sem` as the constructor makes it; a negative `max_concurrency` raises there. -/
def init (S : Sched) : Slotted S.settings.maxConcurrency.toNat := ⟨S, .new ℕ _, []⟩

theorem SlotInv.init {F : Forest} {S : Sched} (hS : S.On F) : SlotInv (init S) :=
  ⟨⟨F, hS⟩, fun _ h => absurd h List.not_mem_nil, List.nodup_nil, .refl []⟩

/-- Nobody overtakes in the queue for a slot. -/
theorem waiting_step (hs : X.step a = some (X', o)) :
    ∃ k new, X'.sem.waiting = X.sem.waiting.drop k ++ new := by
  cases moved hs with
  | @start r _ _ =>
    dsimp only
    split
    · exact ⟨0, [], (List.append_nil _).symm⟩
    · rcases X.sem.waiting_acquire r with h | h
      · exact ⟨0, [], h.trans (List.append_nil _).symm⟩
      · exact ⟨0, [r], h⟩
  | @checked r _ _ _ _ _ _ _ _ hh _ => exact ⟨1, [], (X.sem.waiting_release r hh).trans (List.append_nil _).symm⟩
  | pinged => exact ⟨0, [], (List.append_nil _).symm⟩
  | other => exact ⟨0, [], (List.append_nil _).symm⟩

/-- **Slots are given out in the order of arrival**: after any run the queue is what is left of it behind those that
have been served, with the newcomers at its end. -/
theorem waiting_exec : ∀ {as : List SlotLabel} {X : Slotted n} {tr : List Event}, exec step X as = some (X', tr) →
    ∃ k new, X'.sem.waiting = X.sem.waiting.drop k ++ new
  | [], X, tr, he => by
    obtain ⟨rfl, rfl⟩ := Prod.mk.inj (Option.some.inj he)
    exact ⟨0, [], (List.append_nil _).symm⟩
  | a :: as, X, tr, he => by
    obtain ⟨X₁, o, tr', hs, he', rfl⟩ := exec_cons.mp he
    obtain ⟨k, new, hk⟩ := waiting_step hs
    obtain ⟨j, new', hj⟩ := waiting_exec he'
    refine ⟨k + j, new.drop (j - (X.sem.waiting.drop k).length) ++ new', ?_⟩
    rw [hj, hk, List.drop_append, List.drop_drop, List.append_assoc]

end Slotted

/-- **The cap on concurrent checks.**  Every run of the scheduler with its semaphore is a run of the scheduler.  At most
`max_concurrency` checks other than pings are under way; one waits only while that many are, and then, unless the cap
is 0, some check that holds a slot can end.  A ping that has begun never waits, and no page is sent with a slot held. -/
theorem concurrency_bounded {F : Forest} {S : Sched} (hS : S.On F) {as : List SlotLabel}
    {X : Slotted S.settings.maxConcurrency.toNat} {tr : List Event}
    (he : exec Slotted.step (Slotted.init S) as = some (X, tr)) :
    (∃ bs, exec Sched.step S bs = some (X.sched, tr)) ∧
    X.checking.length ≤ S.settings.maxConcurrency.toNat ∧
    (∀ r ∈ X.sem.waiting, r ∈ X.begun ∧ X.sched.pings r = false ∧
      X.checking.length = S.settings.maxConcurrency.toNat) ∧
    (X.sem.waiting ≠ [] → 0 < S.settings.maxConcurrency → ∃ r ∈ X.checking,
      ∀ code wall t, X.sched.mono ≤ t → (X.step (.segment (.finish r code wall t t))).isSome = true) ∧
    (∀ r ∈ X.begun, X.sched.pings r = true →
      ∀ code wall t, X.sched.mono ≤ t → (X.step (.segment (.finish r code wall t t))).isSome = true) ∧
    ∀ r p ch, (r, Phase.sending p ch) ∈ X.sched.tasks → r ∉ X.sem.waiting ∧ r ∉ X.sem.holding := by
  have h : Slotted.SlotInv X := exec_inv_state (P := fun _ _ => True) Slotted.SlotInv (fun _ _ _ _ h _ hs => h.step hs)
    (Slotted.SlotInv.init hS) (along_of_forall as _ fun _ _ _ => trivial) he
  have hlen : X.checking.length = X.sem.holding.length := h.checking_perm.length_eq
  have hclient {r : ℕ} (hr : r ∈ X.sem.clients) : r ∈ X.begun ∧ X.sched.pings r = false := by
    obtain ⟨hb, hp⟩ := List.mem_filter.mp (h.clients.mem_iff.mp hr)
    exact ⟨hb, by simpa using hp⟩
  have hfinish {r : ℕ} (hr : r ∈ X.begun) (code : Option ℤ) (wall t : ℚ) (ht : X.sched.mono ≤ t) :
      (X.sched.step (.finish r code wall t t)).isSome = true := by
    simp only [Sched.step, h.running r hr, ht, le_refl, and_self, if_true]
    cases code <;> rfl
  refine ⟨Slotted.exec_sched he, hlen ▸ X.sem.length_holding_le, fun r hr => ?_, fun hw hn => ?_, fun r hr hp => ?_,
    fun r p ch ht => ?_⟩
  · obtain ⟨hb, hp⟩ := hclient (List.mem_append_left _ hr)
    exact ⟨hb, hp, hlen.trans (X.sem.length_holding_eq (List.ne_nil_of_mem hr))⟩
  · obtain ⟨r, hr⟩ := X.sem.exists_mem_holding (by omega) hw
    obtain ⟨hb, hp⟩ := hclient (List.mem_append_right _ hr)
    refine ⟨r, h.checking_perm.mem_iff.mpr hr, fun code wall t ht => ?_⟩
    simp only [Slotted.step, hb, hp, hr, if_true, Bool.false_eq_true, if_false, dif_pos, Option.isSome_map]
    exact hfinish hb code wall t ht
  · intro code wall t ht
    simp only [Slotted.step, hr, hp, if_true, Option.isSome_map]
    exact hfinish hr code wall t ht
  · obtain ⟨G, hG⟩ := h.reachable
    have hnot : r ∉ X.begun := by
      intro hb
      have hsend := Sched.phaseOf_of_mem (hG.queueInv.task_le r) ht
      have hrun := Sched.phaseOf_of_mem (hG.queueInv.task_le r) (h.running r hb)
      cases hsend.symm.trans hrun
    exact ⟨fun hw => hnot (hclient (List.mem_append_left _ hw)).1, fun hh => hnot (hclient (List.mem_append_right _ hh)).1⟩

/-- Two web servers. -/
def twoServers : Forest where
  objs := [({ hostname := "a".toList, checkType := .tcp, port := 80 }, []),
    ({ hostname := "b".toList, checkType := .tcp, port := 80 }, [])]
  roots := [0, 1]
  roots_lt := by decide
  children_lt := by decide

/-- With one slot the second server waits until the first one has answered. -/
theorem concurrency_bounded_one : ∃ (X : Slotted 1) (tr : List Event),
    exec Slotted.step (Slotted.init (Sched.init { maxConcurrency := 1 } twoServers (fun _ => 0) 0 false))
      [.segment (.tick 0), .start 0, .start 1] = some (X, tr) ∧
    X.sem.waiting = [1] ∧ X.checking.length ≤ 1 ∧ ∃ r ∈ X.checking,
      ∀ code wall t, X.sched.mono ≤ t → (X.step (.segment (.finish r code wall t t))).isSome = true := by
  have hrun : (exec Slotted.step (Slotted.init (Sched.init { maxConcurrency := 1 } twoServers (fun _ => 0) 0 false))
      [.segment (.tick 0), .start 0, .start 1]).map (fun q => q.1.sem.waiting) = some [1] := by decide +kernel
  obtain ⟨⟨X, tr⟩, he, hw⟩ := Option.map_eq_some_iff.mp hrun
  have hw : X.sem.waiting = [1] := hw
  have h := concurrency_bounded (Sched.On.init { maxConcurrency := 1 } twoServers (fun _ => 0) 0 false) he
  exact ⟨X, tr, he, hw, h.2.1, h.2.2.2.1 (by simp [hw]) (by decide)⟩

end Psysmon
