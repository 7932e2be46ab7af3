import Mathlib

/-!
# Psysmon.Lib.Semaphore — a counting semaphore with a queue

`Semaphore ι n` has `n` slots.  A client that finds no slot queues; a slot that is given back goes to the head of the
queue.  Two invariants are fields: no slot gets lost, and nobody queues while a slot is free.

* `length_holding_le`: at most `n` clients hold a slot.
* `exists_mem_holding`: where somebody waits and there are slots at all, somebody holds one.
* `waiting_acquire`, `waiting_release`: the queue is served in order.
-/

namespace Psysmon.Lib

structure Semaphore (ι : Type*) (n : ℕ) where
  value : ℕ
  waiting : List ι
  holding : List ι
  slots : value + holding.length = n
  busy : waiting ≠ [] → value = 0

namespace Semaphore

variable {ι : Type*} {n : ℕ}

/-- All slots free. -/
def new (ι : Type*) (n : ℕ) : Semaphore ι n := ⟨n, [], [], rfl, fun h => absurd rfl h⟩

/-- The client `i` takes a free slot, or joins the queue. -/
def acquire (s : Semaphore ι n) (i : ι) : Semaphore ι n :=
  if h : s.value = 0 then ⟨s.value, s.waiting ++ [i], s.holding, s.slots, fun _ => h⟩
  else
    { s with
      value := s.value - 1
      holding := i :: s.holding
      slots := by
        have := s.slots
        rw [List.length_cons]
        omega
      busy := fun hw => absurd (s.busy hw) h }

/-- The client `i` gives its slot back, to the head of the queue if there is one. -/
def release [DecidableEq ι] (s : Semaphore ι n) (i : ι) (hi : i ∈ s.holding) : Semaphore ι n :=
  match hw : s.waiting with
  | [] =>
    { value := s.value + 1
      waiting := []
      holding := s.holding.erase i
      slots := by
        have h := s.slots
        have hpos := List.length_pos_of_mem hi
        rw [List.length_erase_of_mem hi]
        omega
      busy := fun h => absurd rfl h }
  | w :: ws =>
    { value := s.value
      waiting := ws
      holding := w :: s.holding.erase i
      slots := by
        have h := s.slots
        have hpos := List.length_pos_of_mem hi
        rw [List.length_cons, List.length_erase_of_mem hi]
        omega
      busy := fun _ => s.busy (by rw [hw]; exact List.cons_ne_nil w ws) }

theorem length_holding_le (s : Semaphore ι n) : s.holding.length ≤ n := by
  have := s.slots
  omega

/-- A client waits only while all slots are taken. -/
theorem length_holding_eq (s : Semaphore ι n) (h : s.waiting ≠ []) : s.holding.length = n := by
  have := s.slots
  have := s.busy h
  omega

theorem exists_mem_holding (s : Semaphore ι n) (hn : 0 < n) (h : s.waiting ≠ []) : ∃ i, i ∈ s.holding := by
  apply List.exists_mem_of_length_pos
  rw [s.length_holding_eq h]
  exact hn

/-- Who is in, queued or served. -/
def clients (s : Semaphore ι n) : List ι := s.waiting ++ s.holding

theorem clients_acquire (s : Semaphore ι n) (i : ι) : (s.acquire i).clients.Perm (i :: s.clients) := by
  unfold acquire clients
  split
  · dsimp only
    rw [List.append_assoc, List.singleton_append]
    exact List.perm_middle
  · exact List.perm_middle

theorem clients_release [DecidableEq ι] (s : Semaphore ι n) (i : ι) (hi : i ∈ s.holding) :
    (i :: (s.release i hi).clients).Perm s.clients := by
  unfold release clients
  split
  · rename_i hw
    rw [hw]
    exact (List.perm_cons_erase hi).symm
  · rename_i w ws hw
    dsimp only
    rw [hw]
    refine (List.perm_middle.cons i).trans ((List.Perm.swap w i _).trans (.cons w ?_))
    exact List.perm_middle.symm.trans ((List.perm_cons_erase hi).symm.append_left ws)

/-- Newcomers queue at the end. -/
theorem waiting_acquire (s : Semaphore ι n) (i : ι) :
    (s.acquire i).waiting = s.waiting ∨ (s.acquire i).waiting = s.waiting ++ [i] := by
  unfold acquire
  split
  · exact .inr rfl
  · exact .inl rfl

/-- The head of the queue is served first. -/
theorem waiting_release [DecidableEq ι] (s : Semaphore ι n) (i : ι) (hi : i ∈ s.holding) :
    (s.release i hi).waiting = s.waiting.drop 1 := by
  unfold release
  split
  · rename_i hw
    rw [hw]
    rfl
  · rename_i w ws hw
    dsimp only
    rw [hw]
    rfl

end Semaphore

end Psysmon.Lib
