import Psysmon.Config.Model

/-!
# Psysmon.Engine.State — the per-node up/down state machine (`engine/state.py`)

`applyResult` compares a check result with the last one and moves the outage counters; `maybeRepage` is the
re-page timer.  Neither ever sets `contacted`: the paging code does.

`Applied` lists what one application can do, one constructor per branch, with the guards that lead there
(`applied_applyResult`); later proofs split on it and never unfold `applyResult`.
-/

namespace Psysmon

/-- What the state machine wants the notifier to do after a check (`PageIntent`). -/
inductive PageIntent
  | none | down | recovery
  deriving DecidableEq, Repr

/-- Outcome of applying a result (`Transition`). -/
structure Transition where
  intent : PageIntent
  stateChanged : Bool
  deriving DecidableEq

/-- The tuple `apply_result` compares before and after to set `state_changed`. -/
def NodeState.shown (s : NodeState) : ℤ × ℤ × Bool × Lib.Number.PyFloat := (s.lastcheck, s.downct, s.contacted, s.deathtime)

/-- `DOWN` once the counter has reached the threshold, unless the outage was paged already. -/
def downIntent (s : NodeState) : PageIntent :=
  if s.downct ≥ s.maxDown ∧ s.contacted = false then .down else .none

/-- The branches of `apply_result`, in its order: the new state and the intent. -/
def applyBranch (s : NodeState) (result : ℤ) (nowWall : ℚ) (pageOnDegraded : Bool) : NodeState × PageIntent :=
  if result = Status.degraded.code ∧ pageOnDegraded = false then
    ({ s with lastcheck := Status.degraded.code }, .none)
  else if result = Status.noDns.code then
    ({ s with
        deathtime := if s.lastcheck ≠ Status.noDns.code then nowWall else s.deathtime
        lastcheck := Status.noDns.code }, .none)
  else if isUp result then
    if isUp s.lastcheck = false then
      -- came up: the counters and an ack belong to the outage that ends here
      ({ s with
          lastcheck := Status.ok.code
          lastUp := nowWall
          downct := 0
          acked := false
          contacted := if s.contacted then false else s.contacted },
        if s.contacted then .recovery else .none)
    else (s, .none)
  else if result = s.lastcheck then
    let s' := { s with downct := s.downct + 1 }
    (s', downIntent s')
  else
    let s' := { s with downct := 1, lastcheck := result, deathtime := nowWall }
    (s', downIntent s')

/-- Apply a check result (`apply_result`). -/
def applyResult (s : NodeState) (result : ℤ) (nowWall : ℚ) (pageOnDegraded : Bool) : NodeState × Transition :=
  let out := applyBranch s result nowWall pageOnDegraded
  (out.1, ⟨out.2, s.shown ≠ out.1.shown⟩)

/-- Is a contacted, still-down node due for a re-page (`maybe_repage`)? -/
def maybeRepage (s : NodeState) (nowMono pageintervalS : ℚ) : Bool :=
  if s.contacted = false ∨ pageintervalS ≤ 0 then false else nowMono - s.lastcontacted > pageintervalS

/-- A result that escalates: not up, not a DNS failure, and not `DEGRADED` unless that pages too. -/
def PagingError (pageOnDegraded : Bool) (result : ℤ) : Prop :=
  result ≠ Status.ok.code ∧ result ≠ Status.noDns.code ∧
    (result = Status.degraded.code → pageOnDegraded = true)

instance (pod : Bool) (r : ℤ) : Decidable (PagingError pod r) := by unfold PagingError; infer_instance

/-- The branches of `applyResult`. -/
inductive Applied (pod : Bool) (s : NodeState) (r : ℤ) (w : ℚ) : NodeState → PageIntent → Prop
  | degraded (hr : r = 14) (hp : pod = false) : Applied pod s r w { s with lastcheck := 14 } .none
  | noDns (hr : r = 5) :
    Applied pod s r w
      { s with deathtime := if s.lastcheck ≠ 5 then w else s.deathtime, lastcheck := 5 } .none
  | cameUp (hr : r = 0) (hl : s.lastcheck ≠ 0) :
    Applied pod s r w
      { s with lastcheck := 0, lastUp := w, downct := 0, acked := false, contacted := false }
      (if s.contacted then .recovery else .none)
  | stillUp (hr : r = 0) (hl : s.lastcheck = 0) : Applied pod s r w s .none
  | sameError (he : PagingError pod r) (hl : s.lastcheck = r) :
    Applied pod s r w { s with downct := s.downct + 1 } (downIntent { s with downct := s.downct + 1 })
  | newError (he : PagingError pod r) (hl : s.lastcheck ≠ r) :
    Applied pod s r w { s with downct := 1, lastcheck := r, deathtime := w }
      (downIntent { s with downct := 1, lastcheck := r, deathtime := w })

theorem applied_applyResult (pod : Bool) (s : NodeState) (r : ℤ) (w : ℚ) :
    Applied pod s r w (applyResult s r w pod).1 (applyResult s r w pod).2.intent := by
  show Applied pod s r w (applyBranch s r w pod).1 (applyBranch s r w pod).2
  unfold applyBranch
  by_cases hd : r = Status.degraded.code ∧ pod = false
  · rw [if_pos hd]
    exact .degraded hd.1 hd.2
  rw [if_neg hd]
  by_cases hn : r = Status.noDns.code
  · rw [if_pos hn]
    exact .noDns hn
  rw [if_neg hn]
  by_cases h0 : isUp r = true
  · have hr : r = 0 := isUp_iff.mp h0
    rw [if_pos h0]
    by_cases hl : isUp s.lastcheck = false
    · rw [if_pos hl]
      have hc : (if s.contacted = true then false else s.contacted) = false := by
        cases s.contacted <;> rfl
      simp only [hc]
      exact .cameUp hr (isUp_eq_false_iff.mp hl)
    · rw [if_neg hl]
      exact .stillUp hr (by simpa using hl)
  · have he : PagingError pod r := ⟨fun h => h0 (isUp_iff.mpr h), hn, fun h14 => by
      by_contra hp
      exact hd ⟨h14, by simpa using hp⟩⟩
    rw [if_neg h0]
    by_cases hl : r = s.lastcheck
    · rw [if_pos hl]
      exact .sameError he hl.symm
    · rw [if_neg hl]
      exact .newError he (Ne.symm hl)

/-! ### What no branch touches -/

section Frame

variable {pod : Bool} {s s' : NodeState} {r : ℤ} {w : ℚ} {i : PageIntent}

theorem Applied.maxDown_eq (h : Applied pod s r w s' i) : s'.maxDown = s.maxDown := by cases h <;> rfl

theorem Applied.lastcontacted_eq (h : Applied pod s r w s' i) : s'.lastcontacted = s.lastcontacted := by
  cases h <;> rfl

theorem Applied.note_eq (h : Applied pod s r w s' i) : s'.note = s.note := by cases h <;> rfl

theorem Applied.lastcheck_eq (h : Applied pod s r w s' i) : s'.lastcheck = r := by
  cases h with
  | degraded hr => exact hr.symm
  | noDns hr => exact hr.symm
  | cameUp hr => exact hr.symm
  | stillUp hr hl => exact hl.trans hr.symm
  | sameError _ hl => exact hl
  | newError => rfl

/-! ### The branch a result leads to -/

theorem Applied.eq_of_noDns (h : Applied pod s r w s' i) (hr : r = 5) :
    s' = { s with deathtime := if s.lastcheck ≠ 5 then w else s.deathtime, lastcheck := 5 } ∧ i = .none := by
  cases h with
  | noDns => exact ⟨rfl, rfl⟩
  | sameError he => exact absurd hr he.2.1
  | newError he => exact absurd hr he.2.1
  | _ => omega

theorem Applied.eq_of_up (h : Applied pod s r w s' i) (hr : r = 0) :
    (s.lastcheck ≠ 0 ∧
      s' = { s with lastcheck := 0, lastUp := w, downct := 0, acked := false, contacted := false } ∧
      i = if s.contacted then .recovery else .none) ∨
    (s.lastcheck = 0 ∧ s' = s ∧ i = .none) := by
  cases h with
  | cameUp _ hl => exact .inl ⟨hl, rfl, rfl⟩
  | stillUp _ hl => exact .inr ⟨hl, rfl, rfl⟩
  | sameError he => exact absurd hr he.1
  | newError he => exact absurd hr he.1
  | _ => omega

theorem Applied.eq_of_error (h : Applied pod s r w s' i) (he : PagingError pod r) :
    (s.lastcheck = r ∧ s' = { s with downct := s.downct + 1 } ∧ i = downIntent s') ∨
    (s.lastcheck ≠ r ∧ s' = { s with downct := 1, lastcheck := r, deathtime := w } ∧ i = downIntent s') := by
  cases h with
  | degraded hr hp => exact absurd (he.2.2 hr) (by simp [hp])
  | noDns hr => exact absurd hr he.2.1
  | cameUp hr => exact absurd hr he.1
  | stillUp hr => exact absurd hr he.1
  | sameError _ hl => exact .inl ⟨hl, rfl, rfl⟩
  | newError _ hl => exact .inr ⟨hl, rfl, rfl⟩

end Frame

end Psysmon
