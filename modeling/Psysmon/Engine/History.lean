import Psysmon.Engine.State

/-!
# Psysmon.Engine.History — the state machine in closed form (`engine/state.py`)

`apply_result` compares a result with the previous one only.  Over a whole history its counters say more: `downct` is
the length of the block of equal errors at the end of the history and `deathtime` is the time of that block's first
result.

* `ClosedForm`: what the fields of a node's state are, in terms of the results it has seen.
* `ClosedForm.applied`: one result keeps it; `closedForm_play`: so does every history of a fresh node.
* `apply_result_closed_form`: the closed form, and the intents of the next step.
-/

namespace Psysmon

/-- What can happen to the state of a node: a result is applied, or the notifier, which has paged, marks it. -/
inductive NodeInput
  | result (code : ℤ) (wall : ℚ)
  | contacted

namespace NodeInput

/-- The state after an input. -/
def run (pod : Bool) (s : NodeState) : NodeInput → NodeState
  | .result code wall => (applyResult s code wall pod).1
  | .contacted => { s with contacted := true }

/-- The result of an input. -/
def verdict : NodeInput → Option (ℤ × ℚ)
  | .result code wall => some (code, wall)
  | .contacted => none

end NodeInput

/-- A whole history. -/
def play (pod : Bool) (s : NodeState) (inputs : List NodeInput) : NodeState := inputs.foldl (NodeInput.run pod) s

/-- The `(result, wall time)` pairs of a history. -/
def verdicts (inputs : List NodeInput) : List (ℤ × ℚ) := inputs.filterMap NodeInput.verdict

/-- The last result, `OK` if there is none. -/
def lastResult (h : List (ℤ × ℚ)) : ℤ := (h.getLast?.map Prod.fst).getD Status.ok.code

/-- The maximal block of results equal to `e` at the end of a history. -/
def trailing (e : ℤ) (h : List (ℤ × ℚ)) : List (ℤ × ℚ) := h.rtakeWhile fun p => p.1 = e

/-- The time of the first result of that block. -/
def blockStart (e : ℤ) (h : List (ℤ × ℚ)) : Option ℚ := (trailing e h).head?.map Prod.snd

/-- The fields of a node's state by the results it has seen. -/
structure ClosedForm (pod : Bool) (h : List (ℤ × ℚ)) (s : NodeState) : Prop where
  lastcheck : s.lastcheck = lastResult h
  error : PagingError pod (lastResult h) → s.downct = (trailing (lastResult h) h).length ∧
    ∃ w, blockStart (lastResult h) h = some w ∧ s.deathtime = .finite w
  noDns : lastResult h = Status.noDns.code → ∃ w, blockStart Status.noDns.code h = some w ∧ s.deathtime = .finite w
  up : lastResult h = Status.ok.code → s.downct = 0 ∧
    ((∃ p ∈ h, p.1 ≠ Status.ok.code) → ∃ w, blockStart Status.ok.code h = some w ∧ s.lastUp = .finite w)

/-! ### The block at the end -/

@[simp] theorem lastResult_nil : lastResult [] = 0 := rfl

@[simp] theorem lastResult_concat (h : List (ℤ × ℚ)) (e : ℤ) (w : ℚ) : lastResult (h ++ [(e, w)]) = e := by
  simp [lastResult]

theorem trailing_concat (h : List (ℤ × ℚ)) (e : ℤ) (w : ℚ) :
    trailing e (h ++ [(e, w)]) = trailing e h ++ [(e, w)] :=
  List.rtakeWhile_concat_pos _ _ _ (decide_eq_true rfl)

/-- A history that ends in another result has no block; `e = 0` is the last result of the empty one. -/
theorem trailing_eq_nil {h : List (ℤ × ℚ)} {e : ℤ} (hne : lastResult h ≠ e) : trailing e h = [] := by
  induction h using List.reverseRecOn with
  | nil => rfl
  | append_singleton h p =>
    have hp : p.1 ≠ e := by simpa [lastResult] using hne
    exact List.rtakeWhile_concat_neg _ _ _ (by simpa using hp)

/-- A block that starts here. -/
theorem blockStart_new {h : List (ℤ × ℚ)} {e : ℤ} (w : ℚ) (hne : lastResult h ≠ e) :
    blockStart e (h ++ [(e, w)]) = some w := by
  rw [blockStart, trailing_concat, trailing_eq_nil hne]
  rfl

/-- A block that goes on. -/
theorem blockStart_same {h : List (ℤ × ℚ)} {e : ℤ} {t : ℚ} (w : ℚ) (ht : blockStart e h = some t) :
    blockStart e (h ++ [(e, w)]) = some t := by
  obtain ⟨p, hp, rfl⟩ := Option.map_eq_some_iff.mp ht
  rw [blockStart, trailing_concat, List.head?_append, hp]
  rfl

/-! ### One result -/

section Step

variable {pod : Bool} {h : List (ℤ × ℚ)} {s s' : NodeState} {e : ℤ} {w : ℚ} {i : PageIntent}

/-- **One result keeps the closed form**: an equal one extends the block at the end, another one starts its own. -/
theorem ClosedForm.applied (hs : ClosedForm pod h s) (ha : Applied pod s e w s' i) :
    ClosedForm pod (h ++ [(e, w)]) s' := by
  have hlast : s'.lastcheck = e := ha.lastcheck_eq
  refine ⟨by rw [hlast, lastResult_concat], fun he => ?_, fun h5 => ?_, fun h0 => ?_⟩
  · rw [lastResult_concat] at he ⊢
    rcases ha.eq_of_error he with ⟨hl, rfl, -⟩ | ⟨hl, rfl, -⟩
    · rw [hs.lastcheck] at hl
      obtain ⟨hct, t, ht, hd⟩ := hs.error (hl ▸ he)
      rw [hl] at hct ht
      refine ⟨?_, t, blockStart_same w ht, hd⟩
      rw [trailing_concat, List.length_append, Nat.cast_add, ← hct]
      rfl
    · rw [hs.lastcheck] at hl
      refine ⟨?_, w, blockStart_new w hl, rfl⟩
      rw [trailing_concat, trailing_eq_nil hl]
      rfl
  · rw [lastResult_concat] at h5
    subst h5
    obtain ⟨rfl, -⟩ := ha.eq_of_noDns rfl
    by_cases hl : s.lastcheck = 5
    · obtain ⟨t, ht, hd⟩ := hs.noDns (hs.lastcheck ▸ hl)
      exact ⟨t, blockStart_same w ht, by simpa [hl] using hd⟩
    · exact ⟨w, blockStart_new w (hs.lastcheck ▸ hl), by simp [hl]⟩
  · rw [lastResult_concat] at h0
    subst h0
    rcases ha.eq_of_up rfl with ⟨hl, rfl, -⟩ | ⟨hl, rfl, -⟩
    · exact ⟨rfl, fun _ => ⟨w, blockStart_new w (hs.lastcheck ▸ hl), rfl⟩⟩
    · obtain ⟨hct, hup⟩ := hs.up (hs.lastcheck ▸ hl)
      refine ⟨hct, fun ⟨p, hp, hne⟩ => ?_⟩
      -- the new result is `OK`, so the other one stood in the history before
      rcases List.mem_append.mp hp with hp | hp
      · obtain ⟨t, ht, hd⟩ := hup ⟨p, hp, hne⟩
        exact ⟨t, blockStart_same w ht, hd⟩
      · obtain rfl := List.mem_singleton.mp hp
        exact absurd rfl hne

theorem ClosedForm.contacted (hs : ClosedForm pod h s) : ClosedForm pod h { s with contacted := true } :=
  ⟨hs.lastcheck, hs.error, hs.noDns, hs.up⟩

/-- The intents of a step, by the state before it and the counter after it. -/
theorem Applied.intent_iff (ha : Applied pod s e w s' i) :
    (i = .down ↔ PagingError pod e ∧ s'.maxDown ≤ s'.downct ∧ s.contacted = false) ∧
      (i = .recovery ↔ e = Status.ok.code ∧ s.lastcheck ≠ Status.ok.code ∧ s.contacted = true) := by
  have hdown : ∀ t : NodeState, t.contacted = s.contacted → PagingError pod e →
      (downIntent t = .down ↔ PagingError pod e ∧ t.maxDown ≤ t.downct ∧ s.contacted = false) ∧
        (downIntent t = .recovery ↔ e = 0 ∧ s.lastcheck ≠ 0 ∧ s.contacted = true) := by
    intro t ht he
    have h0 : e ≠ 0 := he.1
    unfold downIntent
    rw [ht]
    split
    · rename_i hc
      exact ⟨by simp [he, hc.1, hc.2], by simp [h0]⟩
    · rename_i hc
      refine ⟨⟨fun hn => (nomatch hn), fun hn => absurd hn.2 hc⟩, by simp [h0]⟩
  cases ha with
  | degraded hr hp => exact ⟨by simp [PagingError, hr, hp], by simp [hr]⟩
  | noDns hr => exact ⟨by simp [PagingError, hr], by simp [hr]⟩
  | cameUp hr hl => cases hc : s.contacted <;> simp [PagingError, hr, hl]
  | stillUp hr hl => exact ⟨by simp [PagingError, hr], by simp [hl]⟩
  | sameError he => exact hdown _ rfl he
  | newError he => exact hdown _ rfl he

end Step

/-! ### A whole history -/

theorem closedForm_fresh (pod : Bool) (maxDown : ℤ) (lastUp : Lib.Number.PyFloat) :
    ClosedForm pod [] { maxDown := maxDown, lastUp := lastUp } :=
  ⟨rfl, fun he => absurd rfl he.1, fun h5 => absurd h5 (by decide), fun _ => ⟨rfl, fun ⟨p, hp, _⟩ => by simp at hp⟩⟩

theorem closedForm_play {pod : Bool} {s : NodeState} (hs : ClosedForm pod [] s) (inputs : List NodeInput) :
    ClosedForm pod (verdicts inputs) (play pod s inputs) := by
  induction inputs using List.reverseRecOn with
  | nil => exact hs
  | append_singleton inputs x ih =>
    rw [play, List.foldl_append, verdicts, List.filterMap_append]
    cases x with
    | result code wall => exact ih.applied (applied_applyResult pod _ code wall)
    | contacted =>
      show ClosedForm pod (verdicts inputs ++ []) _
      rw [List.append_nil]
      exact ih.contacted

theorem maxDown_play (pod : Bool) (s : NodeState) (inputs : List NodeInput) :
    (play pod s inputs).maxDown = s.maxDown := by
  induction inputs using List.reverseRecOn with
  | nil => rfl
  | append_singleton inputs x ih =>
    rw [play, List.foldl_append]
    cases x with
    | result code wall => exact (applied_applyResult pod _ code wall).maxDown_eq.trans ih
    | contacted => exact ih

/-- **The state machine in closed form.**  The notifier may mark the node anywhere in the history. -/
theorem apply_result_closed_form (pod : Bool) (maxDown : ℤ) (lastUp : Lib.Number.PyFloat) (inputs : List NodeInput) :
    let s := play pod { maxDown := maxDown, lastUp := lastUp } inputs
    ClosedForm pod (verdicts inputs) s ∧ ∀ (e : ℤ) (w : ℚ),
      let s' := (applyResult s e w pod).1
      let intent := (applyResult s e w pod).2.intent
      ClosedForm pod (verdicts inputs ++ [(e, w)]) s' ∧
        (intent = .down ↔ PagingError pod e ∧ maxDown ≤ s'.downct ∧ s.contacted = false) ∧
        (intent = .recovery ↔ e = Status.ok.code ∧ lastResult (verdicts inputs) ≠ Status.ok.code ∧
          s.contacted = true) := by
  intro s
  have hs : ClosedForm pod (verdicts inputs) s := closedForm_play (closedForm_fresh pod maxDown lastUp) inputs
  refine ⟨hs, fun e w => ?_⟩
  have ha := applied_applyResult pod s e w
  have hmax : (applyResult s e w pod).1.maxDown = maxDown := ha.maxDown_eq.trans (maxDown_play pod _ inputs)
  have hi := ha.intent_iff
  rw [hmax, hs.lastcheck] at hi
  exact ⟨hs.applied ha, hi⟩

end Psysmon
