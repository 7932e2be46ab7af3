import Mathlib

/-!
# Psysmon.Lib.Fold — folds that may fail

`xs.foldlM f a` in `Except`: the steps run until one of them fails.

* `foldlM_append_ok`: a fold that succeeds splits at any point.
* `foldlM_error_iff`: a fold that fails has a first step that fails, after steps that succeed.
-/

namespace Psysmon.Lib

variable {α β δ : Type*} {f : β → α → Except δ β}

theorem bind_ok_iff.{u, v} {δ : Type u} {β γ : Type v} {x : Except δ β} {g : β → Except δ γ} {c : γ} :
    x >>= g = .ok c ↔ ∃ b, x = .ok b ∧ g b = .ok c := by
  cases x with
  | error e => simp [bind, Except.bind]
  | ok b => simp [bind, Except.bind]

theorem bind_error_iff.{u, v} {δ : Type u} {β γ : Type v} {x : Except δ β} {g : β → Except δ γ} {e : δ} :
    x >>= g = .error e ↔ x = .error e ∨ ∃ b, x = .ok b ∧ g b = .error e := by
  cases x with
  | error d => simp [bind, Except.bind]
  | ok b => simp [bind, Except.bind]

theorem foldlM_cons_ok {x : α} {xs : List α} {a c : β} :
    (x :: xs).foldlM f a = .ok c ↔ ∃ b, f a x = .ok b ∧ xs.foldlM f b = .ok c := by
  rw [List.foldlM_cons, bind_ok_iff]

theorem foldlM_append_ok {xs ys : List α} {a c : β} :
    (xs ++ ys).foldlM f a = .ok c ↔ ∃ b, xs.foldlM f a = .ok b ∧ ys.foldlM f b = .ok c := by
  rw [List.foldlM_append, bind_ok_iff]

theorem foldlM_error_iff {xs : List α} {a : β} {e : δ} : xs.foldlM f a = .error e ↔
    ∃ pre x post b, xs = pre ++ x :: post ∧ pre.foldlM f a = .ok b ∧ f b x = .error e := by
  constructor
  · intro h
    induction xs generalizing a with
    | nil => cases h
    | cons x xs ih =>
      rw [List.foldlM_cons] at h
      cases hx : f a x with
      | error e' =>
        rw [hx] at h
        exact ⟨[], x, xs, a, rfl, rfl, hx.trans h⟩
      | ok b =>
        rw [hx] at h
        obtain ⟨pre, y, post, c, rfl, hpre, hy⟩ := ih h
        exact ⟨x :: pre, y, post, c, rfl, foldlM_cons_ok.mpr ⟨b, hx, hpre⟩, hy⟩
  · rintro ⟨pre, x, post, b, rfl, hpre, hx⟩
    rw [List.foldlM_append, hpre]
    change (x :: post).foldlM f b = _
    rw [List.foldlM_cons, hx]
    rfl

end Psysmon.Lib
