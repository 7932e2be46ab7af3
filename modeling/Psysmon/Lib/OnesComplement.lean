import Mathlib

/-!
# Psysmon.Lib.OnesComplement — one's-complement sums

The words are the numbers `0 .. M`, where `M` has all bits set.  One's-complement addition adds a carry out of the top
at the bottom, so it is addition modulo `M` with two words for zero: `0` is the sum of zeros only, and every other
multiple of `M` is `M`.

* `residue M n`: the word that stands for the number `n`; `residue_congr` says what it depends on.
* `residue_carry`: adding the part above the word to the part inside it does not change the word.
* `sum_eq_residue`: the sum of words is the word of their sum.
-/

namespace Psysmon.Lib.OnesComplement

/-- The word that stands for `n`. -/
def residue (M n : ℕ) : ℕ := if n = 0 then 0 else (n - 1) % M + 1

/-- Addition with end-around carry. -/
def add (M a b : ℕ) : ℕ := if a + b ≤ M then a + b else a + b - M

/-- The one's-complement sum of a list of words. -/
def sum (M : ℕ) (ws : List ℕ) : ℕ := ws.foldl (add M) 0

variable {M a b n : ℕ}

theorem residue_le (hM : 0 < M) (n : ℕ) : residue M n ≤ M := by
  unfold residue
  split
  · exact Nat.zero_le _
  · exact Nat.mod_lt _ hM

theorem residue_eq_zero_iff : residue M n = 0 ↔ n = 0 := by
  unfold residue
  split <;> simp_all

theorem residue_of_le (h : n ≤ M) : residue M n = n := by
  unfold residue
  split
  · rename_i h0
    exact h0.symm
  · rw [Nat.mod_eq_of_lt (by omega)]
    omega

theorem residue_modEq (M n : ℕ) : residue M n ≡ n [MOD M] := by
  unfold residue
  split
  · rename_i h0
    rw [h0]
  · have h := (Nat.mod_modEq (n - 1) M).add_right 1
    rwa [Nat.sub_add_cancel (by omega)] at h

/-- The word of a number depends on its remainder and on whether it is zero. -/
theorem residue_congr (h : a ≡ b [MOD M]) (h0 : a = 0 ↔ b = 0) : residue M a = residue M b := by
  unfold residue
  by_cases ha : a = 0
  · rw [if_pos ha, if_pos (h0.mp ha)]
  · have hb : b ≠ 0 := fun hb => ha (h0.mpr hb)
    rw [if_neg ha, if_neg hb]
    have hpred : a - 1 ≡ b - 1 [MOD M] := by
      refine Nat.ModEq.add_right_cancel' 1 ?_
      rwa [Nat.sub_add_cancel (by omega), Nat.sub_add_cancel (by omega)]
    rw [hpred]

/-- **End-around carry**: the part of a number above the word may be added to the part inside it. -/
theorem residue_carry (M n : ℕ) : residue M (n % (M + 1) + n / (M + 1)) = residue M n := by
  have hsplit : n % (M + 1) + (M + 1) * (n / (M + 1)) = n := Nat.mod_add_div n (M + 1)
  generalize n % (M + 1) = lo at hsplit ⊢
  generalize n / (M + 1) = hi at hsplit ⊢
  subst hsplit
  refine residue_congr ?_ ?_
  · calc lo + hi ≡ lo + hi + M * hi [MOD M] := by simp [Nat.ModEq]
      _ = lo + (M + 1) * hi := by ring
  · simp

theorem add_eq_residue (ha : a ≤ M) (hb : b ≤ M) : add M a b = residue M (a + b) := by
  unfold add
  split
  · rename_i h
    exact (residue_of_le h).symm
  · rename_i h
    rw [← residue_of_le (show a + b - M ≤ M by omega)]
    refine residue_congr ?_ (by omega)
    have hab : a + b - M + M = a + b := by omega
    calc a + b - M ≡ a + b - M + M [MOD M] := by simp [Nat.ModEq]
      _ = a + b := hab

theorem residue_add (M a b : ℕ) : residue M (residue M a + b) = residue M (a + b) := by
  refine residue_congr ((residue_modEq M a).add_right b) ?_
  have h := residue_eq_zero_iff (M := M) (n := a)
  omega

theorem foldl_add_residue (hM : 0 < M) {ws : List ℕ} (h : ∀ w ∈ ws, w ≤ M) (a : ℕ) :
    ws.foldl (add M) (residue M a) = residue M (a + ws.sum) := by
  induction ws generalizing a with
  | nil => rfl
  | cons w ws ih =>
    rw [List.foldl_cons, add_eq_residue (residue_le hM a) (h w (by simp)), residue_add,
      ih (fun v hv => h v (by simp [hv])), List.sum_cons, Nat.add_assoc]

/-- **The sum of words is the word of their sum.** -/
theorem sum_eq_residue (hM : 0 < M) {ws : List ℕ} (h : ∀ w ∈ ws, w ≤ M) : sum M ws = residue M ws.sum := by
  have hfold := foldl_add_residue hM h 0
  rwa [Nat.zero_add] at hfold

/-- A word and its complement add up to the word with all bits set. -/
theorem residue_add_complement (hM : 0 < M) (n : ℕ) : residue M (n + (M - residue M n)) = M := by
  have hle := residue_le hM n
  have hsame : residue M (n + (M - residue M n)) = residue M (residue M n + (M - residue M n)) := (residue_add M n _).symm
  rw [hsame, Nat.add_sub_cancel' hle]
  exact residue_of_le le_rfl

end Psysmon.Lib.OnesComplement
