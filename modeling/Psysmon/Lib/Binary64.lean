import Mathlib

/-!
# Psysmon.Lib.Binary64 — rounding to double precision

A finite double is the rational number it denotes.  `round q` is the double nearest to `q`, ties to even, `none` where
the nearest one would be infinite; a rational is a double exactly if rounding keeps it (`IsDouble`).

* `round_of_grid`: an integer of at most 53 bits, scaled by a power of two in range, is a double.
* `isDouble_of_round`: a rounded value is a double.
* `round_eq_none_iff`: the values that are rounded out of range.
-/

namespace Psysmon.Lib.Binary64

/-- The nearest integer, ties to even. -/
def roundEven (x : ℚ) : ℤ :=
  if x - ⌊x⌋ < 1 / 2 then ⌊x⌋ else if 1 / 2 < x - ⌊x⌋ then ⌊x⌋ + 1 else ⌊x⌋ + ⌊x⌋ % 2

/-- The exponent of the last place of the doubles around `q`. -/
def ulpExp (q : ℚ) : ℤ := max (Int.log 2 |q|) (-1022) - 52

/-- The double nearest to `q`. -/
def round (q : ℚ) : Option ℚ :=
  let v := (roundEven (q / 2 ^ ulpExp q) : ℚ) * 2 ^ ulpExp q
  if |v| < 2 ^ 1024 then some v else none

def IsDouble (v : ℚ) : Prop := round v = some v

@[simp] theorem roundEven_intCast (n : ℤ) : roundEven (n : ℚ) = n := by
  simp [roundEven]

theorem roundEven_bounds (x : ℚ) : ⌊x⌋ ≤ roundEven x ∧ roundEven x ≤ ⌊x⌋ + 1 := by
  unfold roundEven
  split_ifs <;> omega

theorem abs_roundEven_le {x : ℚ} {n : ℕ} (h : |x| < n) : |roundEven x| ≤ n := by
  obtain ⟨h1, h2⟩ := roundEven_bounds x
  rw [abs_lt] at h
  have h3 : ⌊x⌋ < (n : ℤ) := Int.floor_lt.mpr (by exact_mod_cast h.2)
  have h4 : -(n : ℤ) ≤ ⌊x⌋ := Int.le_floor.mpr (by push_cast; exact h.1.le)
  rw [abs_le]
  omega

theorem abs_lt_zpow_ulpExp (q : ℚ) : |q| < 2 ^ (ulpExp q + 53) := by
  have h1 : |q| < (2 : ℕ) ^ (Int.log 2 |q| + 1) := Int.lt_zpow_succ_log_self (by norm_num) _
  have h2 : ((2 : ℕ) : ℚ) ^ (Int.log 2 |q| + 1) ≤ 2 ^ (ulpExp q + 53) := by
    push_cast
    refine zpow_le_zpow_right₀ (by norm_num) ?_
    unfold ulpExp
    omega
  exact h1.trans_le h2

/-- A value on the grid of its own last place is kept by rounding. -/
theorem round_of_int {v : ℚ} {n : ℤ} (h : v = n * 2 ^ ulpExp v) (hv : |v| < 2 ^ 1024) : round v = some v := by
  have hne : (2 : ℚ) ^ ulpExp v ≠ 0 := zpow_ne_zero _ (by norm_num)
  have hdiv : v / 2 ^ ulpExp v = n := by
    rw [div_eq_iff hne]
    exact h
  unfold round
  dsimp only
  rw [hdiv, roundEven_intCast, ← h, if_pos hv]

/-- **Scaled integers of at most 53 bits are doubles.** -/
theorem round_of_grid {k u : ℤ} (hk : |k| ≤ 2 ^ 53) (hu : -1074 ≤ u) (hv : |(k : ℚ) * 2 ^ u| < 2 ^ 1024) :
    round ((k : ℚ) * 2 ^ u) = some ((k : ℚ) * 2 ^ u) := by
  have h2 : (2 : ℚ) ≠ 0 := by norm_num
  by_cases hk0 : k = 0
  · subst hk0
    simp [round, roundEven]
  by_cases hle : ulpExp ((k : ℚ) * 2 ^ u) ≤ u
  · -- a finer last place: scale the integer up
    generalize hv' : (k : ℚ) * 2 ^ u = v at *
    refine round_of_int (n := k * 2 ^ (u - ulpExp v).toNat) ?_ hv
    have hz : ((2 : ℚ) ^ (u - ulpExp v).toNat) = 2 ^ (u - ulpExp v) := by
      rw [← zpow_natCast, Int.toNat_of_nonneg (by omega)]
    push_cast
    rw [hz, ← hv', mul_assoc, ← zpow_add₀ h2]
    congr 2
    omega
  · -- a coarser one: only the power of two at the top of the range
    have hlog : u + 52 < Int.log 2 |(k : ℚ) * 2 ^ u| := by
      unfold ulpExp at hle
      omega
    have hpos : (0 : ℚ) < 2 ^ u := zpow_pos (by norm_num) u
    have habs : |(k : ℚ) * 2 ^ u| = |(k : ℚ)| * 2 ^ u := by rw [abs_mul, abs_of_pos hpos]
    have hvpos : (0 : ℚ) < |(k : ℚ) * 2 ^ u| := abs_pos.mpr (mul_ne_zero (by exact_mod_cast hk0) hpos.ne')
    have hge : (2 : ℚ) ^ (u + 53) ≤ |(k : ℚ) * 2 ^ u| := by
      have := (Int.zpow_le_iff_le_log (b := 2) (by norm_num) hvpos (x := u + 53)).mpr (by omega)
      exact_mod_cast this
    have hk53 : |k| = 2 ^ 53 := by
      refine le_antisymm hk ?_
      rw [habs, zpow_add₀ h2, mul_comm] at hge
      have := le_of_mul_le_mul_right hge hpos
      exact_mod_cast this
    have habsv : |(k : ℚ) * 2 ^ u| = 2 ^ (u + 53) := by
      rw [habs, ← Int.cast_abs, hk53, zpow_add₀ h2, mul_comm]
      norm_num
    have hlog' : Int.log 2 |(k : ℚ) * 2 ^ u| = u + 53 := by
      rw [habsv]
      exact_mod_cast Int.log_zpow (R := ℚ) (b := 2) (by norm_num) (u + 53)
    have hulp : ulpExp ((k : ℚ) * 2 ^ u) = u + 1 := by
      unfold ulpExp
      rw [hlog']
      omega
    obtain ⟨n, hn⟩ : ∃ n : ℤ, k = 2 * n := by
      rcases abs_eq (by norm_num : (0 : ℤ) ≤ 2 ^ 53) |>.mp hk53 with h | h
      · exact ⟨2 ^ 52, by rw [h]; norm_num⟩
      · exact ⟨-2 ^ 52, by rw [h]; norm_num⟩
    refine round_of_int (n := n) ?_ hv
    rw [hulp, zpow_add₀ h2, hn]
    push_cast
    ring

/-- **A rounded value is a double.** -/
theorem isDouble_of_round {q v : ℚ} (h : round q = some v) : IsDouble v := by
  unfold round at h
  dsimp only at h
  split at h
  · rename_i hv
    obtain rfl := Option.some.inj h
    refine round_of_grid ?_ ?_ hv
    · have hpos : (0 : ℚ) < 2 ^ ulpExp q := zpow_pos (by norm_num) _
      have hlt : |q / 2 ^ ulpExp q| < ((2 ^ 53 : ℕ) : ℚ) := by
        rw [abs_div, abs_of_pos hpos, div_lt_iff₀ hpos]
        have := abs_lt_zpow_ulpExp q
        rw [zpow_add₀ (by norm_num), mul_comm] at this
        exact_mod_cast this
      exact_mod_cast abs_roundEven_le hlt
    · unfold ulpExp
      omega
  · simp at h

/-! ### Overflow -/

/-- Below the midpoint before `n`, rounding stays below `n`. -/
theorem roundEven_lt {x : ℚ} {n : ℤ} (h : x < n - 1 / 2) : roundEven x < n := by
  have hfl : (⌊x⌋ : ℚ) ≤ x := Int.floor_le x
  have hlt : ⌊x⌋ < n := by
    have : (⌊x⌋ : ℚ) < n := by linarith
    exact_mod_cast this
  have hmid : ⌊x⌋ = n - 1 → x - ⌊x⌋ < 1 / 2 := by
    intro he
    have : (⌊x⌋ : ℚ) = n - 1 := by exact_mod_cast he
    linarith
  unfold roundEven
  split_ifs with h1 h2
  · exact hlt
  · have hne : ⌊x⌋ ≠ n - 1 := fun he => h1 (hmid he)
    omega
  · have hne : ⌊x⌋ ≠ n - 1 := fun he => h1 (hmid he)
    omega

/-- From the midpoint before an even `n` on, rounding reaches `n`. -/
theorem le_roundEven {x : ℚ} {n : ℤ} (hn : Even n) (h : n - 1 / 2 ≤ x) : n ≤ roundEven x := by
  have hlt : x < ⌊x⌋ + 1 := Int.lt_floor_add_one x
  have hge : n - 1 ≤ ⌊x⌋ := by
    refine Int.le_floor.mpr ?_
    push_cast
    linarith
  have hmid : ⌊x⌋ = n - 1 → 1 / 2 ≤ x - ⌊x⌋ := by
    intro he
    have : (⌊x⌋ : ℚ) = n - 1 := by exact_mod_cast he
    linarith
  obtain ⟨k, rfl⟩ := hn
  unfold roundEven
  split_ifs with h1 h2
  · have hne : ⌊x⌋ ≠ k + k - 1 := fun he => absurd (hmid he) (not_le.mpr h1)
    omega
  · omega
  · omega

theorem roundEven_neg (x : ℚ) : roundEven (-x) = -roundEven x := by
  by_cases hx : x = ⌊x⌋
  · rw [hx, ← Int.cast_neg, roundEven_intCast, roundEven_intCast]
  have h1 : (⌊x⌋ : ℚ) < x := lt_of_le_of_ne (Int.floor_le x) (Ne.symm hx)
  have h2 : x < ⌊x⌋ + 1 := Int.lt_floor_add_one x
  have hfl : ⌊-x⌋ = -⌊x⌋ - 1 := by
    rw [Int.floor_eq_iff]
    push_cast
    constructor <;> linarith
  unfold roundEven
  rw [hfl]
  push_cast
  split_ifs <;> first | omega | (exfalso; linarith)

theorem ulpExp_neg (q : ℚ) : ulpExp (-q) = ulpExp q := by rw [ulpExp, ulpExp, abs_neg]

theorem round_neg (q : ℚ) : round (-q) = (round q).map (-·) := by
  unfold round
  dsimp only
  rw [ulpExp_neg, neg_div, roundEven_neg, Int.cast_neg, neg_mul, abs_neg]
  split <;> rfl

theorem IsDouble.neg {v : ℚ} (h : IsDouble v) : IsDouble (-v) := by
  rw [IsDouble, round_neg, h]
  rfl

/-- **Overflow**: rounding to nearest leaves the range from the midpoint after the largest double on. -/
theorem round_eq_none_iff {q : ℚ} : round q = none ↔ 2 ^ 1024 - 2 ^ 970 ≤ |q| := by
  wlog hq : 0 ≤ q generalizing q
  · rw [← abs_neg, ← this (by linarith), round_neg, Option.map_eq_none_iff]
  rw [abs_of_nonneg hq]
  have hpos : (0 : ℚ) < 2 ^ ulpExp q := zpow_pos (by norm_num) _
  have hx : 0 ≤ roundEven (q / 2 ^ ulpExp q) := by
    refine le_roundEven ⟨0, rfl⟩ ?_
    have := div_nonneg hq hpos.le
    push_cast
    linarith
  have hv : (0 : ℚ) ≤ roundEven (q / 2 ^ ulpExp q) * 2 ^ ulpExp q := mul_nonneg (by exact_mod_cast hx) hpos.le
  have hnone : round q = none ↔ (2 : ℚ) ^ 1024 ≤ roundEven (q / 2 ^ ulpExp q) * 2 ^ ulpExp q := by
    unfold round
    dsimp only
    rw [abs_of_nonneg hv]
    split
    · rename_i h
      exact ⟨fun hs => (nomatch hs), fun hge => absurd h (not_lt.mpr hge)⟩
    · rename_i h
      exact ⟨fun _ => not_lt.mp h, fun _ => rfl⟩
  rw [hnone]
  have hlt : q < 2 ^ (ulpExp q + 53) := by
    have := abs_lt_zpow_ulpExp q
    rwa [abs_of_nonneg hq] at this
  -- every bound below is a small multiple of the unit `2 ^ 970`
  have hunit : ∀ k : ℕ, (2 : ℚ) ^ ((970 + k : ℕ) : ℤ) = 2 ^ k * 2 ^ 970 := by
    intro k
    rw [zpow_natCast, pow_add, mul_comm]
  have htop : (2 : ℚ) ^ 1024 = 2 ^ 54 * 2 ^ 970 := by rw [← pow_add]
  rw [htop]
  have hP : (0 : ℚ) < 2 ^ 970 := pow_pos (by norm_num) _
  generalize (2 : ℚ) ^ 970 = P at hunit hP ⊢
  rcases lt_trichotomy (ulpExp q) 971 with hu | hu | hu
  · -- far below the end of the range
    have hxlt : q / 2 ^ ulpExp q < ((2 ^ 53 + 1 : ℤ) : ℚ) - 1 / 2 := by
      rw [div_lt_iff₀ hpos]
      refine hlt.trans_le ?_
      rw [zpow_add₀ (by norm_num), mul_comm]
      exact mul_le_mul_of_nonneg_right (by norm_num) hpos.le
    have hle : roundEven (q / 2 ^ ulpExp q) ≤ 2 ^ 53 := Int.lt_add_one_iff.mp (roundEven_lt hxlt)
    have hpow : (2 : ℚ) ^ ulpExp q ≤ P :=
      (zpow_le_zpow_right₀ (by norm_num) (by omega)).trans_eq ((hunit 0).trans (one_mul P))
    have h1 : (roundEven (q / 2 ^ ulpExp q) : ℚ) * 2 ^ ulpExp q ≤ 2 ^ 53 * P :=
      mul_le_mul (by exact_mod_cast hle) hpow hpos.le (by norm_num)
    have h2 : q < 2 ^ 53 * P :=
      (hlt.trans_le (zpow_le_zpow_right₀ (by norm_num) (by omega))).trans_eq (hunit 53)
    constructor <;> intro h <;> linarith
  · -- the last binade: the grid has the step `2 ^ 971`
    rw [hu, show (2 : ℚ) ^ (971 : ℤ) = 2 ^ 1 * P from hunit 1]
    have hp : (0 : ℚ) < 2 ^ 1 * P := by linarith
    constructor
    · intro h
      by_contra hlt'
      have hround : roundEven (q / (2 ^ 1 * P)) < 2 ^ 53 := by
        refine roundEven_lt ?_
        rw [div_lt_iff₀ hp]
        refine (not_le.mp hlt').trans_eq ?_
        push_cast
        ring
      have := mul_lt_mul_of_pos_right (show (roundEven (q / (2 ^ 1 * P)) : ℚ) < 2 ^ 53 by exact_mod_cast hround) hp
      linarith
    · intro h
      have hround : 2 ^ 53 ≤ roundEven (q / (2 ^ 1 * P)) := by
        refine le_roundEven ⟨2 ^ 52, by norm_num⟩ ?_
        rw [le_div_iff₀ hp]
        refine le_trans (le_of_eq ?_) h
        push_cast
        ring
      have := mul_le_mul_of_nonneg_right (show (2 : ℚ) ^ 53 ≤ roundEven (q / (2 ^ 1 * P)) by exact_mod_cast hround)
        hp.le
      linarith
  · -- beyond the range
    have hlog : ulpExp q = Int.log 2 |q| - 52 := by
      unfold ulpExp at hu ⊢
      omega
    have hq0 : 0 < q := by
      rcases hq.lt_or_eq with h | h
      · exact h
      · rw [← h] at hu
        exact absurd hu (by simp [ulpExp])
    have hge : (2 : ℚ) ^ (ulpExp q + 52) ≤ q := by
      have := Int.zpow_log_le_self (b := 2) (by norm_num) hq0
      rw [hlog, abs_of_nonneg hq, sub_add_cancel]
      exact_mod_cast this
    have h1024 : 2 ^ 54 * P ≤ (2 : ℚ) ^ (ulpExp q + 52) :=
      (hunit 54).symm.trans_le (zpow_le_zpow_right₀ (by norm_num) (by omega))
    have hround : 2 ^ 52 ≤ roundEven (q / 2 ^ ulpExp q) := by
      refine le_roundEven ⟨2 ^ 51, by norm_num⟩ ?_
      rw [le_div_iff₀ hpos]
      refine le_trans ?_ hge
      rw [zpow_add₀ (by norm_num), mul_comm]
      exact mul_le_mul_of_nonneg_left (by norm_num) hpos.le
    have hbig : (2 : ℚ) ^ (ulpExp q + 52) ≤ roundEven (q / 2 ^ ulpExp q) * 2 ^ ulpExp q := by
      rw [zpow_add₀ (by norm_num), mul_comm]
      exact mul_le_mul_of_nonneg_right (by exact_mod_cast hround) hpos.le
    exact iff_of_true (h1024.trans hbig) (by linarith)

end Psysmon.Lib.Binary64
