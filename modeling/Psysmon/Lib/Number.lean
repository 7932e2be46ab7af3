import Psysmon.Lib.Text
import Psysmon.Lib.Binary64

/-!
# Psysmon.Lib.Number — Python's numbers as text

`int(text)` and `float(text)`, with the decimal digits of all scripts, the underscores and the length limit they know,
and the texts `str(int)` and `repr(float)` print.

* `int_intText`: an integer that can be printed is read back.
* `float_intText`, `float_repr`: so is a positive double, by its integer digits or by its shortest representation.
-/

namespace Psysmon.Lib.Number

open Text Binary64

/-! ### Digits -/

/-- The first digits of the Unicode blocks of ten decimal digits. -/
def decimalBlocks : List ℕ :=
  [0x30, 0x660, 0x6f0, 0x7c0, 0x966, 0x9e6, 0xa66, 0xae6, 0xb66, 0xbe6, 0xc66, 0xce6, 0xd66, 0xde6, 0xe50, 0xed0, 0xf20,
    0x1040, 0x1090, 0x17e0, 0x1810, 0x1946, 0x19d0, 0x1a80, 0x1a90, 0x1b50, 0x1bb0, 0x1c40, 0x1c50, 0xa620, 0xa8d0, 0xa900,
    0xa9d0, 0xa9f0, 0xaa50, 0xabf0, 0xff10, 0x104a0, 0x10d30, 0x11066, 0x110f0, 0x11136, 0x111d0, 0x112f0, 0x11450,
    0x114d0, 0x11650, 0x116c0, 0x11730, 0x118e0, 0x11950, 0x11c50, 0x11d50, 0x11da0, 0x16a60, 0x16ac0, 0x16b50, 0x1d7ce,
    0x1d7d8, 0x1d7e2, 0x1d7ec, 0x1d7f6, 0x1e140, 0x1e2f0, 0x1e950, 0x1fbf0]

/-- The value of a decimal digit. -/
def decimal (c : Char) : Option ℕ :=
  (decimalBlocks.find? fun b => b ≤ c.toNat && c.toNat < b + 10).map fun b => c.toNat - b

/-- `str.isdigit`, for one character: decimal digits, superscripts, circled digits and the like. -/
def isDigit (c : Char) : Bool :=
  (decimal c).isSome ||
    inRanges [(0xb2, 0xb3), (0xb9, 0xb9), (0x1369, 0x1371), (0x19da, 0x19da), (0x2070, 0x2070), (0x2074, 0x2079),
      (0x2080, 0x2089), (0x2460, 0x2468), (0x2474, 0x247c), (0x2488, 0x2490), (0x24ea, 0x24ea), (0x24f5, 0x24fd),
      (0x24ff, 0x24ff), (0x2776, 0x277e), (0x2780, 0x2788), (0x278a, 0x2792), (0x10a40, 0x10a43), (0x10e60, 0x10e68),
      (0x11052, 0x1105a), (0x1f100, 0x1f10a)] c

/-- `str.isdigit`. -/
def isdigit (t : Text) : Bool := !t.isEmpty && t.all isDigit

/-- The whitespace that `int` and `float` skip. -/
def numSpace (c : Char) : Bool := if c.toNat < 128 then inRanges [(0x9, 0xd), (0x20, 0x20)] c else isSpace c

/-- The digits of a run, with single underscores between them. -/
def digitsOf : Text → Option (List ℕ)
  | [] => none
  | c :: cs =>
    match decimal c with
    | none => none
    | some d =>
      match cs with
      | [] => some [d]
      | '_' :: cs' => (digitsOf cs').map (d :: ·)
      | c' :: cs' => (digitsOf (c' :: cs')).map (d :: ·)

/-- The number a digit string denotes. -/
def ofDigits (ds : List ℕ) : ℕ := ds.foldl (fun a d => 10 * a + d) 0

/-- An optional sign: is it negative, and what follows. -/
def signed : Text → Bool × Text
  | '-' :: t => (true, t)
  | '+' :: t => (false, t)
  | t => (false, t)

/-! ### Integers -/

/-- `sys.int_info.default_max_str_digits`. -/
def maxStrDigits : ℕ := 4300

/-- `int(text)`; `none` is `ValueError`. -/
def int (t : Text) : Option ℤ :=
  let s := signed (stripBy numSpace t)
  match digitsOf s.2 with
  | none => none
  | some ds => if ds.length ≤ maxStrDigits then some (if s.1 then -(ofDigits ds : ℤ) else ofDigits ds) else none

def digitChar (d : ℕ) : Char := Char.ofNat (48 + d)

/-- The decimal digits of a number, the first first. -/
def natDigits (n : ℕ) : List ℕ := if n = 0 then [0] else (Nat.digits 10 n).reverse

def natText (n : ℕ) : Text := (natDigits n).map digitChar

/-- The text of `str(n)`. -/
def intText (z : ℤ) : Text := if z < 0 then '-' :: natText z.natAbs else natText z.natAbs

/-- `str(n)` raises `ValueError` for longer integers. -/
def Printable (z : ℤ) : Prop := (natDigits z.natAbs).length ≤ maxStrDigits

instance (z : ℤ) : Decidable (Printable z) := inferInstanceAs (Decidable (_ ≤ _))

/-! ### Floats -/

/-- A Python `float`; the sign of a zero is not kept. -/
inductive PyFloat
  | finite (q : ℚ)
  | inf (neg : Bool)
  | nan
  deriving DecidableEq

instance : Coe ℚ PyFloat := ⟨.finite⟩

/-- A digit run, or nothing. -/
def optDigits (t : Text) : Option (List ℕ) := if t = [] then some [] else digitsOf t

/-- `digits [. digits]`: the digits before and after the point, not both empty. -/
def mantissa (t : Text) : Option (List ℕ × List ℕ) :=
  match t.dropWhile (· ≠ '.') with
  | [] => (digitsOf t).map (·, [])
  | _ :: frac =>
    match optDigits (t.takeWhile (· ≠ '.')), optDigits frac with
    | some a, some b => if a = [] ∧ b = [] then none else some (a, b)
    | _, _ => none

/-- A signed exponent. -/
def exponent (t : Text) : Option ℤ :=
  (digitsOf (signed t).2).map fun ds => if (signed t).1 then -(ofDigits ds : ℤ) else ofDigits ds

def isExpMark (c : Char) : Bool := c = 'e' || c = 'E'

/-- The exact value of an unsigned decimal literal. -/
def literal (t : Text) : Option ℚ :=
  match mantissa (t.takeWhile (!isExpMark ·)), (match t.dropWhile (!isExpMark ·) with
    | [] => some 0
    | _ :: x => exponent x) with
  | some (a, b), some e => some (ofDigits (a ++ b) * 10 ^ (e - b.length))
  | _, _ => none

/-- `float(text)`; `none` is `ValueError`. -/
def float (t : Text) : Option PyFloat :=
  let s := signed (stripBy numSpace t)
  if lower s.2 = "inf".toList ∨ lower s.2 = "infinity".toList then some (.inf s.1)
  else if lower s.2 = "nan".toList then some .nan
  else (literal s.2).map fun q =>
    match round q with
    | none => .inf s.1
    | some v => .finite (if s.1 then -v else v)

/-- The decimal with `n` significant digits that stands for `v`, as an integer times `10 ^ (log₁₀ v + 1 - n)`: the
nearer of the two neighbours of `v` if both round to it, otherwise the one that does. -/
def shortAt (v : ℚ) (n : ℕ) : Option ℤ :=
  let k := Int.log 10 v + 1 - n
  let x := v / 10 ^ k
  if round (⌊x⌋ * 10 ^ k) = some v then
    if round ((⌊x⌋ + 1 : ℤ) * 10 ^ k) = some v then some (roundEven x) else some ⌊x⌋
  else if round ((⌊x⌋ + 1 : ℤ) * 10 ^ k) = some v then some (⌊x⌋ + 1) else none

/-- The shortest decimal for `v`: its digits as an integer, and the power of ten.  Every double is exact with 1074
decimal places. -/
def shortest (v : ℚ) : Option (ℤ × ℤ) :=
  (List.range' 1 (Int.log 10 v + 1 + 1074).toNat).findSome? fun n =>
    (shortAt v n).map (·, Int.log 10 v + 1 - (n : ℤ))

/-- The exponent of `repr`, with at least two digits. -/
def expText (e : ℤ) : Text :=
  'e' :: (if e < 0 then '-' else '+') :: (if e.natAbs < 10 then '0' :: natText e.natAbs else natText e.natAbs)

/-- `format_float_short`: the digits `ds`, with the point after `decpt` of them. -/
def reprDigits (ds : Text) (decpt : ℤ) : Text :=
  if decpt ≤ -4 ∨ 16 < decpt then
    ds.take 1 ++ (if ds.length = 1 then [] else '.' :: ds.drop 1) ++ expText (decpt - 1)
  else if decpt ≤ 0 then "0.".toList ++ List.replicate (-decpt).toNat '0' ++ ds
  else if decpt < ds.length then ds.take decpt.toNat ++ '.' :: ds.drop decpt.toNat
  else ds ++ List.replicate (decpt - ds.length).toNat '0' ++ ".0".toList

/-- `repr` of a positive double. -/
def reprPos (v : ℚ) : Text :=
  match shortest v with
  | none => []
  | some (d, k) => reprDigits (((natDigits d.natAbs).rdropWhile (· = 0)).map digitChar) ((natDigits d.natAbs).length + k)

/-- `repr(x)`, for a number that is not integral. -/
def repr : PyFloat → Text
  | .finite q => if q < 0 then '-' :: reprPos (-q) else reprPos q
  | .inf neg => if neg then "-inf".toList else "inf".toList
  | .nan => "nan".toList

/-! ### Reading integers back -/

/-- The characters numbers are printed with. -/
def numChars : List Char := ['0', '1', '2', '3', '4', '5', '6', '7', '8', '9', '.', 'e', '+', '-']

theorem numChars_range : ∀ c ∈ numChars, 0x21 ≤ c.toNat ∧ c.toNat < 0x7f := by
  simp [numChars]

theorem numSpace_of_numChars : ∀ c ∈ numChars, numSpace c = false := by
  intro c hc
  obtain ⟨h1, h2⟩ := numChars_range c hc
  rw [numSpace, if_pos (by omega)]
  simp only [inRanges, List.any_cons, List.any_nil, Bool.or_false, Bool.or_eq_false_iff, Bool.and_eq_false_iff,
    decide_eq_false_iff_not]
  omega

theorem digitChar_mem : ∀ d < 10, digitChar d ∈ numChars := by decide

theorem mem_map_digitChar {ds : List ℕ} (h : ∀ d ∈ ds, d < 10) : ∀ c ∈ ds.map digitChar, c ∈ numChars := by
  intro c hc
  obtain ⟨d, hd, rfl⟩ := List.mem_map.mp hc
  exact digitChar_mem d (h d hd)

theorem decimal_digitChar : ∀ d < 10, decimal (digitChar d) = some d := by decide

theorem isDigit_digitChar : ∀ d < 10, isDigit (digitChar d) = true := by decide

theorem digitChar_ne : ∀ d < 10, digitChar d ≠ '_' ∧ digitChar d ≠ '-' ∧ digitChar d ≠ '+' ∧ digitChar d ≠ '.' ∧
    isExpMark (digitChar d) = false := by decide

theorem toLower_digitChar : ∀ d < 10, (digitChar d).toLower ≠ 'i' ∧ (digitChar d).toLower ≠ 'n' := by decide

/-- A non-empty list of decimal digits. -/
structure IsDigits (ds : List ℕ) : Prop where
  ne_nil : ds ≠ []
  lt : ∀ d ∈ ds, d < 10

theorem IsDigits.cons {d : ℕ} {ds : List ℕ} (hd : d < 10) (h : ∀ x ∈ ds, x < 10) : IsDigits (d :: ds) :=
  ⟨by simp, fun x hx => (List.mem_cons.mp hx).elim (fun h => h ▸ hd) (h x)⟩

theorem digitsOf_map {ds : List ℕ} (h : IsDigits ds) : digitsOf (ds.map digitChar) = some ds := by
  obtain ⟨hne, hlt⟩ := h
  induction ds with
  | nil => exact absurd rfl hne
  | cons d ds ih =>
    cases ds with
    | nil => simp [digitsOf, decimal_digitChar d (hlt d (by simp))]
    | cons d' ds =>
      have ih := ih (by simp) fun x hx => hlt x (by simp [hx])
      rw [List.map_cons, List.map_cons] at *
      rw [digitsOf, decimal_digitChar d (hlt d (by simp))]
      dsimp only
      split
      · rename_i heq
        exact absurd heq (by simp)
      · rename_i heq
        exact absurd (List.cons.inj heq).1 (digitChar_ne d' (hlt d' (by simp))).1
      · rename_i heq
        rw [← heq, ih]
        rfl

theorem natDigits_isDigits (n : ℕ) : IsDigits (natDigits n) := by
  unfold natDigits
  split
  · exact ⟨by simp, by simp⟩
  · rename_i h
    exact ⟨by simpa [Nat.digits_eq_nil_iff_eq_zero] using h, fun d hd => Nat.digits_lt_base (by norm_num) (List.mem_reverse.mp hd)⟩

theorem ofDigits_append (a b : List ℕ) : ofDigits (a ++ b) = ofDigits a * 10 ^ b.length + ofDigits b := by
  unfold ofDigits
  induction b using List.reverseRecOn with
  | nil => simp
  | append_singleton b d ih =>
    rw [← List.append_assoc, List.foldl_append, ih, List.foldl_append]
    simp only [List.foldl_cons, List.foldl_nil, List.length_append, List.length_singleton, pow_succ]
    ring

theorem ofDigits_reverse : ∀ ds : List ℕ, ofDigits ds.reverse = Nat.ofDigits 10 ds
  | [] => rfl
  | d :: ds => by
    rw [List.reverse_cons, ofDigits_append, ofDigits_reverse ds, Nat.ofDigits_cons]
    simp [ofDigits]
    ring

theorem ofDigits_natDigits (n : ℕ) : ofDigits (natDigits n) = n := by
  unfold natDigits
  split
  · rename_i h
    simp [ofDigits, h]
  · rw [ofDigits_reverse, Nat.ofDigits_digits]

theorem length_natDigits (n : ℕ) : (natDigits n).length = max 1 (Nat.digits 10 n).length := by
  unfold natDigits
  split
  · rename_i h
    simp [h]
  · rename_i h
    have hpos : 0 < (Nat.digits 10 n).length := List.length_pos_iff.mpr (Nat.digits_ne_nil_iff_ne_zero.mpr h)
    rw [List.length_reverse]
    omega

theorem printable_of_le {m n : ℕ} (h : m ≤ n) (hn : Printable (n : ℤ)) : Printable (m : ℤ) := by
  unfold Printable at *
  rw [Int.natAbs_natCast, length_natDigits] at *
  have hlen := Nat.le_length_digits_le 10 m n h
  omega

theorem signed_map {ds : List ℕ} (h : ∀ d ∈ ds, d < 10) (t : Text) (ht : ds = [] → signed t = (false, t)) :
    signed (ds.map digitChar ++ t) = (false, ds.map digitChar ++ t) := by
  cases ds with
  | nil => exact ht rfl
  | cons d ds =>
    obtain ⟨-, h1, h2, -⟩ := digitChar_ne d (h d (by simp))
    rw [List.map_cons, List.cons_append]
    unfold signed
    split
    · rename_i heq
      exact absurd (List.cons.inj heq).1 h1
    · rename_i heq
      exact absurd (List.cons.inj heq).1 h2
    · rfl

theorem signed_natText (n : ℕ) : signed (natText n) = (false, natText n) := by
  have := signed_map (natDigits_isDigits n).lt [] fun h => absurd h (natDigits_isDigits n).ne_nil
  simpa [natText] using this

theorem natText_injective : Function.Injective natText := fun m n h => by
  have hm := digitsOf_map (natDigits_isDigits m)
  have hn := digitsOf_map (natDigits_isDigits n)
  have hd : natDigits m = natDigits n := Option.some.inj (hm.symm.trans ((congrArg digitsOf h).trans hn))
  rw [← ofDigits_natDigits m, hd, ofDigits_natDigits]

theorem mem_natText {n : ℕ} : ∀ c ∈ natText n, c ∈ numChars := by
  intro c hc
  obtain ⟨d, hd, rfl⟩ := List.mem_map.mp hc
  exact digitChar_mem d ((natDigits_isDigits n).lt d hd)

theorem mem_intText {z : ℤ} : ∀ c ∈ intText z, c ∈ numChars := by
  intro c hc
  unfold intText at hc
  split at hc
  · rcases List.mem_cons.mp hc with rfl | hc
    · decide
    · exact mem_natText c hc
  · exact mem_natText c hc

theorem strip_numChars {t : Text} (h : ∀ c ∈ t, c ∈ numChars) : stripBy numSpace t = t :=
  stripBy_eq_self fun c hc => numSpace_of_numChars c (h c hc)

theorem intText_ne_nil (z : ℤ) : intText z ≠ [] := by
  unfold intText
  split
  · simp
  · simpa [natText] using (natDigits_isDigits z.natAbs).ne_nil

/-- The sign and the digits of a printed integer. -/
theorem signed_intText (z : ℤ) : signed (intText z) = (decide (z < 0), natText z.natAbs) := by
  unfold intText
  split
  · rename_i h
    simp [signed, h]
  · rename_i h
    simp [signed_natText, h]

/-- **A printed integer is read back.** -/
theorem int_intText {z : ℤ} (h : Printable z) : int (intText z) = some z := by
  have hd : digitsOf (natText z.natAbs) = some (natDigits z.natAbs) := digitsOf_map (natDigits_isDigits _)
  unfold int
  rw [strip_numChars mem_intText, signed_intText]
  dsimp only
  rw [hd]
  dsimp only
  rw [if_pos (show (natDigits z.natAbs).length ≤ maxStrDigits from h), ofDigits_natDigits]
  by_cases hz : z < 0
  · simp only [hz, decide_true, if_true, Option.some.injEq]
    omega
  · simp only [hz, decide_false, Bool.false_eq_true, if_false, Option.some.injEq]
    omega

theorem isdigit_map {ds : List ℕ} (h : IsDigits ds) : isdigit (ds.map digitChar) = true := by
  unfold isdigit
  rw [Bool.and_eq_true, List.all_eq_true]
  refine ⟨by simpa using h.ne_nil, fun c hc => ?_⟩
  obtain ⟨d, hd, rfl⟩ := List.mem_map.mp hc
  exact isDigit_digitChar d (h.lt d hd)

theorem isdigit_natText (n : ℕ) : isdigit (natText n) = true := isdigit_map (natDigits_isDigits n)

/-- The number that a text of decimal digits is read as, if it is not too long. -/
theorem int_map_digitChar {ds : List ℕ} (h : IsDigits ds) :
    int (ds.map digitChar) = if ds.length ≤ maxStrDigits then some (ofDigits ds : ℤ) else none := by
  have hsign := signed_map h.lt [] fun h' => absurd h' h.ne_nil
  rw [List.append_nil] at hsign
  unfold int
  rw [strip_numChars (mem_map_digitChar h.lt), hsign]
  dsimp only
  rw [digitsOf_map h]
  rfl

/-! ### Reading floats back -/

theorem digits_map_ne {ds : List ℕ} (h : ∀ d ∈ ds, d < 10) : ∀ c ∈ ds.map digitChar, c ≠ '.' ∧ isExpMark c = false := by
  intro c hc
  obtain ⟨d, hd, rfl⟩ := List.mem_map.mp hc
  exact (digitChar_ne d (h d hd)).2.2.2

theorem mantissa_digits {ds : List ℕ} (h : IsDigits ds) : mantissa (ds.map digitChar) = some (ds, []) := by
  have hdrop : (ds.map digitChar).dropWhile (· ≠ '.') = [] :=
    List.dropWhile_eq_nil_iff.mpr fun c hc => by simpa using (digits_map_ne h.lt c hc).1
  rw [mantissa, hdrop, digitsOf_map h]
  rfl

theorem optDigits_map {ds : List ℕ} (h : IsDigits ds) : optDigits (ds.map digitChar) = some ds := by
  rw [optDigits, if_neg (by simpa using h.ne_nil), digitsOf_map h]

theorem mantissa_point {a b : List ℕ} (ha : IsDigits a) (hb : IsDigits b) :
    mantissa (a.map digitChar ++ '.' :: b.map digitChar) = some (a, b) := by
  have hne : ∀ c ∈ a.map digitChar, decide (c ≠ '.') = true := fun c hc => by simpa using (digits_map_ne ha.lt c hc).1
  have hdrop : (a.map digitChar ++ '.' :: b.map digitChar).dropWhile (· ≠ '.') = '.' :: b.map digitChar := by
    rw [List.dropWhile_append_of_pos hne]
    simp
  have htake : (a.map digitChar ++ '.' :: b.map digitChar).takeWhile (· ≠ '.') = a.map digitChar := by
    rw [List.takeWhile_append_of_pos hne]
    simp
  rw [mantissa, hdrop]
  dsimp only
  rw [htake, optDigits_map ha, optDigits_map hb]
  simp [ha.ne_nil]

/-- A mantissa without an exponent. -/
theorem literal_mantissa {t : Text} (ht : ∀ c ∈ t, isExpMark c = false) {a b : List ℕ} (h : mantissa t = some (a, b)) :
    literal t = some ((ofDigits (a ++ b) : ℚ) * 10 ^ (0 - b.length : ℤ)) := by
  have htake : t.takeWhile (!isExpMark ·) = t := List.takeWhile_eq_self_iff.mpr fun c hc => by simp [ht c hc]
  have hdrop : t.dropWhile (!isExpMark ·) = [] := List.dropWhile_eq_nil_iff.mpr fun c hc => by simp [ht c hc]
  rw [literal, htake, hdrop, h]

/-- A mantissa with an exponent. -/
theorem literal_exponent {t x : Text} (ht : ∀ c ∈ t, isExpMark c = false) {a b : List ℕ} (h : mantissa t = some (a, b))
    {e : ℤ} (hx : exponent x = some e) :
    literal (t ++ 'e' :: x) = some ((ofDigits (a ++ b) : ℚ) * 10 ^ (e - b.length)) := by
  have hne : ∀ c ∈ t, (!isExpMark c) = true := fun c hc => by simp [ht c hc]
  have he : isExpMark 'e' = true := by decide
  have htake : (t ++ 'e' :: x).takeWhile (!isExpMark ·) = t := by
    rw [List.takeWhile_append_of_pos hne]
    simp [he]
  have hdrop : (t ++ 'e' :: x).dropWhile (!isExpMark ·) = 'e' :: x := by
    rw [List.dropWhile_append_of_pos hne]
    simp [he]
  rw [literal, htake, hdrop, h]
  dsimp only
  rw [hx]

/-- The exponent that `expText` prints. -/
theorem exponent_expText (e : ℤ) : ∃ x, expText e = 'e' :: x ∧ exponent x = some e := by
  have hds : ∃ ds, (if e.natAbs < 10 then '0' :: natText e.natAbs else natText e.natAbs) = ds.map digitChar ∧
      IsDigits ds ∧ ofDigits ds = e.natAbs := by
    have h := natDigits_isDigits e.natAbs
    split
    · refine ⟨0 :: natDigits e.natAbs, rfl, .cons (by norm_num) h.lt, ?_⟩
      rw [← List.singleton_append, ofDigits_append, ofDigits_natDigits]
      simp [ofDigits]
    · exact ⟨natDigits e.natAbs, rfl, h, ofDigits_natDigits _⟩
  obtain ⟨ds, hds, hd, hv⟩ := hds
  unfold expText
  rw [hds]
  refine ⟨_, rfl, ?_⟩
  by_cases he : e < 0
  · simp only [he, if_true, exponent, signed, digitsOf_map hd, Option.map_some, hv, Option.some.injEq]
    omega
  · simp only [he, if_false, exponent, signed, digitsOf_map hd, Option.map_some, hv, Bool.false_eq_true,
      Option.some.injEq]
    omega

theorem ofDigits_zeros (n : ℕ) : ofDigits (List.replicate n 0) = 0 := by
  induction n with
  | zero => rfl
  | succ n ih => rw [List.replicate_succ', ofDigits_append, ih]; simp [ofDigits]

theorem digitChar_zeros (n : ℕ) : List.replicate n '0' = (List.replicate n 0).map digitChar := by
  rw [List.map_replicate]
  rfl

theorem IsDigits.zeros_append {ds : List ℕ} (h : IsDigits ds) (n : ℕ) : IsDigits (List.replicate n 0 ++ ds) :=
  ⟨by simp [h.ne_nil], fun d hd => (List.mem_append.mp hd).elim (fun hd => by simp [List.eq_of_mem_replicate hd]) (h.lt d)⟩

theorem IsDigits.append_zeros {ds : List ℕ} (h : IsDigits ds) (n : ℕ) : IsDigits (ds ++ List.replicate n 0) :=
  ⟨by simp [h.ne_nil], fun d hd => (List.mem_append.mp hd).elim (h.lt d) (fun hd => by simp [List.eq_of_mem_replicate hd])⟩

theorem expMark_point {a b : List ℕ} (ha : IsDigits a) (hb : IsDigits b) :
    ∀ c ∈ a.map digitChar ++ '.' :: b.map digitChar, isExpMark c = false := by
  intro c hc
  rcases List.mem_append.mp hc with hc | hc
  · exact (digits_map_ne ha.lt c hc).2
  · rcases List.mem_cons.mp hc with rfl | hc
    · decide
    · exact (digits_map_ne hb.lt c hc).2

/-- **The value of a printed float**: the digits, with the point after `decpt` of them. -/
theorem literal_reprDigits {ds : List ℕ} (h : IsDigits ds) (decpt : ℤ) :
    literal (reprDigits (ds.map digitChar) decpt) = some ((ofDigits ds : ℚ) * 10 ^ (decpt - ds.length)) := by
  have h10 : (10 : ℚ) ≠ 0 := by norm_num
  have hpos : 0 < ds.length := List.length_pos_iff.mpr h.ne_nil
  unfold reprDigits
  rw [List.length_map]
  split
  · -- scientific
    obtain ⟨x, hx, hexp⟩ := exponent_expText (decpt - 1)
    rw [hx]
    obtain ⟨d, rest, rfl⟩ := List.exists_cons_of_ne_nil h.ne_nil
    have hd : IsDigits [d] := .cons (h.lt d (by simp)) (by simp)
    by_cases hrest : rest = []
    · subst hrest
      have := literal_exponent (t := [d].map digitChar) (fun c hc => (digits_map_ne hd.lt c hc).2) (mantissa_digits hd) hexp
      simpa using this
    · have hr : IsDigits rest := ⟨hrest, fun x hx => h.lt x (by simp [hx])⟩
      have := literal_exponent (expMark_point hd hr) (mantissa_point hd hr) hexp
      rw [if_neg (by simpa using hrest)]
      simp only [List.map_cons, List.map_nil, List.cons_append, List.nil_append, List.take_succ_cons, List.take_zero,
        List.drop_succ_cons, List.drop_zero, List.length_cons] at this ⊢
      rw [this]
      congr 3
      push_cast
      ring
  · split
    · -- a leading zero
      have hb := h.zeros_append (-decpt).toNat
      have h0 : IsDigits [0] := .cons (by norm_num) (by simp)
      have := literal_mantissa (expMark_point h0 hb) (mantissa_point h0 hb)
      rw [digitChar_zeros]
      simp only [List.map_append, List.map_cons, List.map_nil, List.singleton_append] at this
      rw [show "0.".toList = [digitChar 0, '.'] from rfl]
      simp only [List.cons_append, List.nil_append]
      rw [this, show (0 :: (List.replicate (-decpt).toNat 0 ++ ds)) = List.replicate ((-decpt).toNat + 1) 0 ++ ds by
        simp [List.replicate_succ], ofDigits_append, ofDigits_zeros, zero_mul, zero_add]
      congr 3
      simp only [List.length_append, List.length_replicate]
      omega
    · split
      · -- the point inside the digits
        rename_i h0 hlt
        have hsplit := List.take_append_drop decpt.toNat ds
        have ha : IsDigits (ds.take decpt.toNat) :=
          ⟨by simp [List.take_eq_nil_iff, h.ne_nil]; omega, fun x hx => h.lt x (List.mem_of_mem_take hx)⟩
        have hb : IsDigits (ds.drop decpt.toNat) :=
          ⟨by simp [List.drop_eq_nil_iff]; omega, fun x hx => h.lt x (List.mem_of_mem_drop hx)⟩
        have := literal_mantissa (expMark_point ha hb) (mantissa_point ha hb)
        rw [hsplit, List.length_drop] at this
        rw [← List.map_take, ← List.map_drop, this]
        congr 3
        omega
      · -- trailing zeros
        have ha := h.append_zeros (decpt - ds.length).toNat
        have h0 : IsDigits [0] := .cons (by norm_num) (by simp)
        have := literal_mantissa (expMark_point ha h0) (mantissa_point ha h0)
        rw [digitChar_zeros, ← List.map_append, show ".0".toList = '.' :: [0].map digitChar from rfl, this,
          List.append_assoc, ofDigits_append, List.length_append, List.length_replicate, ofDigits_append, ofDigits_zeros]
        simp only [Option.some.injEq, zero_mul, ofDigits, List.foldl_cons, List.foldl_nil, mul_zero, add_zero,
          List.length_singleton]
        push_cast
        rw [mul_assoc, ← zpow_natCast, ← zpow_add₀ h10]
        congr 2
        push_cast
        omega

/-- A text of printed characters that starts with a digit is read as a literal. -/
theorem float_literal {d : ℕ} {t : Text} (hd : d < 10) (ht : ∀ c ∈ t, c ∈ numChars) {q v : ℚ}
    (h : literal (digitChar d :: t) = some q) (hq : Binary64.round q = some v) : float (digitChar d :: t) = some (.finite v) := by
  have hchars : ∀ c ∈ digitChar d :: t, c ∈ numChars := fun c hc =>
    (List.mem_cons.mp hc).elim (fun h => h ▸ digitChar_mem d hd) (ht c)
  have hsign : signed (digitChar d :: t) = (false, digitChar d :: t) :=
    @signed_map [d] (by simpa using hd) t (by simp)
  have hlow := toLower_digitChar d hd
  unfold float
  rw [strip_numChars hchars, hsign]
  dsimp only
  rw [if_neg (by simp [lower, hlow.1]), if_neg (by simp [lower, hlow.2]), h]
  simp [hq]

/-- **A double that is an integer is read back from its digits.** -/
theorem float_intText {n : ℕ} (h : IsDouble n) : float (intText n) = some (.finite n) := by
  have hd := natDigits_isDigits n
  obtain ⟨d, rest, hds⟩ := List.exists_cons_of_ne_nil hd.ne_nil
  have htext : intText (n : ℤ) = digitChar d :: rest.map digitChar := by
    rw [intText, if_neg (by omega), Int.natAbs_natCast, natText, hds]
    rfl
  have hlit : literal (digitChar d :: rest.map digitChar) = some (n : ℚ) := by
    have := literal_mantissa (fun c hc => (digits_map_ne hd.lt c hc).2) (mantissa_digits hd)
    rw [List.append_nil, ofDigits_natDigits, hds] at this
    simpa using this
  have hchars : ∀ c ∈ rest.map digitChar, c ∈ numChars := by
    intro c hc
    obtain ⟨x, hx, rfl⟩ := List.mem_map.mp hc
    exact digitChar_mem x (hd.lt x (by simp [hds, hx]))
  rw [htext]
  exact float_literal (hd.lt d (by simp [hds])) hchars hlit h

theorem round_shortAt {v : ℚ} {n : ℕ} {d : ℤ} (h : shortAt v n = some d) :
    Binary64.round ((d : ℚ) * 10 ^ (Int.log 10 v + 1 - n)) = some v := by
  unfold shortAt at h
  dsimp only at h
  generalize hk : Int.log 10 v + 1 - (n : ℤ) = k at h ⊢
  generalize hx : v / 10 ^ k = x at h
  split_ifs at h with h1 h2 h2
  · obtain rfl := Option.some.inj h
    obtain hr | hr : roundEven x = ⌊x⌋ ∨ roundEven x = ⌊x⌋ + 1 := by
      have := roundEven_bounds x
      omega
    · rwa [hr]
    · rwa [hr]
  · obtain rfl := Option.some.inj h
    exact h1
  · obtain rfl := Option.some.inj h
    exact h2

theorem shortAt_nonneg {v : ℚ} (hv : 0 < v) {n : ℕ} {d : ℤ} (h : shortAt v n = some d) : 0 ≤ d := by
  unfold shortAt at h
  dsimp only at h
  generalize hx : v / 10 ^ (Int.log 10 v + 1 - (n : ℤ)) = x at h
  have hx0 : 0 ≤ ⌊x⌋ := by
    rw [← hx]
    exact Int.floor_nonneg.mpr (div_nonneg hv.le (zpow_nonneg (by norm_num) _))
  have := roundEven_bounds x
  split_ifs at h <;> obtain rfl := Option.some.inj h <;> omega

theorem shortest_sound {v : ℚ} {d k : ℤ} (h : shortest v = some (d, k)) :
    ∃ n : ℕ, shortAt v n = some d ∧ k = Int.log 10 v + 1 - n := by
  obtain ⟨n, -, hn⟩ := List.exists_of_findSome?_eq_some h
  obtain ⟨d', hd, heq⟩ := Option.map_eq_some_iff.mp hn
  obtain ⟨rfl, rfl⟩ := Prod.mk.inj heq
  exact ⟨n, hd, rfl⟩

theorem shortest_isSome {v : ℚ} {n : ℕ} (h1 : 1 ≤ n) (hn : n < 1 + (Int.log 10 v + 1 + 1074).toNat)
    (h : (shortAt v n).isSome) : (shortest v).isSome := by
  rw [shortest, List.findSome?_isSome_iff]
  exact ⟨n, List.mem_range'_1.mpr ⟨h1, hn⟩, by simpa using h⟩

theorem scaled_int {v : ℚ} {j u : ℤ} {p : ℕ} (hv : v = j * 2 ^ u) (hu : -(p : ℤ) ≤ u) :
    ∃ x : ℤ, v / 10 ^ (-(p : ℤ)) = x := by
  refine ⟨j * 2 ^ (u + p).toNat * 5 ^ p, ?_⟩
  have h2 : (2 : ℚ) ^ (u + p).toNat = 2 ^ u * 2 ^ p := by
    rw [← zpow_natCast, Int.toNat_of_nonneg (by omega), zpow_add₀ (by norm_num), zpow_natCast]
  have h10 : (10 : ℚ) ^ p = 2 ^ p * 5 ^ p := by
    rw [← mul_pow]
    norm_num
  push_cast
  rw [h2, hv, zpow_neg, div_inv_eq_mul, zpow_natCast, h10]
  ring

theorem le_log_ten {v : ℚ} {j u : ℤ} {p : ℕ} (hpos : 0 < v) (hv : v = j * 2 ^ u) (hu : -(p : ℤ) ≤ u) :
    -(p : ℤ) ≤ Int.log 10 v := by
  have hj : 1 ≤ j := by
    by_contra hj0
    have : (j : ℚ) ≤ 0 := by exact_mod_cast (by omega : j ≤ 0)
    have := mul_nonpos_of_nonpos_of_nonneg this (zpow_nonneg (by norm_num : (0 : ℚ) ≤ 2) u)
    linarith
  refine (Int.zpow_le_iff_le_log (by norm_num) hpos).mp ?_
  calc ((10 : ℕ) : ℚ) ^ (-(p : ℤ)) ≤ 2 ^ (-(p : ℤ)) := by
        rw [zpow_neg, zpow_neg, zpow_natCast, zpow_natCast]
        gcongr
        norm_num
    _ ≤ 2 ^ u := zpow_le_zpow_right₀ (by norm_num) hu
    _ ≤ j * 2 ^ u := le_mul_of_one_le_left (zpow_nonneg (by norm_num) u) (by exact_mod_cast hj)
    _ = v := hv.symm

/-- A double has at most 1074 binary places, so that many decimal places are exact. -/
theorem exists_shortAt {v : ℚ} (hv : 0 < v) (h : IsDouble v) :
    1 ≤ (Int.log 10 v + 1 + 1074).toNat ∧ (shortAt v (Int.log 10 v + 1 + 1074).toNat).isSome := by
  obtain ⟨j, u, hu, hj⟩ : ∃ j u : ℤ, -((1074 : ℕ) : ℤ) ≤ u ∧ v = j * 2 ^ u := by
    have h' := h
    unfold IsDouble Binary64.round at h'
    dsimp only at h'
    split at h'
    · exact ⟨_, ulpExp v, by unfold ulpExp; omega, (Option.some.inj h').symm⟩
    · simp at h'
  have hlog := le_log_ten hv hj hu
  obtain ⟨x, hx⟩ := scaled_int hj hu
  refine ⟨by omega, ?_⟩
  have hk : Int.log 10 v + 1 - ((Int.log 10 v + 1 + 1074).toNat : ℤ) = -((1074 : ℕ) : ℤ) := by omega
  have hback : ((⌊v / 10 ^ (-((1074 : ℕ) : ℤ))⌋ : ℤ) : ℚ) * 10 ^ (-((1074 : ℕ) : ℤ)) = v := by
    rw [hx, Int.floor_intCast, ← hx, div_mul_cancel₀]
    exact zpow_ne_zero _ (by norm_num)
  unfold shortAt
  rw [hk]
  dsimp only
  rw [hback, if_pos (show Binary64.round v = some v from h)]
  split <;> rfl

theorem round_zero : Binary64.round 0 = some 0 := by simp [Binary64.round, roundEven]

/-- The digits of a number without the zeros at its end, and their value. -/
theorem trim_zeros {n : ℕ} (hn : n ≠ 0) : ∃ z : ℕ, natDigits n = (natDigits n).rdropWhile (· = 0) ++ List.replicate z 0 ∧
    IsDigits ((natDigits n).rdropWhile (· = 0)) := by
  have hd := natDigits_isDigits n
  have hsplit := List.rdropWhile_append_rtakeWhile (p := fun x => decide (x = 0)) (l := natDigits n)
  have hz : (natDigits n).rtakeWhile (fun x => decide (x = 0)) =
      List.replicate ((natDigits n).rtakeWhile (fun x => decide (x = 0))).length 0 :=
    List.eq_replicate_iff.mpr ⟨rfl, fun x hx => by simpa using List.mem_rtakeWhile_imp hx⟩
  refine ⟨_, by rw [← hz]; exact hsplit.symm, fun h0 => hn ?_, fun x hx => hd.lt x (hsplit ▸ List.mem_append_left _ hx)⟩
  have := ofDigits_natDigits n
  rw [← hsplit, h0, hz, List.nil_append, ofDigits_zeros] at this
  exact this.symm

theorem mem_expText {e : ℤ} : ∀ c ∈ expText e, c ∈ numChars := by
  have h := mem_natText (n := e.natAbs)
  have h0 : '0' ∈ numChars := by decide
  unfold expText
  simp only [List.forall_mem_cons]
  refine ⟨by decide, by split <;> decide, ?_⟩
  split
  · simpa only [List.forall_mem_cons] using ⟨h0, h⟩
  · exact h

/-- A printed float starts with a digit. -/
theorem reprDigits_eq_cons {ds : List ℕ} (h : IsDigits ds) (decpt : ℤ) :
    ∃ d t, reprDigits (ds.map digitChar) decpt = digitChar d :: t ∧ d < 10 ∧ ∀ c ∈ t, c ∈ numChars := by
  obtain ⟨d, rest, rfl⟩ := List.exists_cons_of_ne_nil h.ne_nil
  have hd : d < 10 := h.lt d (by simp)
  have hrest := mem_map_digitChar fun x hx => h.lt x (List.mem_cons_of_mem d hx)
  have hall := mem_map_digitChar h.lt
  have hz : ∀ k : ℕ, ∀ c ∈ List.replicate k '0', c ∈ numChars := fun k c hc =>
    List.eq_of_mem_replicate hc ▸ (by decide : '0' ∈ numChars)
  have hdot : '.' ∈ numChars := by decide
  unfold reprDigits
  split
  · refine ⟨d, (if ((d :: rest).map digitChar).length = 1 then [] else '.' :: rest.map digitChar) ++ expText (decpt - 1),
      by simp, hd, ?_⟩
    rw [List.forall_mem_append]
    refine ⟨?_, mem_expText⟩
    split
    · simp
    · exact List.forall_mem_cons.mpr ⟨hdot, hrest⟩
  · split
    · exact ⟨0, '.' :: (List.replicate (-decpt).toNat '0' ++ (d :: rest).map digitChar), rfl, by norm_num,
        List.forall_mem_cons.mpr ⟨hdot, List.forall_mem_append.mpr ⟨hz _, hall⟩⟩⟩
    · split
      · rename_i h0 _
        obtain ⟨k, hk⟩ : ∃ k, decpt.toNat = k + 1 := ⟨decpt.toNat - 1, by omega⟩
        refine ⟨d, (rest.map digitChar).take k ++ '.' :: (rest.map digitChar).drop k, by simp [hk], hd, ?_⟩
        exact List.forall_mem_append.mpr ⟨fun c hc => hrest c (List.mem_of_mem_take hc),
          List.forall_mem_cons.mpr ⟨hdot, fun c hc => hrest c (List.mem_of_mem_drop hc)⟩⟩
      · refine ⟨d, rest.map digitChar ++ List.replicate (decpt - ((d :: rest).map digitChar).length).toNat '0' ++ ".0".toList,
          rfl, hd, ?_⟩
        exact List.forall_mem_append.mpr ⟨List.forall_mem_append.mpr ⟨hrest, hz _⟩,
          List.forall_mem_cons.mpr ⟨hdot, hz 1⟩⟩

/-- The digits that `repr` prints for a positive double are rounded to it. -/
theorem exists_reprDigits {v : ℚ} (hv : 0 < v) (h : IsDouble v) : ∃ (ds : List ℕ) (decpt : ℤ), IsDigits ds ∧
    reprPos v = reprDigits (ds.map digitChar) decpt ∧
    Binary64.round ((ofDigits ds : ℚ) * 10 ^ (decpt - ds.length)) = some v := by
  obtain ⟨h1, hs⟩ := exists_shortAt hv h
  obtain ⟨⟨m, k⟩, hdk⟩ := Option.isSome_iff_exists.mp (shortest_isSome h1 (by omega) hs)
  obtain ⟨n, hn, hk⟩ := shortest_sound hdk
  have hround := round_shortAt hn
  rw [← hk] at hround
  obtain ⟨a, rfl⟩ := Int.eq_ofNat_of_zero_le (shortAt_nonneg hv hn)
  have ha : a ≠ 0 := by
    rintro rfl
    rw [Nat.cast_zero, Int.cast_zero, zero_mul, round_zero] at hround
    exact absurd (Option.some.inj hround) hv.ne
  obtain ⟨z, hz, hds⟩ := trim_zeros ha
  -- the digits that are printed denote `a * 10 ^ k`
  have hval : (ofDigits ((natDigits a).rdropWhile (· = 0)) : ℚ) *
      10 ^ ((natDigits a).length + k - ((natDigits a).rdropWhile (· = 0)).length : ℤ) = (a : ℤ) * 10 ^ k := by
    have hlen := congrArg List.length hz
    have hof := congrArg ofDigits hz
    rw [List.length_append, List.length_replicate] at hlen
    rw [ofDigits_natDigits, ofDigits_append, ofDigits_zeros, add_zero, List.length_replicate] at hof
    have haq : ((a : ℤ) : ℚ) = (ofDigits ((natDigits a).rdropWhile (· = 0)) : ℚ) * 10 ^ z := by exact_mod_cast hof
    have hexp : ((natDigits a).length + k - ((natDigits a).rdropWhile (· = 0)).length : ℤ) = z + k := by omega
    rw [hexp, haq, zpow_add₀ (by norm_num), zpow_natCast]
    ring
  refine ⟨_, (natDigits a).length + k, hds, ?_, by rw [hval]; exact hround⟩
  rw [reprPos, hdk]
  rfl

/-- **A positive double is read back from its shortest representation.** -/
theorem float_reprPos {v : ℚ} (hv : 0 < v) (h : IsDouble v) : float (reprPos v) = some (.finite v) := by
  obtain ⟨ds, decpt, hds, hrepr, hround⟩ := exists_reprDigits hv h
  obtain ⟨d, t, ht, hd, hchars⟩ := reprDigits_eq_cons hds decpt
  have hlit := literal_reprDigits hds decpt
  rw [ht] at hlit
  rw [hrepr, ht]
  exact float_literal hd hchars hlit hround

theorem mem_reprPos {v : ℚ} (hv : 0 < v) (h : IsDouble v) : reprPos v ≠ [] ∧ ∀ c ∈ reprPos v, c ∈ numChars := by
  obtain ⟨ds, decpt, hds, hrepr, -⟩ := exists_reprDigits hv h
  obtain ⟨d, t, ht, hd, hchars⟩ := reprDigits_eq_cons hds decpt
  rw [hrepr, ht]
  exact ⟨List.cons_ne_nil _ _, List.forall_mem_cons.mpr ⟨digitChar_mem d hd, hchars⟩⟩

end Psysmon.Lib.Number
