import Psysmon.Lib.Text

/-!
# Psysmon.Lib.Bytes — byte strings and UTF-8

* `mem_utf8_iff`: an ASCII byte stands in the encoding of a text exactly if the character stands in the text.
* `Bytes.lines_line`, `Bytes.lines_torn`: the lines of a stream, and what is left of one that breaks off.
-/

namespace Psysmon.Lib

abbrev Bytes := List UInt8

/-- `text.encode("utf-8")`. -/
def utf8 (t : Text) : Bytes := t.flatMap String.utf8EncodeChar

/-- A bytes literal. -/
def bytes (s : String) : Bytes := utf8 s.toList

/-- `bytes.lstrip()`. -/
def Bytes.lstrip (b : Bytes) : Bytes := b.dropWhile fun c => c = 0x20 ∨ (0x09 ≤ c ∧ c ≤ 0x0d)

/-- What `readline` returns on a stream, call by call: each line ends with a newline, but for the last. -/
def Bytes.lines : Bytes → List Bytes
  | [] => []
  | b :: bs =>
    if b = 0x0a then [b] :: lines bs
    else match lines bs with
      | [] => [[b]]
      | l :: ls => (b :: l) :: ls

theorem Bytes.lines_line {body : Bytes} (h : 0x0a ∉ body) (rest : Bytes) :
    lines (body ++ 0x0a :: rest) = (body ++ [0x0a]) :: lines rest := by
  induction body with
  | nil => rfl
  | cons b body ih =>
    simp only [List.mem_cons, not_or] at h
    obtain ⟨hb, hbody⟩ := h
    rw [List.cons_append, lines, if_neg fun hc => hb hc.symm, ih hbody]
    rfl

theorem Bytes.lines_torn {t : Bytes} (h : 0x0a ∉ t) (hne : t ≠ []) : lines t = [t] := by
  induction t with
  | nil => exact absurd rfl hne
  | cons b t ih =>
    simp only [List.mem_cons, not_or] at h
    obtain ⟨hb, ht⟩ := h
    rw [lines, if_neg fun hc => hb hc.symm]
    cases t with
    | nil => rfl
    | cons c t => rw [ih ht (List.cons_ne_nil c t)]

theorem mem_utf8EncodeChar_iff {c : Char} {b : UInt8} (hb : b.toNat < 128) :
    b ∈ String.utf8EncodeChar c ↔ c.val.toNat = b.toNat := by
  have heq : ∀ n : ℕ, b = UInt8.ofNat n ↔ b.toNat = n % 256 := by
    intro n
    rw [← UInt8.toNat_inj, UInt8.toNat_ofNat']
  unfold String.utf8EncodeChar
  dsimp only
  split_ifs <;> simp only [List.mem_cons, List.not_mem_nil, or_false, heq] <;> omega

theorem mem_utf8_iff {t : Text} {b : UInt8} (hb : b.toNat < 128) :
    b ∈ utf8 t ↔ ∃ c ∈ t, c.val.toNat = b.toNat := by
  simp only [utf8, List.mem_flatMap, mem_utf8EncodeChar_iff hb]

end Psysmon.Lib
