import Mathlib

/-!
# Psysmon.Lib.Text — strings as sequences of code points

The functions of Python's `str` that line-oriented parsers use: `isspace`, `splitlines`, `split`, `strip`, with the
Unicode tables of `isspace` and of the line boundaries.

* `mem_split`: the fields of a line are non-empty and free of whitespace.
* `splitOn_intercalate_iff`, `splitOn_lines_iff`: when joined parts come apart again.
* `split_word`, `splitlines_line`: how a text that was put together from words or lines comes apart again.
-/

namespace Psysmon.Lib

/-- A string: its code points. -/
abbrev Text := List Char

instance instLawfulBEqText : LawfulBEq Text := inferInstance

namespace Text

/-- Membership in a table of code point ranges. -/
def inRanges (rs : List (ℕ × ℕ)) (c : Char) : Bool := rs.any fun r => r.1 ≤ c.toNat && c.toNat ≤ r.2

/-- `str.isspace`, for one character. -/
def isSpace (c : Char) : Bool :=
  inRanges [(0x9, 0xd), (0x1c, 0x20), (0x85, 0x85), (0xa0, 0xa0), (0x1680, 0x1680), (0x2000, 0x200a),
    (0x2028, 0x2029), (0x202f, 0x202f), (0x205f, 0x205f), (0x3000, 0x3000)] c

/-- The boundaries of `str.splitlines`. -/
def isLineBreak (c : Char) : Bool := inRanges [(0xa, 0xd), (0x1c, 0x1e), (0x85, 0x85), (0x2028, 0x2029)] c

/-- A line boundary is whitespace. -/
theorem isSpace_of_isLineBreak {c : Char} (h : isLineBreak c = true) : isSpace c = true := by
  simp only [isLineBreak, isSpace, inRanges, List.any_cons, List.any_nil, Bool.or_false, Bool.or_eq_true,
    Bool.and_eq_true, decide_eq_true_eq] at h ⊢
  omega

/-! ### Lines -/

/-- `str.splitlines`, with the line read so far (reversed). -/
def linesFrom (acc : Text) : Text → List Text
  | [] => if acc = [] then [] else [acc.reverse]
  | c :: cs =>
    if c = '\r' ∧ cs.head? = some '\n' then
      -- the `\n` that follows ends the same line
      linesFrom acc cs
    else if isLineBreak c then acc.reverse :: linesFrom [] cs
    else linesFrom (c :: acc) cs

def splitlines (t : Text) : List Text := linesFrom [] t

/-- A text without line boundaries. -/
def OneLine (t : Text) : Prop := ∀ c ∈ t, isLineBreak c = false

instance : DecidablePred OneLine := fun t =>
  -- through `all`: a bounded quantifier over characters would run through all of Unicode
  decidable_of_iff (t.all (fun c => !isLineBreak c) = true)
    (by simp only [OneLine, List.all_eq_true, Bool.not_eq_true'])

theorem OneLine.append {s t : Text} (hs : OneLine s) (ht : OneLine t) : OneLine (s ++ t) := fun c hc =>
  (List.mem_append.mp hc).elim (hs c) (ht c)

theorem linesFrom_line (rest : Text) : ∀ (l acc : Text), OneLine l →
    linesFrom acc (l ++ '\n' :: rest) = (acc.reverse ++ l) :: splitlines rest
  | [], acc, _ => by
    have h : isLineBreak '\n' = true := by decide
    simp [linesFrom, h, splitlines]
  | c :: l, acc, hl => by
    have hc := hl c (by simp)
    have hne : ¬ (c = '\r' ∧ (l ++ '\n' :: rest).head? = some '\n') := by
      rintro ⟨rfl, -⟩
      exact absurd hc (by decide)
    rw [List.cons_append, linesFrom, if_neg hne, hc]
    simpa using linesFrom_line rest l (c :: acc) fun d hd => hl d (by simp [hd])

/-- The first line of a text. -/
theorem splitlines_line {l : Text} (hl : OneLine l) (rest : Text) :
    splitlines (l ++ '\n' :: rest) = l :: splitlines rest :=
  linesFrom_line rest l [] hl

theorem linesFrom_newline (rest : Text) : ∀ (t acc : Text),
    linesFrom acc (t ++ '\n' :: rest) = linesFrom acc (t ++ ['\n']) ++ splitlines rest
  | [], acc => by
    have h : isLineBreak '\n' = true := by decide
    simp [linesFrom, h, splitlines]
  | c :: t, acc => by
    have hhead : (t ++ '\n' :: rest).head? = (t ++ ['\n']).head? := by cases t <;> rfl
    rw [List.cons_append, List.cons_append, linesFrom, linesFrom, hhead]
    split
    · exact linesFrom_newline rest t acc
    split
    · rw [linesFrom_newline rest t [], List.cons_append]
    · exact linesFrom_newline rest t (c :: acc)

/-- A newline ends the lines before it, whatever other boundaries there are. -/
theorem splitlines_newline (t rest : Text) :
    splitlines (t ++ '\n' :: rest) = splitlines (t ++ ['\n']) ++ splitlines rest :=
  linesFrom_newline rest t []

theorem linesFrom_of_ne_nil : ∀ (t : Text) {acc : Text}, acc ≠ [] →
    ∃ l ls, linesFrom acc t = (acc.reverse ++ l) :: ls
  | [], acc, h => ⟨[], [], by rw [linesFrom, if_neg h, List.append_nil]⟩
  | c :: t, acc, h => by
    rw [linesFrom]
    split
    · exact linesFrom_of_ne_nil t h
    split
    · exact ⟨[], linesFrom [] t, by rw [List.append_nil]⟩
    · obtain ⟨l, ls, hl⟩ := linesFrom_of_ne_nil t (List.cons_ne_nil c acc)
      exact ⟨c :: l, ls, by rw [hl, List.reverse_cons, List.append_assoc]; rfl⟩

theorem linesFrom_append (rest : Text) : ∀ (l acc : Text), OneLine l →
    linesFrom acc (l ++ rest) = linesFrom (l.reverse ++ acc) rest
  | [], acc, _ => rfl
  | c :: l, acc, hl => by
    have hc := hl c (by simp)
    have hne : ¬ (c = '\r' ∧ (l ++ rest).head? = some '\n') := by
      rintro ⟨rfl, -⟩
      exact absurd hc (by decide)
    rw [List.cons_append, linesFrom, if_neg hne, hc, List.reverse_cons, List.append_assoc]
    exact linesFrom_append rest l (c :: acc) fun d hd => hl d (by simp [hd])

/-- How the first line of a text starts. -/
theorem splitlines_append {l : Text} (hne : l ≠ []) (hl : OneLine l) (rest : Text) :
    ∃ l' ls, splitlines (l ++ rest) = (l ++ l') :: ls := by
  obtain ⟨l', ls, h⟩ := linesFrom_of_ne_nil rest (by simpa using hne : l.reverse ++ [] ≠ [])
  refine ⟨l', ls, ?_⟩
  rw [splitlines, linesFrom_append rest l [] hl, h]
  simp

/-! ### Joined lines -/

theorem not_mem_of_mem_splitOn {α : Type*} [BEq α] [LawfulBEq α] {x : α} {xs l : List α} (h : l ∈ xs.splitOn x) :
    x ∉ l := by
  induction xs generalizing l with
  | nil =>
    rw [List.splitOn_nil, List.mem_singleton] at h
    rw [h]
    exact List.not_mem_nil
  | cons a xs ih =>
    rw [List.splitOn_cons_eq_if_modifyHead] at h
    split at h
    · rcases List.mem_cons.mp h with rfl | h
      · exact List.not_mem_nil
      · exact ih h
    · rename_i ha
      cases hs : xs.splitOn x with
      | nil => exact absurd hs (List.splitOn_ne_nil _ _)
      | cons l' ls =>
        rw [hs, List.modifyHead_cons] at h
        rw [hs] at ih
        rcases List.mem_cons.mp h with rfl | h
        · rw [List.mem_cons, not_or]
          exact ⟨fun he => ha (by simp [he]), ih List.mem_cons_self⟩
        · exact ih (List.mem_cons_of_mem _ h)

/-- Joined parts come apart again exactly if none of them holds the separator. -/
theorem splitOn_intercalate_iff {α : Type*} [BEq α] [LawfulBEq α] {x : α} {ls : List (List α)} (hls : ls ≠ []) :
    ([x].intercalate ls).splitOn x = ls ↔ ∀ l ∈ ls, x ∉ l := by
  constructor
  · intro h l hl
    rw [← h] at hl
    exact not_mem_of_mem_splitOn hl
  · exact fun h => List.splitOn_intercalate x h hls

theorem intercalate_concat_nil {α : Type*} (x : α) : ∀ {ls : List (List α)}, ls ≠ [] →
    [x].intercalate (ls ++ [[]]) = [x].intercalate ls ++ [x]
  | [l], _ => by simp [List.intercalate]
  | l :: l' :: ls, _ => by
    have ih := intercalate_concat_nil x (List.cons_ne_nil l' ls)
    simp only [List.intercalate, List.cons_append, List.intersperse_cons_cons, List.flatten_cons, List.append_assoc] at ih ⊢
    rw [ih]

/-- So do parts that are each ended by it. -/
theorem splitOn_lines_iff {α : Type*} [BEq α] [LawfulBEq α] {x : α} {ls : List (List α)} (hls : ls ≠ []) :
    ([x].intercalate ls ++ [x]).splitOn x = ls ++ [[]] ↔ ∀ l ∈ ls, x ∉ l := by
  rw [← intercalate_concat_nil x hls, splitOn_intercalate_iff (by simp), List.forall_mem_append, List.forall_mem_singleton,
    and_iff_left List.not_mem_nil]

/-! ### Fields -/

/-- `str.split`, with the field read so far (reversed). -/
def fieldsFrom (acc : Text) : Text → List Text
  | [] => if acc = [] then [] else [acc.reverse]
  | c :: cs =>
    if isSpace c then (if acc = [] then fieldsFrom [] cs else acc.reverse :: fieldsFrom [] cs)
    else fieldsFrom (c :: acc) cs

/-- `str.split()`. -/
def split (t : Text) : List Text := fieldsFrom [] t

/-- A field: non-empty, without whitespace. -/
def IsField (t : Text) : Prop := t ≠ [] ∧ ∀ c ∈ t, isSpace c = false

instance : DecidablePred IsField := fun t =>
  -- through `all`: a bounded quantifier over characters would run through all of Unicode
  decidable_of_iff (t ≠ [] ∧ t.all (fun c => !isSpace c) = true)
    (by simp only [IsField, List.all_eq_true, Bool.not_eq_true'])

theorem mem_fieldsFrom {t : Text} : ∀ (s acc : Text), (∀ c ∈ acc, isSpace c = false) → t ∈ fieldsFrom acc s → IsField t
  | [], acc, hacc, ht => by
    by_cases h : acc = []
    · simp [fieldsFrom, h] at ht
    · simp only [fieldsFrom, h, if_false, List.mem_singleton] at ht
      subst ht
      exact ⟨by simpa using h, by simpa using hacc⟩
  | c :: cs, acc, hacc, ht => by
    rw [fieldsFrom] at ht
    by_cases hc : isSpace c = true
    · rw [if_pos hc] at ht
      by_cases h : acc = []
      · rw [if_pos h] at ht
        exact mem_fieldsFrom cs [] (by simp) ht
      · rw [if_neg h] at ht
        rcases List.mem_cons.mp ht with rfl | ht
        · exact ⟨by simpa using h, by simpa using hacc⟩
        · exact mem_fieldsFrom cs [] (by simp) ht
    · rw [if_neg hc] at ht
      refine mem_fieldsFrom cs (c :: acc) (fun d hd => ?_) ht
      rcases List.mem_cons.mp hd with rfl | hd
      · simpa using hc
      · exact hacc d hd

theorem IsField.oneLine {t : Text} (h : IsField t) : OneLine t := by
  intro c hc
  by_contra hb
  have := isSpace_of_isLineBreak (by simpa using hb)
  rw [h.2 c hc] at this
  cases this

theorem mem_split {s t : Text} (h : t ∈ split s) : IsField t := mem_fieldsFrom s [] (by simp) h

theorem fieldsFrom_word (rest : Text) : ∀ (w acc : Text), (∀ c ∈ w, isSpace c = false) → (acc ≠ [] ∨ w ≠ []) →
    fieldsFrom acc (w ++ ' ' :: rest) = (acc.reverse ++ w) :: split rest
  | [], acc, _, h => by
    have hs : isSpace ' ' = true := by decide
    have hacc : acc ≠ [] := by simpa using h
    simp [fieldsFrom, hs, hacc, split]
  | c :: w, acc, hw, _ => by
    have hc := hw c (by simp)
    rw [List.cons_append, fieldsFrom, hc]
    simpa using fieldsFrom_word rest w (c :: acc) (fun d hd => hw d (by simp [hd])) (by simp)

/-- The first field of a line. -/
theorem split_word {w : Text} (hw : IsField w) (rest : Text) : split (w ++ ' ' :: rest) = w :: split rest :=
  fieldsFrom_word rest w [] hw.2 (.inr hw.1)

theorem fieldsFrom_last : ∀ (w acc : Text), (∀ c ∈ w, isSpace c = false) → (acc ≠ [] ∨ w ≠ []) →
    fieldsFrom acc w = [acc.reverse ++ w]
  | [], acc, _, h => by
    have hacc : acc ≠ [] := by simpa using h
    simp [fieldsFrom, hacc]
  | c :: w, acc, hw, _ => by
    rw [fieldsFrom, hw c (by simp)]
    simpa using fieldsFrom_last w (c :: acc) (fun d hd => hw d (by simp [hd])) (by simp)

theorem split_field {w : Text} (hw : IsField w) : split w = [w] :=
  fieldsFrom_last w [] hw.2 (.inr hw.1)

theorem fieldsFrom_concat_space {c : Char} (hc : isSpace c = true) : ∀ (t acc : Text),
    fieldsFrom acc (t ++ [c]) = fieldsFrom acc t
  | [], acc => by
    by_cases h : acc = [] <;> simp [fieldsFrom, hc, h]
  | d :: t, acc => by
    rw [List.cons_append, fieldsFrom, fieldsFrom, fieldsFrom_concat_space hc t, fieldsFrom_concat_space hc t]

/-! ### Stripping -/

/-- `str.strip`, for a class of characters. -/
def stripBy (p : Char → Bool) (t : Text) : Text := (t.dropWhile p).rdropWhile p

/-- `str.strip()`. -/
def strip (t : Text) : Text := stripBy isSpace t

/-- `str.strip('"')`. -/
def stripQuotes (t : Text) : Text := stripBy (· = '"') t

theorem split_rdropWhile (t : Text) : split (t.rdropWhile isSpace) = split t := by
  induction t using List.reverseRecOn with
  | nil => rfl
  | append_singleton t c ih =>
    by_cases hc : isSpace c = true
    · rw [List.rdropWhile_concat_pos _ _ _ hc, ih]
      exact (fieldsFrom_concat_space hc t []).symm
    · rw [List.rdropWhile_concat_neg _ _ _ hc]

/-- A line that starts with a field: what `strip` leaves. -/
theorem strip_cons {c : Char} (hc : isSpace c = false) (cs : Text) :
    ∃ cs', strip (c :: cs) = c :: cs' ∧ split (strip (c :: cs)) = split (c :: cs) := by
  have hd : (c :: cs).dropWhile isSpace = c :: cs := by simp [hc]
  have hr : ∃ cs', (c :: cs).rdropWhile isSpace = c :: cs' := by
    obtain ⟨z, hz⟩ := List.rdropWhile_prefix isSpace (l := c :: cs)
    cases hx : (c :: cs).rdropWhile isSpace with
    | nil =>
      have := List.rdropWhile_eq_nil_iff.mp hx c (by simp)
      rw [hc] at this
      exact absurd this (by simp)
    | cons d ds =>
      rw [hx] at hz
      exact ⟨ds, by rw [(List.cons.inj hz).1]⟩
  obtain ⟨cs', hcs⟩ := hr
  refine ⟨cs', ?_, ?_⟩
  · rw [strip, stripBy, hd, hcs]
  · rw [strip, stripBy, hd, split_rdropWhile]

theorem mem_stripBy {p : Char → Bool} {t : Text} {c : Char} (h : c ∈ stripBy p t) : c ∈ t :=
  (List.dropWhile_sublist p).subset ((List.rdropWhile_prefix p _).subset h)

/-- Nothing to strip. -/
theorem stripBy_eq_self {p : Char → Bool} {t : Text} (h : ∀ c ∈ t, p c = false) : stripBy p t = t := by
  have hd : t.dropWhile p = t := List.dropWhile_eq_self_iff.mpr fun hl => by simp [h _ (List.getElem_mem hl)]
  rw [stripBy, hd]
  exact List.rdropWhile_eq_self_iff.mpr fun hl => by simp [h _ (List.getLast_mem hl)]

theorem strip_of_isField {t : Text} (h : IsField t) : strip t = t := stripBy_eq_self h.2

/-! ### Other methods -/

/-- `str.lower`, for ASCII letters. -/
def lower (t : Text) : Text := t.map Char.toLower

/-- `" ".join`. -/
def joinSpaces (ts : List Text) : Text := [' '].intercalate ts

theorem joinSpaces_cons (w v : Text) (ws : List Text) : joinSpaces (w :: v :: ws) = w ++ ' ' :: joinSpaces (v :: ws) := by
  simp [joinSpaces, List.intercalate]

theorem joinSpaces_singleton (w : Text) : joinSpaces [w] = w := by simp [joinSpaces, List.intercalate]

theorem mem_joinSpaces {c : Char} : ∀ {ws : List Text}, c ∈ joinSpaces ws → c = ' ' ∨ ∃ w ∈ ws, c ∈ w
  | [], h => by simp [joinSpaces, List.intercalate] at h
  | [w], h => by
    rw [joinSpaces_singleton] at h
    exact .inr ⟨w, by simp, h⟩
  | w :: v :: ws, h => by
    rw [joinSpaces_cons] at h
    rcases List.mem_append.mp h with h | h
    · exact .inr ⟨w, by simp, h⟩
    rcases List.mem_cons.mp h with h | h
    · exact .inl h
    · rcases mem_joinSpaces h with h | ⟨x, hx, hc⟩
      · exact .inl h
      · exact .inr ⟨x, by simp [hx], hc⟩

/-- Fields that were joined stand on one line. -/
theorem oneLine_joinSpaces {ws : List Text} (h : ∀ w ∈ ws, IsField w) : OneLine (joinSpaces ws) := by
  intro c hc
  rcases mem_joinSpaces hc with rfl | ⟨w, hw, hcw⟩
  · decide
  · exact (h w hw).oneLine c hcw

/-- Fields that were joined come apart again. -/
theorem split_joinSpaces : ∀ {ws : List Text}, (∀ w ∈ ws, IsField w) → split (joinSpaces ws) = ws
  | [], _ => rfl
  | [w], h => by rw [joinSpaces_singleton, split_field (h w (by simp))]
  | w :: v :: ws, h => by
    rw [joinSpaces_cons, split_word (h w (by simp)), split_joinSpaces fun x hx => h x (by simp [hx])]

/-- `str.startswith`. -/
def startsWith (t p : Text) : Bool := p.isPrefixOf t

end Text

/-- The functions of Python's standard library that are left open: what depends on them holds however they are
filled in. -/
class Python where
  /-- The word characters of `re`. -/
  isWord : Char → Bool
  /-- `ipaddress.ip_address(text).version`; `none` is `ValueError`. -/
  ipVersion : Text → Option ℕ
  /-- `repr` of a string. -/
  reprStr : Text → Text
  /-- `str.lower`. -/
  lower : Text → Text
  lower_ascii : ∀ t : Text, (∀ c ∈ t, c.toNat < 128) → lower t = Text.lower t

/-- An instance to evaluate with: ASCII only, and no text is an IP address. -/
@[reducible] def Python.ascii : Python where
  isWord c := c.isAlphanum || c = '_'
  ipVersion _ := none
  reprStr t := ['\''] ++ t ++ ['\'']
  lower := Text.lower
  lower_ascii _ _ := rfl

end Psysmon.Lib
