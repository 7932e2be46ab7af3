import Psysmon.Lib.Text

/-!
# Psysmon.Lib.Markup — reading a page of markup

Machines that read a list and write a list, and two of them.  The reader of markup knows tags and character references: `<`
begins a tag, `>` ends it, and outside of tags `&name;` stands for a character.  The reader of tables collects the cells
`<td>` of each row from what the first one has read.

* `Yields.append`, `Yields.flatMap`: what is put together from pieces is read piece by piece.
* `Reads.plain`: a text without `<` and `&` is read as itself.  `yields_tag`: inside a tag everything but `>` belongs to it.
* `yields_inline`, `yields_cells`: the text of a cell is the text of what stands in it.
-/

namespace Psysmon.Lib.Markup

/-! ### Machines -/

section Machine

variable {σ α β : Type} (step : σ → α → List β × σ)

def run : σ → List α → List β × σ
  | s, [] => ([], s)
  | s, a :: l =>
    let q := step s a
    let r := run q.2 l
    (q.1 ++ r.1, r.2)

/-- From `s` the machine reads `l`, writes `out` and is then in `s'`. -/
def Yields (s : σ) (l : List α) (out : List β) (s' : σ) : Prop := run step s l = (out, s')

instance [DecidableEq σ] [DecidableEq β] (s : σ) (l : List α) (out : List β) (s' : σ) :
    Decidable (Yields step s l out s') := inferInstanceAs (Decidable (_ = _))

variable {step} {s s' s'' : σ} {l l' : List α} {out out' : List β}

theorem Yields.nil : Yields step s [] [] s := rfl

theorem Yields.cons {a : α} (ha : step s a = (out, s')) (hl : Yields step s' l out' s'') :
    Yields step s (a :: l) (out ++ out') s'' := by
  unfold Yields at *
  rw [run, ha, hl]

theorem Yields.append (h : Yields step s l out s') (h' : Yields step s' l' out' s'') :
    Yields step s (l ++ l') (out ++ out') s'' := by
  induction l generalizing s out with
  | nil =>
    cases h
    exact h'
  | cons a l ih =>
    cases h
    rw [List.cons_append, List.append_assoc]
    exact .cons rfl (ih rfl)

/-- Pieces that each bring the machine back to where it was. -/
theorem Yields.flatMap {γ : Type} {piece : γ → List α} {written : γ → List β} {cs : List γ}
    (h : ∀ c ∈ cs, Yields step s (piece c) (written c) s) : Yields step s (cs.flatMap piece) (cs.flatMap written) s := by
  induction cs with
  | nil => exact .nil
  | cons c cs ih =>
    obtain ⟨hc, h⟩ := List.forall_mem_cons.mp h
    exact hc.append (ih h)

end Machine

/-! ### Tags and references -/

/-- What a reader of markup sees. -/
inductive Token
  | char (c : Char)
  | tag (t : Text)
  deriving DecidableEq

/-- The characters of a text. -/
def chars (t : Text) : List Token := t.map .char

/-- A tag. -/
def tag (t : String) : List Token := [.tag t.toList]

/-- Where the reader is; in a tag or a reference with what it has read of it. -/
inductive Mode
  | text
  | tag (read : Text)
  | reference (read : Text)
  deriving DecidableEq

/-- What a character reference stands for; an unknown one stands for itself. -/
def referent (name : Text) : Text :=
  if name = "amp".toList then ['&']
  else if name = "lt".toList then ['<']
  else if name = "gt".toList then ['>']
  else if name = "quot".toList then ['"']
  else if name = "#x27".toList then ['\'']
  else '&' :: name ++ [';']

def readStep : Mode → Char → List Token × Mode
  | .text, c => if c = '<' then ([], .tag []) else if c = '&' then ([], .reference []) else ([.char c], .text)
  | .tag t, c => if c = '>' then ([.tag t], .text) else ([], .tag (t ++ [c]))
  | .reference name, c => if c = ';' then (chars (referent name), .text) else ([], .reference (name ++ [c]))

/-- The text can be read on its own, as `ts`. -/
def Reads (t : Text) (ts : List Token) : Prop := Yields readStep .text t ts .text

instance (t : Text) (ts : List Token) : Decidable (Reads t ts) :=
  inferInstanceAs (Decidable (Yields readStep .text t ts .text))

theorem Reads.append {s t : Text} {ss ts : List Token} (hs : Reads s ss) (ht : Reads t ts) : Reads (s ++ t) (ss ++ ts) :=
  Yields.append hs ht

theorem Reads.plain {t : Text} (hlt : '<' ∉ t) (hamp : '&' ∉ t) : Reads t (chars t) := by
  induction t with
  | nil => exact .nil
  | cons c t ih =>
    obtain ⟨hc, hlt⟩ := not_or.mp (List.mem_cons.not.mp hlt)
    obtain ⟨hc', hamp⟩ := not_or.mp (List.mem_cons.not.mp hamp)
    have hstep : readStep .text c = ([.char c], .text) := by rw [readStep, if_neg (Ne.symm hc), if_neg (Ne.symm hc')]
    exact Yields.cons hstep (ih hlt hamp)

theorem yields_tag {t : Text} (h : '>' ∉ t) (read : Text) : Yields readStep (.tag read) t [] (.tag (read ++ t)) := by
  induction t generalizing read with
  | nil =>
    rw [List.append_nil]
    exact .nil
  | cons c t ih =>
    obtain ⟨hc, h⟩ := not_or.mp (List.mem_cons.not.mp h)
    have hstep : readStep (.tag read) c = ([], .tag (read ++ [c])) := by rw [readStep, if_neg (Ne.symm hc)]
    have ih := ih h (read ++ [c])
    rw [List.append_assoc] at ih
    exact Yields.cons hstep ih

/-- A tag with a value in it. -/
theorem Reads.value {opening value ending t : Text} {ts : List Token} (hopen : Yields readStep .text opening ts (.tag t))
    (hvalue : '>' ∉ value) (hending : '>' ∉ ending) :
    Reads (opening ++ value ++ (ending ++ ['>'])) (ts ++ [.tag (t ++ value ++ ending)]) := by
  have hclose : Yields readStep (.tag (t ++ value ++ ending)) ['>'] [.tag (t ++ value ++ ending)] .text := rfl
  have h := (hopen.append (yields_tag hvalue t)).append ((yields_tag hending _).append hclose)
  rwa [List.append_nil] at h

/-! ### Tables -/

/-- The cells of the row that is being read, and the text of the cell. -/
structure Scan where
  row : List Text
  cell : Option Text
  deriving DecidableEq

/-- A row without cells is a row of headings. -/
def tableStep (s : Scan) : Token → List (List Text) × Scan
  | .char c => ([], { s with cell := s.cell.map (· ++ [c]) })
  | .tag t =>
    if t.take 2 = "td".toList then ([], { s with cell := some [] })
    else if t = "/td".toList then ([], ⟨s.row ++ s.cell.toList, none⟩)
    else if t = "/tr".toList then (if s.row = [] then [] else [s.row], ⟨[], none⟩)
    else ([], s)

/-- **The cells of the tables of a page**, row by row. -/
def tableRows (page : Text) : List (List Text) := (run tableStep ⟨[], none⟩ (run readStep .text page).1).1

/-- A token that neither begins nor ends a cell or a row. -/
def Token.inline : Token → Bool
  | .char _ => true
  | .tag t => !(t.take 2 = "td".toList || t = "/td".toList || t = "/tr".toList)

def Token.char? : Token → Option Char
  | .char c => some c
  | .tag _ => none

/-- The text without its tags. -/
def textOf (ts : List Token) : Text := ts.filterMap Token.char?

@[simp] theorem textOf_append (ts us : List Token) : textOf (ts ++ us) = textOf ts ++ textOf us := List.filterMap_append

@[simp] theorem textOf_chars (t : Text) : textOf (chars t) = t := by
  unfold textOf chars
  rw [List.filterMap_map]
  exact List.filterMap_some

@[simp] theorem textOf_tag (t : String) : textOf (tag t) = [] := rfl

@[simp] theorem all_inline_chars (t : Text) : (chars t).all Token.inline = true := by simp [chars, Token.inline]

theorem yields_inline {ts : List Token} (h : ts.all Token.inline = true) (s : Scan) :
    Yields tableStep s ts [] { s with cell := s.cell.map (· ++ textOf ts) } := by
  induction ts generalizing s with
  | nil =>
    obtain ⟨row, cell⟩ := s
    cases cell with
    | none => exact .nil
    | some t =>
      show Yields tableStep _ [] [] ⟨row, some (t ++ [])⟩
      rw [List.append_nil]
      exact .nil
  | cons a ts ih =>
    obtain ⟨ha, h⟩ := (Bool.and_eq_true _ _).mp (List.all_cons.symm.trans h)
    have ih := ih h
    cases a with
    | char c =>
      have hstep : tableStep s (.char c) = ([], { s with cell := s.cell.map (· ++ [c]) }) := rfl
      have hcell : (s.cell.map (· ++ [c])).map (· ++ textOf ts) = s.cell.map (· ++ textOf (.char c :: ts)) := by
        cases s.cell <;> simp [textOf, Token.char?]
      rw [← hcell]
      exact Yields.cons hstep (ih _)
    | tag t =>
      simp only [Token.inline, Bool.not_eq_true', Bool.or_eq_false_iff, decide_eq_false_iff_not] at ha
      have hstep : tableStep s (.tag t) = ([], s) := by rw [tableStep, if_neg ha.1.1, if_neg ha.1.2, if_neg ha.2]
      exact Yields.cons hstep (ih s)

/-- A cell: its tag, and what stands in it. -/
def cell (c : String × List Token) : List Token := tag c.1 ++ c.2 ++ tag "/td"

theorem yields_cells {cs : List (String × List Token)}
    (h : ∀ c ∈ cs, c.1.toList.take 2 = "td".toList ∧ c.2.all Token.inline = true) (row : List Text) :
    Yields tableStep ⟨row, none⟩ (cs.flatMap cell) [] ⟨row ++ cs.map fun c => textOf c.2, none⟩ := by
  induction cs generalizing row with
  | nil =>
    rw [List.map_nil, List.append_nil]
    exact .nil
  | cons c cs ih =>
    obtain ⟨⟨hopen, hbody⟩, h⟩ := List.forall_mem_cons.mp h
    have hstep : tableStep ⟨row, none⟩ (.tag c.1.toList) = ([], ⟨row, some []⟩) := by rw [tableStep, if_pos hopen]
    have hbegin : Yields tableStep ⟨row, none⟩ (tag c.1) [] ⟨row, some []⟩ := Yields.cons hstep .nil
    have hend : Yields tableStep ⟨row, some (textOf c.2)⟩ (tag "/td") [] ⟨row ++ [textOf c.2], none⟩ := rfl
    have hcell : Yields tableStep ⟨row, none⟩ (cell c) [] ⟨row ++ [textOf c.2], none⟩ :=
      (hbegin.append (yields_inline hbody _)).append hend
    have hrest := hcell.append (ih h (row ++ [textOf c.2]))
    rw [List.append_assoc] at hrest
    exact hrest

end Psysmon.Lib.Markup
