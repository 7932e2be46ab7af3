import Psysmon.Config.Block

/-!
# Psysmon.Config.Grammar — the statements of the modern grammar, printed

What a modern file is made of, with the well-formedness of words, strings and comments in their types, and a printer
that puts every statement, every block header and every attribute on a line of its own and spaces around every `=`.

* `Lexes.stmt`, `tokenize_printAll`: the tokenizer reads a printed file back, statement by statement.
-/

namespace Psysmon.Modern

open Lib Text

/-! ### Statements -/

instance : DecidablePred IsWord := fun w =>
  decidable_of_iff (w ≠ [] ∧ w.all (fun c => !special c && !isSpace c) = true)
    (by simp only [IsWord, List.all_eq_true, Bool.and_eq_true, Bool.not_eq_true'])

/-- A bareword. -/
structure Word where
  text : Text
  isWord : IsWord text

/-- The inside of a string: there are no escapes, so neither a quote nor the end of a line. -/
structure Quoted where
  text : Text
  noQuote : '"' ∉ text
  oneLine : '\n' ∉ text

/-- The text of a comment. -/
structure Note where
  text : Text
  oneLine : '\n' ∉ text

inductive Value
  | word (w : Word)
  | string (q : Quoted)

/-- What stands in a row of words. -/
inductive Lexeme
  | value (v : Value)
  | equals

/-- A line of a block: `KEY VALUE;` or `KEY = VALUE;`, with a comment after it or not, or a comment. -/
inductive Item
  | attr (key : Word) (equals : Bool) (value : Value) (note : Option Note)
  | comment (note : Note)

/-- The statements; `semi` says whether a comment starts with `;`, and whether one stands after a closing brace. -/
inductive Stmt
  | blank
  | comment (semi : Bool) (note : Note)
  | config (name : Word) (values : List Value) (note : Option Note)
  | set (name : Word) (value : Value) (note : Option Note)
  | root (value : Value) (note : Option Note)
  | group (name : Value) (body : List Item) (semi : Bool)
  | object (name : Word) (body : List Item) (semi : Bool)

/-! ### The printer -/

def Value.print : Value → Text
  | .word w => w.text
  | .string q => '"' :: q.text ++ ['"']

def Value.kind : Value → TokenKind
  | .word _ => .word
  | .string _ => .string

def Value.text : Value → Text
  | .word w => w.text
  | .string q => q.text

def Lexeme.print : Lexeme → Text
  | .value v => v.print
  | .equals => ['=']

def Lexeme.kind : Lexeme → TokenKind
  | .value v => v.kind
  | .equals => .equals

def Lexeme.text : Lexeme → Text
  | .value v => v.text
  | .equals => []

/-- Lexemes with a space between them. -/
def printRow (ps : List Lexeme) : Text := joinSpaces (ps.map Lexeme.print)

theorem printRow_cons (p q : Lexeme) (ps : List Lexeme) : printRow (p :: q :: ps) = p.print ++ ' ' :: printRow (q :: ps) :=
  joinSpaces_cons _ _ _

theorem printRow_singleton (p : Lexeme) : printRow [p] = p.print := joinSpaces_singleton _

def rowTokens (line : ℕ) (ps : List Lexeme) : List Token := ps.map fun p => ⟨p.kind, p.text, line⟩

def Note.print (n : Note) : Text := '#' :: n.text

/-- The rest of a line after its `;`. -/
def printEnd : Option Note → Text
  | none => ['\n']
  | some n => ' ' :: n.print ++ ['\n']

/-- A word the grammar knows. -/
abbrev keyword (w : Text) (h : IsWord w) : Lexeme := .value (.word ⟨w, h⟩)

def attrRow (key : Word) (equals : Bool) (value : Value) : List Lexeme :=
  .value (.word key) :: (if equals then [.equals, .value value] else [.value value])

def Item.print : Item → Text
  | .attr key equals value note => ' ' :: ' ' :: printRow (attrRow key equals value) ++ ';' :: printEnd note
  | .comment note => ' ' :: ' ' :: note.print ++ ['\n']

def configRow (name : Word) (values : List Value) : List Lexeme :=
  keyword "config".toList (by decide) :: .value (.word name) :: values.map .value

def setRow (name : Word) (value : Value) : List Lexeme :=
  [keyword "set".toList (by decide), .value (.word name), .equals, .value value]

def rootRow (value : Value) : List Lexeme := [keyword "root".toList (by decide), .equals, .value value]

theorem isWord_group : IsWord "group".toList := by decide

def groupRow (name : Value) : List Lexeme := [keyword "group".toList (by decide), .value name]

def objectRow (name : Word) : List Lexeme := [keyword "object".toList (by decide), .value (.word name)]

/-- A block: its header, its lines and the closing brace. -/
def printBlock (header : List Lexeme) (body : List Item) (semi : Bool) : Text :=
  printRow header ++ [' ', '\x7b', '\n'] ++ body.flatMap Item.print ++ (if semi then "\x7d;\n" else "\x7d\n").toList

def Stmt.print : Stmt → Text
  | .blank => ['\n']
  | .comment semi note => (if semi then ';' else '#') :: note.text ++ ['\n']
  | .config name values note => printRow (configRow name values) ++ ';' :: printEnd note
  | .set name value note => printRow (setRow name value) ++ ';' :: printEnd note
  | .root value note => printRow (rootRow value) ++ ';' :: printEnd note
  | .group name body semi => printBlock (groupRow name) body semi
  | .object name body semi => printBlock (objectRow name) body semi

def printAll (ss : List Stmt) : Text := ss.flatMap Stmt.print

theorem printEnd_eq_concat : ∀ note : Option Note, ∃ t, printEnd note = t ++ ['\n']
  | none => ⟨[], rfl⟩
  | some n => ⟨' ' :: n.print, rfl⟩

/-- A printed statement ends with its line. -/
theorem Stmt.print_eq_concat (s : Stmt) : ∃ t, s.print = t ++ ['\n'] := by
  have hrow (t : Text) (note : Option Note) : ∃ t', t ++ ';' :: printEnd note = t' ++ ['\n'] := by
    obtain ⟨e, he⟩ := printEnd_eq_concat note
    exact ⟨t ++ ';' :: e, by rw [he, List.append_assoc, List.cons_append]⟩
  have hblock (t : Text) (semi : Bool) :
      ∃ t', t ++ (if semi then "\x7d;\n" else "\x7d\n").toList = t' ++ ['\n'] := by
    cases semi with
    | false => exact ⟨t ++ ['\x7d'], by rw [List.append_assoc]; rfl⟩
    | true => exact ⟨t ++ ['\x7d', ';'], by rw [List.append_assoc]; rfl⟩
  cases s with
  | blank => exact ⟨[], rfl⟩
  | comment semi note => exact ⟨(if semi then ';' else '#') :: note.text, rfl⟩
  | config name values note => exact hrow _ note
  | set name value note => exact hrow _ note
  | root value note => exact hrow _ note
  | group name body semi => exact hblock _ semi
  | object name body semi => exact hblock _ semi

/-! ### The tokens of what is printed -/

def Item.tokens (line : ℕ) : Item → List Token
  | .attr key equals value _ => rowTokens line (attrRow key equals value) ++ [⟨.semi, [], line⟩]
  | .comment _ => []

/-- The tokens of a block's lines, the first of them on line `line`. -/
def bodyTokens : ℕ → List Item → List Token
  | _, [] => []
  | line, i :: is => i.tokens line ++ bodyTokens (line + 1) is

def blockTokens (line : ℕ) (header : List Lexeme) (body : List Item) (semi : Bool) : List Token :=
  let last := line + 1 + body.length
  rowTokens line header ++ ⟨.lbrace, [], line⟩ :: bodyTokens (line + 1) body ++
    ⟨.rbrace, [], last⟩ :: if semi then [⟨.semi, [], last⟩] else []

def Stmt.tokens (line : ℕ) : Stmt → List Token
  | .blank | .comment _ _ => []
  | .config name values _ => rowTokens line (configRow name values) ++ [⟨.semi, [], line⟩]
  | .set name value _ => rowTokens line (setRow name value) ++ [⟨.semi, [], line⟩]
  | .root value _ => rowTokens line (rootRow value) ++ [⟨.semi, [], line⟩]
  | .group name body semi => blockTokens line (groupRow name) body semi
  | .object name body semi => blockTokens line (objectRow name) body semi

/-- The number of lines. -/
def Stmt.height : Stmt → ℕ
  | .group _ body _ | .object _ body _ => body.length + 2
  | _ => 1

def tokensFrom : ℕ → List Stmt → List Token
  | _, [] => []
  | line, s :: ss => s.tokens line ++ tokensFrom (line + s.height) ss

/-! ### The tokenizer on what is printed -/

/-- The inside of a string. -/
theorem Lexes.inString (start line : ℕ) (boundary : Bool) : ∀ (t read : Text), '"' ∉ t → '\n' ∉ t →
    Lexes ⟨.string start read, line, boundary⟩ t [] ⟨.string start (t.reverse ++ read), line, boundary⟩
  | [], read, _, _ => .nil _
  | c :: t, read, hq, hn => by
    simp only [List.mem_cons, not_or] at hq hn
    have hstep : lexChar c ⟨.string start read, line, boundary⟩ =
        .ok ([], ⟨.string start (c :: read), line, boundary⟩) := by
      dsimp only [lexChar]
      rw [if_neg (Ne.symm hq.1), if_neg (Ne.symm hn.1)]
    have := Lexes.inString start line boundary t (c :: read) hq.2 hn.2
    rw [List.reverse_cons, List.append_assoc]
    exact .cons hstep this

theorem Quoted.isLexeme (q : Quoted) : IsLexeme ('"' :: q.text ++ ['"']) .string q.text :=
  fun {c line ts s} boundary _ h => by
    have hopen : Lexes (plain line boundary) ['"'] [] ⟨.string line [], line, boundary⟩ := .char rfl
    have hin := Lexes.inString line line boundary q.text [] q.noQuote q.oneLine
    have hclose : lexChar '"' ⟨.string line (q.text.reverse ++ []), line, boundary⟩ =
        .ok ([⟨.string, q.text, line⟩], plain line false) := by
      simp [lexChar]
    have hend : lexChar c (plain line false) = .ok (ts, s) := h
    exact ((hopen.append hin).append (.char hclose)).append (.char hend)

theorem isLexeme_equals : IsLexeme ['='] .equals [] := fun {c line ts s} boundary _ h => by
  have heq : Lexes (plain line boundary) ['='] [⟨.equals, [], line⟩] (plain line false) := .char rfl
  have hend : lexChar c (plain line false) = .ok (ts, s) := h
  exact heq.append (.char hend)

theorem Lexeme.isLexeme : ∀ p : Lexeme, IsLexeme p.print p.kind p.text
  | .value (.word w) => w.isWord.isLexeme
  | .value (.string q) => q.isLexeme
  | .equals => isLexeme_equals

theorem Lexes.printRow {ps : List Lexeme} (hne : ps ≠ []) {c : Char} (hc : special c = true ∨ isSpace c = true)
    {line : ℕ} {ts : List Token} {s : LexState} (h : lexPlain c line false = .ok (ts, s)) (boundary : Bool) :
    Lexes (plain line boundary) (printRow ps ++ [c]) (rowTokens line ps ++ ts) s :=
  .row hc h hne (fun p _ => p.isLexeme) boundary

/-- A comment, up to the end of its line. -/
theorem Lexes.comment (line : ℕ) (boundary : Bool) : ∀ {t : Text}, '\n' ∉ t →
    Lexes ⟨.comment, line, boundary⟩ (t ++ ['\n']) [] (plain (line + 1) true)
  | [], _ => .char rfl
  | c :: t, h => by
    simp only [List.mem_cons, not_or] at h
    have hstep : lexChar c ⟨.comment, line, boundary⟩ = .ok ([], ⟨.comment, line, boundary⟩) :=
      if_neg (Ne.symm h.1)
    exact .skip hstep (Lexes.comment line boundary h.2)

theorem Lexes.note (n : Note) (line : ℕ) (boundary : Bool) :
    Lexes (plain line boundary) (n.print ++ ['\n']) [] (plain (line + 1) true) :=
  .skip rfl (Lexes.comment line boundary n.oneLine)

theorem Lexes.printEnd (line : ℕ) (boundary : Bool) : ∀ note : Option Note,
    Lexes (plain line boundary) (printEnd note) [] (plain (line + 1) true)
  | none => .char rfl
  | some n => .skip rfl (Lexes.note n line boundary)

/-- A row of lexemes that a `;` ends. -/
theorem Lexes.statement {ps : List Lexeme} (hne : ps ≠ []) (note : Option Note) (line : ℕ) (boundary : Bool) :
    Lexes (plain line boundary) (Modern.printRow ps ++ ';' :: Modern.printEnd note)
      (rowTokens line ps ++ [⟨.semi, [], line⟩]) (plain (line + 1) true) := by
  have hrow := Lexes.printRow hne (.inl (by decide : special ';' = true)) (rfl : lexPlain ';' line false = _) boundary
  have := hrow.append (Lexes.printEnd line true note)
  rwa [List.append_assoc, List.append_nil] at this

theorem Lexes.item (line : ℕ) : ∀ i : Item, Lexes (plain line true) i.print (i.tokens line) (plain (line + 1) true)
  | .attr _ _ _ note =>
    .skip rfl (.skip rfl (Lexes.statement (List.cons_ne_nil _ _) note line true))
  | .comment note => .skip rfl (.skip rfl (Lexes.note note line true))

theorem Lexes.body : ∀ (line : ℕ) (body : List Item),
    Lexes (plain line true) (body.flatMap Item.print) (bodyTokens line body) (plain (line + body.length) true)
  | line, [] => .nil _
  | line, i :: body => by
    have := (Lexes.item line i).append (Lexes.body (line + 1) body)
    rwa [Nat.add_assoc, Nat.add_comm 1] at this

theorem Lexes.block {header : List Lexeme} (hne : header ≠ []) (body : List Item) (semi : Bool) (line : ℕ) :
    Lexes (plain line true) (printBlock header body semi) (blockTokens line header body semi)
      (plain (line + (body.length + 2)) true) := by
  have hrow := Lexes.printRow hne (.inr (by decide : isSpace ' ' = true)) (rfl : lexPlain ' ' line false = _) true
  have hbrace : Lexes (plain line false) ['\x7b', '\n'] [⟨.lbrace, [], line⟩] (plain (line + 1) true) :=
    .emit rfl (.char rfl)
  have hclose (last : ℕ) : Lexes (plain last true) (if semi then "\x7d;\n" else "\x7d\n").toList
      (⟨.rbrace, [], last⟩ :: if semi then [⟨.semi, [], last⟩] else []) (plain (last + 1) true) := by
    cases semi with
    | false => exact .emit rfl (.char rfl)
    | true => exact .emit rfl (.emit rfl (.char rfl))
  have := ((hrow.append hbrace).append (Lexes.body (line + 1) body)).append (hclose (line + 1 + body.length))
  have hline : line + (body.length + 2) = line + 1 + body.length + 1 := by omega
  rw [hline, printBlock, blockTokens]
  simpa only [List.append_assoc, List.append_nil, List.cons_append, List.nil_append] using this

/-- The tokens of a printed statement. -/
theorem Lexes.stmt (line : ℕ) : ∀ s : Stmt,
    Lexes (plain line true) s.print (s.tokens line) (plain (line + s.height) true)
  | .blank => .char rfl
  | .comment false note => Lexes.note note line true
  | .comment true note => .skip rfl (Lexes.comment line true note.oneLine)
  | .config _ _ note => Lexes.statement (List.cons_ne_nil _ _) note line true
  | .set _ _ note => Lexes.statement (List.cons_ne_nil _ _) note line true
  | .root _ note => Lexes.statement (List.cons_ne_nil _ _) note line true
  | .group _ body semi => Lexes.block (List.cons_ne_nil _ _) body semi line
  | .object _ body semi => Lexes.block (List.cons_ne_nil _ _) body semi line

theorem Lexes.stmts : ∀ (line : ℕ) (ss : List Stmt),
    ∃ line', Lexes (plain line true) (printAll ss) (tokensFrom line ss) (plain line' true)
  | line, [] => ⟨line, .nil _⟩
  | line, s :: ss => by
    obtain ⟨line', h⟩ := Lexes.stmts (line + s.height) ss
    exact ⟨line', (Lexes.stmt line s).append h⟩

/-- A printed file is read back, whatever the statements and their order. -/
theorem tokenize_printAll (ss : List Stmt) : tokenize (printAll ss) = .ok (tokensFrom 1 ss) := by
  obtain ⟨line, h⟩ := Lexes.stmts 1 ss
  exact h.tokenize

end Psysmon.Modern
