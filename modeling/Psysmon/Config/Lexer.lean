import Psysmon.Config.Directives

/-!
# Psysmon.Config.Lexer — the tokenizer of the modern grammar (`config/modern.py`, `tokenize`)

The tokenizer as an automaton over the characters: `lexChar` is what one character does, `lexFrom` a run.  A character
that ends a bareword but starts nothing else (a form feed, a no-break space) keeps `tokenize` from ever advancing;
here that is the failure `hangs`.
-/

namespace Psysmon.Modern

open Lib Text

inductive TokenKind
  | word | string | lbrace | rbrace | equals | semi
  deriving DecidableEq, Repr

/-- The kind's name in warnings (`tok.kind.name.lower()`). -/
def TokenKind.name : TokenKind → Text
  | .word => "word".toList
  | .string => "string".toList
  | .lbrace => "lbrace".toList
  | .rbrace => "rbrace".toList
  | .equals => "equals".toList
  | .semi => "semi".toList

/-- A token: its kind, its lexeme and its line. -/
structure Token where
  kind : TokenKind
  value : Text
  line : ℕ
  deriving DecidableEq

/-- Why there is no result: a `ParseError`, another `ValueError`, or no end. -/
inductive Failure
  | error (e : ParseError)
  | valueError
  | hangs
  deriving DecidableEq

/-- `_SPECIAL`. -/
def special (c : Char) : Bool := c = '"' || c = '{' || c = '}' || c = '=' || c = ';' || c = '#'

/-- Where the tokenizer is; the characters read so far are reversed. -/
inductive Mode
  | plain
  | comment
  | word (read : Text)
  | string (start : ℕ) (read : Text)

/-- The tokenizer's variables; `boundary` is true where a statement could begin. -/
structure LexState where
  mode : Mode
  line : ℕ
  boundary : Bool

/-- A character outside of words, strings and comments. -/
def lexPlain (c : Char) (line : ℕ) (boundary : Bool) : Except Failure (List Token × LexState) :=
  if c = '\n' then .ok ([], ⟨.plain, line + 1, true⟩)
  else if c = ' ' ∨ c = '\t' ∨ c = '\r' then .ok ([], ⟨.plain, line, boundary⟩)
  else if c = '#' ∨ (c = ';' ∧ boundary = true) then .ok ([], ⟨.comment, line, boundary⟩)
  else if c = '"' then .ok ([], ⟨.string line [], line, boundary⟩)
  else if c = ';' then .ok ([⟨.semi, [], line⟩], ⟨.plain, line, true⟩)
  else if c = '{' then .ok ([⟨.lbrace, [], line⟩], ⟨.plain, line, true⟩)
  else if c = '}' then .ok ([⟨.rbrace, [], line⟩], ⟨.plain, line, false⟩)
  else if c = '=' then .ok ([⟨.equals, [], line⟩], ⟨.plain, line, false⟩)
  else if isSpace c then .error .hangs
  else .ok ([], ⟨.word [c], line, false⟩)

/-- One character, in any mode. -/
def lexChar (c : Char) (s : LexState) : Except Failure (List Token × LexState) :=
  match s.mode with
  | .plain => lexPlain c s.line s.boundary
  | .comment => if c = '\n' then lexPlain c s.line s.boundary else .ok ([], s)
  | .word read =>
    if special c ∨ isSpace c then
      -- the word ends before this character
      (lexPlain c s.line false).map fun r => (⟨.word, read.reverse, s.line⟩ :: r.1, r.2)
    else .ok ([], { s with mode := .word (c :: read) })
  | .string start read =>
    if c = '"' then .ok ([⟨.string, read.reverse, start⟩], ⟨.plain, s.line, false⟩)
    else if c = '\n' then
      .error (.error ⟨warning start "unterminated string".toList⟩)
    else .ok ([], { s with mode := .string start (c :: read) })

/-- The end of the text. -/
def lexEnd (s : LexState) : Except Failure (List Token) :=
  match s.mode with
  | .plain | .comment => .ok []
  | .word read => .ok [⟨.word, read.reverse, s.line⟩]
  | .string start _ => .error (.error ⟨warning start "unterminated string".toList⟩)

/-- The tokens from a state on. -/
def lexFrom : Text → LexState → Except Failure (List Token)
  | [], s => lexEnd s
  | c :: cs, s =>
    match lexChar c s with
    | .error e => .error e
    | .ok (ts, s') => (lexFrom cs s').map (ts ++ ·)

/-- `tokenize`. -/
def tokenize (text : Text) : Except Failure (List Token) := lexFrom text ⟨.plain, 1, true⟩

/-! ### How a text that was put together comes apart -/

/-- Plain mode. -/
abbrev plain (line : ℕ) (boundary : Bool) : LexState := ⟨.plain, line, boundary⟩

/-- From state `s`, the text `t` yields the tokens `ts` and leads to state `s'`, whatever follows. -/
def Lexes (s : LexState) (t : Text) (ts : List Token) (s' : LexState) : Prop :=
  ∀ rest, lexFrom (t ++ rest) s = (lexFrom rest s').map (ts ++ ·)

theorem Lexes.nil (s : LexState) : Lexes s [] [] s := fun rest => by
  rw [List.nil_append]
  cases lexFrom rest s <;> rfl

theorem Lexes.append {s₁ s₂ s₃ : LexState} {t₁ t₂ : Text} {ts₁ ts₂ : List Token} (h₁ : Lexes s₁ t₁ ts₁ s₂)
    (h₂ : Lexes s₂ t₂ ts₂ s₃) : Lexes s₁ (t₁ ++ t₂) (ts₁ ++ ts₂) s₃ := fun rest => by
  rw [List.append_assoc, h₁, h₂]
  cases lexFrom rest s₃ <;> simp [Except.map]

/-- One character. -/
theorem Lexes.char {c : Char} {s s' : LexState} {ts : List Token} (h : lexChar c s = .ok (ts, s')) :
    Lexes s [c] ts s' := fun rest => by
  rw [List.singleton_append, lexFrom, h]

theorem Lexes.cons {c : Char} {t : Text} {s₁ s₂ s₃ : LexState} {ts₁ ts₂ : List Token}
    (h₁ : lexChar c s₁ = .ok (ts₁, s₂)) (h₂ : Lexes s₂ t ts₂ s₃) : Lexes s₁ (c :: t) (ts₁ ++ ts₂) s₃ :=
  (Lexes.char h₁).append h₂

/-- One character that yields no token. -/
theorem Lexes.skip {c : Char} {t : Text} {s₁ s₂ s₃ : LexState} {ts : List Token} (h₁ : lexChar c s₁ = .ok ([], s₂))
    (h₂ : Lexes s₂ t ts s₃) : Lexes s₁ (c :: t) ts s₃ :=
  Lexes.cons h₁ h₂

/-- One character that is a token. -/
theorem Lexes.emit {c : Char} {t : Text} {s₁ s₂ s₃ : LexState} {tok : Token} {ts : List Token}
    (h₁ : lexChar c s₁ = .ok ([tok], s₂)) (h₂ : Lexes s₂ t ts s₃) : Lexes s₁ (c :: t) (tok :: ts) s₃ :=
  Lexes.cons h₁ h₂

/-- What the tokenizer reads as one word: no character that is special or whitespace. -/
def IsWord (w : Text) : Prop := w ≠ [] ∧ ∀ c ∈ w, special c = false ∧ isSpace c = false

theorem IsWord.isField {w : Text} (hw : IsWord w) : Text.IsField w := ⟨hw.1, fun c hc => (hw.2 c hc).2⟩

/-- A character that starts a word. -/
theorem lexPlain_word {c : Char} (hc : special c = false) (hs : isSpace c = false) (line : ℕ) (boundary : Bool) :
    lexPlain c line boundary = .ok ([], ⟨.word [c], line, false⟩) := by
  have hspace : ∀ d, isSpace d = true → c ≠ d := by
    rintro d hd rfl
    rw [hs] at hd
    cases hd
  have hspecial : ∀ d, special d = true → c ≠ d := by
    rintro d hd rfl
    rw [hc] at hd
    cases hd
  have hsemi : c ≠ ';' := hspecial _ (by decide)
  unfold lexPlain
  rw [if_neg (hspace _ (by decide)), if_neg, if_neg, if_neg (hspecial _ (by decide)), if_neg hsemi,
    if_neg (hspecial _ (by decide)), if_neg (hspecial _ (by decide)), if_neg (hspecial _ (by decide)), hs]
  · rfl
  · rintro (h | ⟨h, -⟩)
    · exact hspecial '#' (by decide) h
    · exact hsemi h
  · rintro (h | h | h)
    · exact hspace ' ' (by decide) h
    · exact hspace '\t' (by decide) h
    · exact hspace '\r' (by decide) h

/-- The characters of a word, as long as it goes on. -/
theorem Lexes.goOn (line : ℕ) : ∀ (w read : Text), (∀ c ∈ w, special c = false ∧ isSpace c = false) →
    Lexes ⟨.word read, line, false⟩ w [] ⟨.word (w.reverse ++ read), line, false⟩
  | [], read, _ => .nil _
  | c :: w, read, hw => by
    have hc := hw c (by simp)
    have hstep : lexChar c ⟨.word read, line, false⟩ = .ok ([], ⟨.word (c :: read), line, false⟩) := by
      simp [lexChar, hc.1, hc.2]
    have := Lexes.goOn line w (c :: read) fun d hd => hw d (by simp [hd])
    rw [List.reverse_cons, List.append_assoc]
    exact Lexes.cons hstep this

theorem Lexes.word {w : Text} (hw : IsWord w) (line : ℕ) (boundary : Bool) :
    Lexes (plain line boundary) w [] ⟨.word w.reverse, line, false⟩ := by
  obtain ⟨hne, hchars⟩ := hw
  cases w with
  | nil => exact absurd rfl hne
  | cons c w =>
    have hc := hchars c (by simp)
    have hstep : lexChar c (plain line boundary) = .ok ([], ⟨.word [c], line, false⟩) :=
      lexPlain_word hc.1 hc.2 line boundary
    rw [List.reverse_cons]
    exact Lexes.cons hstep (Lexes.goOn line w [c] fun d hd => hchars d (by simp [hd]))

/-- A piece of text that is one token, once a character `c` ends it that a word cannot hold. -/
def IsLexeme (p : Text) (kind : TokenKind) (value : Text) : Prop :=
  ∀ {c : Char} {line : ℕ} {ts : List Token} {s : LexState} (boundary : Bool), special c = true ∨ isSpace c = true →
    lexPlain c line false = .ok (ts, s) → Lexes (plain line boundary) (p ++ [c]) (⟨kind, value, line⟩ :: ts) s

theorem IsWord.isLexeme {w : Text} (hw : IsWord w) : IsLexeme w .word w := fun {c line ts s} boundary hc h => by
  have hend : lexChar c ⟨.word w.reverse, line, false⟩ = .ok (⟨.word, w, line⟩ :: ts, s) := by
    dsimp only [lexChar]
    rw [if_pos hc, h, List.reverse_reverse]
    rfl
  exact (Lexes.word hw line boundary).append (.char hend)

/-- Lexemes with a space between them, up to the character that ends the last one. -/
theorem Lexes.row {α : Type*} {print : α → Text} {kind : α → TokenKind} {value : α → Text} {c : Char}
    (hc : special c = true ∨ isSpace c = true) {line : ℕ} {ts : List Token} {s : LexState}
    (h : lexPlain c line false = .ok (ts, s)) :
    ∀ {ps : List α} (_ : ps ≠ []) (_ : ∀ p ∈ ps, IsLexeme (print p) (kind p) (value p)) (boundary : Bool),
      Lexes (plain line boundary) (joinSpaces (ps.map print) ++ [c])
        (ps.map (fun p => ⟨kind p, value p, line⟩) ++ ts) s
  | [p], _, hp, boundary => by
    rw [List.map_singleton, joinSpaces_singleton]
    exact hp p (by simp) boundary hc h
  | p :: q :: ps, _, hp, boundary => by
    have hfirst := hp p (by simp) boundary (.inr (by decide : isSpace ' ' = true)) (rfl : lexPlain ' ' line false = _)
    have hrest := Lexes.row hc h (List.cons_ne_nil q ps) (fun x hx => hp x (by simp [hx])) false
    rw [List.map_cons, List.map_cons, joinSpaces_cons, ← List.singleton_append, ← List.append_assoc (print p),
      List.append_assoc]
    exact hfirst.append hrest

/-- A complete text. -/
theorem Lexes.tokenize {t : Text} {ts : List Token} {line : ℕ} {boundary : Bool}
    (h : Lexes (plain 1 true) t ts (plain line boundary)) : tokenize t = .ok ts := by
  have := h []
  rw [List.append_nil] at this
  simpa [Modern.tokenize, lexFrom, lexEnd, Except.map] using this

end Psysmon.Modern
