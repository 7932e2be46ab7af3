import Psysmon.Config.Lexer

/-!
# Psysmon.Config.LexLoop — the main loop of `tokenize`

`LexLoop.step` is one iteration of the loop as the source has it, with its inner loops.  The text is divided into code,
comments and strings by `Region`, which knows nothing of tokens.

* `progress_iff_clean`: every iteration advances or raises if and only if no whitespace other than space, tab, carriage
  return and newline stands in the code.
* `tokenize_ends`, `tokenize_hangs`: on such a text the loop ends with what the automaton of `tokenize` returns, and on
  any other the automaton says that it does not end.
-/

namespace Psysmon.Modern

open Lib Text

/-! ### One iteration -/

/-- The variables of the loop; `rest` is the text from position `i` on. -/
structure LexLoop where
  rest : Text
  line : ℕ
  boundary : Bool
  tokens : List Token

/-- A character of a bareword. -/
def wordChar (c : Char) : Bool := !special c && !isSpace c

/-- One iteration of the main loop, for a text that goes on. -/
def LexLoop.step (s : LexLoop) : Except ParseError LexLoop :=
  match s.rest with
  | [] => .ok s
  | c :: cs =>
    if c = '\n' then .ok { s with rest := cs, line := s.line + 1, boundary := true }
    else if c = ' ' ∨ c = '\t' ∨ c = '\r' then .ok { s with rest := cs }
    else if c = '#' ∨ (c = ';' ∧ s.boundary = true) then .ok { s with rest := (c :: cs).dropWhile (· ≠ '\n') }
    else if c = '"' then
      match cs.dropWhile (fun d => d ≠ '"' ∧ d ≠ '\n') with
      | '"' :: rest => .ok { s with
          rest := rest
          boundary := false
          tokens := s.tokens ++ [⟨.string, cs.takeWhile (fun d => d ≠ '"' ∧ d ≠ '\n'), s.line⟩] }
      | _ => .error ⟨warning s.line "unterminated string".toList⟩
    else if c = ';' then .ok { s with rest := cs, boundary := true, tokens := s.tokens ++ [⟨.semi, [], s.line⟩] }
    else if c = '\x7b' then .ok { s with rest := cs, boundary := true, tokens := s.tokens ++ [⟨.lbrace, [], s.line⟩] }
    else if c = '\x7d' then .ok { s with rest := cs, boundary := false, tokens := s.tokens ++ [⟨.rbrace, [], s.line⟩] }
    else if c = '=' then .ok { s with rest := cs, boundary := false, tokens := s.tokens ++ [⟨.equals, [], s.line⟩] }
    else .ok { s with
      rest := (c :: cs).dropWhile wordChar
      boundary := false
      tokens := s.tokens ++ [⟨.word, (c :: cs).takeWhile wordChar, s.line⟩] }

/-- The loop before its first iteration. -/
def LexLoop.start (text : Text) : LexLoop := ⟨text, 1, true, []⟩

/-- The iteration ends the function or advances the position. -/
def LexLoop.Progresses (s : LexLoop) : Prop :=
  (∃ e, s.step = .error e) ∨ ∃ s', s.step = .ok s' ∧ s'.rest.length < s.rest.length

/-- An iteration leads from `s` to `s'`. -/
def LexLoop.Next (s s' : LexLoop) : Prop := s.rest ≠ [] ∧ s.step = .ok s'

/-! ### Code, comments and strings -/

/-- Where a position of the text lies; in code, `boundary` is true where a statement could begin.  Behind an
unterminated string nothing is read. -/
inductive Region
  | code (boundary : Bool)
  | comment
  | string
  | broken

/-- The region behind a character. -/
def Region.next : Region → Char → Region
  | .code boundary, c =>
    if c = '"' then .string
    else if c = '#' then .comment
    else if c = ';' then (if boundary then .comment else .code true)
    else if c = '\x7b' ∨ c = '\n' then .code true
    else if c = ' ' ∨ c = '\t' ∨ c = '\r' then .code boundary
    else .code false
  | .comment, c => if c = '\n' then .code true else .comment
  | .string, c => if c = '"' then .code false else if c = '\n' then .broken else .string
  | .broken, _ => .broken

def Region.isCode : Region → Bool
  | .code _ => true
  | _ => false

/-- The region behind a text. -/
def region (t : Text) : Region := t.foldl Region.next (.code true)

/-- Whitespace that is neither space, tab, carriage return nor newline. -/
def Foreign (c : Char) : Prop := isSpace c = true ∧ c ∉ [' ', '\t', '\r', '\n']

/-- No such character stands in code, the text starting in region `g`. -/
def Clean : Region → Text → Prop
  | _, [] => True
  | g, c :: cs => (g.isCode = true → ¬ Foreign c) ∧ Clean (g.next c) cs

theorem clean_iff (t : Text) : ∀ g : Region, Clean g t ↔
    ∀ pre c post, t = pre ++ c :: post → (pre.foldl Region.next g).isCode = true → ¬ Foreign c := by
  induction t with
  | nil => exact fun g => ⟨fun _ pre c post h => by simp at h, fun _ => trivial⟩
  | cons d t ih =>
    intro g
    rw [Clean, ih]
    constructor
    · rintro ⟨hd, ht⟩ pre c post h hcode
      cases pre with
      | nil =>
        obtain ⟨rfl, -⟩ := List.cons.inj h
        exact hd hcode
      | cons e pre =>
        obtain ⟨hde, hpost⟩ := List.cons.inj h
        subst hde
        exact ht pre c post hpost hcode
    · intro h
      exact ⟨h [] d t rfl, fun pre c post ht => h (d :: pre) c post (by rw [ht]; rfl)⟩

/-! ### The inner loops -/

theorem lexFrom_char {c : Char} {s s' : LexState} {ts : List Token} (h : lexChar c s = .ok (ts, s')) (cs : Text) :
    lexFrom (c :: cs) s = (lexFrom cs s').map (ts ++ ·) := by
  rw [lexFrom, h]

theorem lexFrom_skip {c : Char} {s s' : LexState} (h : lexChar c s = .ok ([], s')) (cs : Text) :
    lexFrom (c :: cs) s = lexFrom cs s' := by
  rw [lexFrom_char h]
  cases lexFrom cs s' <;> rfl

/-- The loop that skips a comment. -/
theorem lexFrom_comment (line : ℕ) (boundary : Bool) : ∀ t : Text,
    lexFrom t ⟨.comment, line, boundary⟩ = lexFrom (t.dropWhile (· ≠ '\n')) (plain line boundary)
  | [] => rfl
  | c :: t => by
    by_cases hc : c = '\n'
    · subst hc
      rfl
    · rw [List.dropWhile_cons_of_pos (by simpa using hc), ← lexFrom_comment line boundary t]
      have hstep : lexChar c ⟨.comment, line, boundary⟩ = .ok ([], ⟨.comment, line, boundary⟩) := if_neg hc
      exact lexFrom_skip hstep t

theorem clean_comment (boundary : Bool) : ∀ t : Text,
    Clean .comment t ↔ Clean (.code boundary) (t.dropWhile (· ≠ '\n'))
  | [] => Iff.rfl
  | c :: t => by
    by_cases hc : c = '\n'
    · subst hc
      have hforeign : ¬ Foreign '\n' := by simp [Foreign]
      simp [Clean, Region.next, Region.isCode, hforeign]
    · rw [List.dropWhile_cons_of_pos (by simpa using hc), ← clean_comment boundary t]
      simp [Clean, Region.next, Region.isCode, hc]

/-- The characters inside a string. -/
abbrev stringChar (c : Char) : Bool := decide (c ≠ '"' ∧ c ≠ '\n')

/-- A string that is closed. -/
theorem lexFrom_string (start line : ℕ) (boundary : Bool) {rest : Text} : ∀ t read : Text,
    t.dropWhile stringChar = '"' :: rest →
    lexFrom t ⟨.string start read, line, boundary⟩ =
      (lexFrom rest (plain line false)).map ([⟨.string, read.reverse ++ t.takeWhile stringChar, start⟩] ++ ·) ∧
    (Clean .string t ↔ Clean (.code false) rest)
  | [], _, h => by cases h
  | c :: t, read, h => by
    by_cases hc : stringChar c = true
    · have hne : c ≠ '"' ∧ c ≠ '\n' := of_decide_eq_true hc
      rw [List.dropWhile_cons_of_pos hc] at h
      obtain ⟨hlex, hclean⟩ := lexFrom_string start line boundary t (c :: read) h
      have hstep : lexChar c ⟨.string start read, line, boundary⟩ = .ok ([], ⟨.string start (c :: read), line, boundary⟩) := by
        dsimp only [lexChar]
        rw [if_neg hne.1, if_neg hne.2]
      rw [List.takeWhile_cons_of_pos hc, lexFrom_skip hstep, hlex, List.reverse_cons, List.append_assoc]
      refine ⟨rfl, ?_⟩
      rw [← hclean]
      simp [Clean, Region.next, Region.isCode, hne.1, hne.2]
    · rw [List.dropWhile_cons_of_neg hc] at h
      obtain ⟨rfl, rfl⟩ := List.cons.inj h
      have hstep : lexChar '"' ⟨.string start read, line, boundary⟩ = .ok ([⟨.string, read.reverse, start⟩], plain line false) := rfl
      rw [List.takeWhile_cons_of_neg hc, lexFrom_char hstep, List.append_nil]
      exact ⟨rfl, by simp [Clean, Region.next, Region.isCode]⟩

/-- Nothing in a text that is not read counts. -/
theorem clean_broken : ∀ t : Text, Clean .broken t
  | [] => trivial
  | _ :: t => ⟨by simp [Region.isCode], clean_broken t⟩

/-- A string that is not closed. -/
theorem lexFrom_string_broken (start line : ℕ) (boundary : Bool) : ∀ t read : Text,
    (∀ rest, t.dropWhile stringChar ≠ '"' :: rest) →
    lexFrom t ⟨.string start read, line, boundary⟩ = .error (.error ⟨warning start "unterminated string".toList⟩) ∧
    Clean .string t
  | [], _, _ => ⟨rfl, trivial⟩
  | c :: t, read, h => by
    by_cases hc : stringChar c = true
    · have hne : c ≠ '"' ∧ c ≠ '\n' := of_decide_eq_true hc
      rw [List.dropWhile_cons_of_pos hc] at h
      obtain ⟨hlex, hclean⟩ := lexFrom_string_broken start line boundary t (c :: read) h
      have hstep : lexChar c ⟨.string start read, line, boundary⟩ = .ok ([], ⟨.string start (c :: read), line, boundary⟩) := by
        dsimp only [lexChar]
        rw [if_neg hne.1, if_neg hne.2]
      rw [lexFrom_skip hstep, hlex]
      refine ⟨rfl, ?_⟩
      simpa [Clean, Region.next, Region.isCode, hne.1, hne.2] using hclean
    · rw [List.dropWhile_cons_of_neg hc] at h
      have hq : c ≠ '"' := fun hq => h t (by rw [hq])
      obtain rfl : c = '\n' := by
        by_contra hn
        exact hc (decide_eq_true ⟨hq, hn⟩)
      exact ⟨rfl, by simpa [Clean, Region.next, Region.isCode] using clean_broken t⟩

/-- A bareword. -/
theorem lexFrom_word (line : ℕ) : ∀ t read : Text,
    lexFrom t ⟨.word read, line, false⟩ = (lexFrom (t.dropWhile wordChar) (plain line false)).map
      ([⟨.word, read.reverse ++ t.takeWhile wordChar, line⟩] ++ ·)
  | [], read => by simp [lexFrom, lexEnd, Except.map]
  | c :: t, read => by
    by_cases hc : wordChar c = true
    · have hne : special c = false ∧ isSpace c = false := by simpa [wordChar] using hc
      have hstep : lexChar c ⟨.word read, line, false⟩ = .ok ([], ⟨.word (c :: read), line, false⟩) := by
        simp [lexChar, hne.1, hne.2]
      rw [List.takeWhile_cons_of_pos hc, List.dropWhile_cons_of_pos hc, lexFrom_skip hstep, lexFrom_word line t (c :: read),
        List.reverse_cons, List.append_assoc]
      rfl
    · have hend : special c = true ∨ isSpace c = true := by
        by_contra hne
        simp only [not_or, Bool.not_eq_true] at hne
        exact hc (by simp [wordChar, hne.1, hne.2])
      rw [List.takeWhile_cons_of_neg hc, List.dropWhile_cons_of_neg hc, List.append_nil, lexFrom, lexFrom, lexChar, lexChar]
      dsimp only
      rw [if_pos hend]
      cases lexPlain c line false with
      | error e => rfl
      | ok r =>
        dsimp only [Except.map]
        cases lexFrom t r.2 <;> rfl

theorem ne_of_wordChar {c d : Char} (hc : wordChar c = true) (hd : wordChar d = false) : c ≠ d := by
  rintro rfl
  rw [hc] at hd
  cases hd

theorem not_foreign_of_wordChar {c : Char} (h : wordChar c = true) : ¬ Foreign c := by
  have hne : special c = false ∧ isSpace c = false := by simpa [wordChar] using h
  simp [Foreign, hne.2]

/-- The region behind a character of a word. -/
theorem next_wordChar {c : Char} (hc : wordChar c = true) (boundary : Bool) :
    (Region.code boundary).next c = .code false := by
  have hblank : ¬ (c = ' ' ∨ c = '\t' ∨ c = '\r') := by
    rintro (h | h | h)
    · exact ne_of_wordChar hc (by decide) h
    · exact ne_of_wordChar hc (by decide) h
    · exact ne_of_wordChar hc (by decide) h
  have hopen : ¬ (c = '\x7b' ∨ c = '\n') := by
    rintro (h | h)
    · exact ne_of_wordChar hc (by decide) h
    · exact ne_of_wordChar hc (by decide) h
  dsimp only [Region.next]
  rw [if_neg (ne_of_wordChar hc (by decide)), if_neg (ne_of_wordChar hc (by decide)),
    if_neg (ne_of_wordChar hc (by decide)), if_neg hopen, if_neg hblank]

theorem clean_word : ∀ t : Text, Clean (.code false) t ↔ Clean (.code false) (t.dropWhile wordChar)
  | [] => Iff.rfl
  | c :: t => by
    by_cases hc : wordChar c = true
    · rw [List.dropWhile_cons_of_pos hc, ← clean_word t, Clean, next_wordChar hc]
      simp [not_foreign_of_wordChar hc]
    · rw [List.dropWhile_cons_of_neg hc]

/-! ### What an iteration does -/

/-- An iteration that advances: the tokens it adds, what it leaves of the text, and that neither the automaton nor the
division into regions sees a difference. -/
structure LexLoop.Advances (s s' : LexLoop) : Prop where
  shorter : s'.rest.length < s.rest.length
  clean : Clean (.code s'.boundary) s'.rest ↔ Clean (.code s.boundary) s.rest
  lex : ∃ ts, s'.tokens = s.tokens ++ ts ∧
    lexFrom s.rest (plain s.line s.boundary) = (lexFrom s'.rest (plain s'.line s'.boundary)).map (ts ++ ·)

/-- One character of its own. -/
theorem LexLoop.advances_char {s : LexLoop} {c : Char} {cs : Text} (hr : s.rest = c :: cs) (hc : ¬ Foreign c)
    {ts tokens : List Token} {line : ℕ} {boundary : Bool} (ht : tokens = s.tokens ++ ts)
    (hlex : lexPlain c s.line s.boundary = .ok (ts, plain line boundary))
    (hnext : (Region.code s.boundary).next c = .code boundary) : s.Advances ⟨cs, line, boundary, tokens⟩ where
  shorter := by simp [hr]
  clean := by simp [hr, Clean, hnext, hc]
  lex := by
    have hchar : lexChar c (plain s.line s.boundary) = .ok (ts, plain line boundary) := hlex
    refine ⟨ts, ht, ?_⟩
    rw [hr]
    exact lexFrom_char hchar cs

/-- A comment. -/
theorem LexLoop.advances_comment {s : LexLoop} {c : Char} {cs : Text} (hr : s.rest = c :: cs)
    (hc : c = '#' ∨ (c = ';' ∧ s.boundary = true)) :
    s.Advances { s with rest := (c :: cs).dropWhile (· ≠ '\n') } := by
  have hn : c ≠ '\n' := by rintro rfl; simp at hc
  have hforeign : ¬ Foreign c := by
    rcases hc with rfl | ⟨rfl, -⟩
    · exact fun h => absurd h.1 (by decide)
    · exact fun h => absurd h.1 (by decide)
  have hnext : (Region.code s.boundary).next c = .comment := by
    rcases hc with rfl | ⟨rfl, hb⟩
    · rfl
    · rw [hb]
      rfl
  have hstep : lexChar c (plain s.line s.boundary) = .ok ([], ⟨.comment, s.line, s.boundary⟩) := by
    rcases hc with rfl | ⟨rfl, hb⟩
    · rfl
    · rw [hb]
      rfl
  have hdrop : (c :: cs).dropWhile (· ≠ '\n') = cs.dropWhile (· ≠ '\n') :=
    List.dropWhile_cons_of_pos (by simpa using hn)
  refine ⟨?_, ?_, [], by simp, ?_⟩
  · rw [hdrop, hr]
    exact Nat.lt_succ_of_le (List.dropWhile_sublist _).length_le
  · rw [hr, Clean, hnext, clean_comment s.boundary, hdrop]
    exact ⟨fun h => ⟨fun _ => hforeign, h⟩, And.right⟩
  · rw [hr, lexFrom_skip hstep, lexFrom_comment, hdrop]
    cases lexFrom (cs.dropWhile (· ≠ '\n')) (plain s.line s.boundary) <;> rfl

theorem not_foreign_quote : ¬ Foreign '"' := fun h => absurd h.1 (by decide)

/-- A string that is closed. -/
theorem LexLoop.advances_string {s : LexLoop} {cs rest : Text} (hr : s.rest = '"' :: cs)
    (hd : cs.dropWhile stringChar = '"' :: rest) :
    s.Advances ⟨rest, s.line, false, s.tokens ++ [⟨.string, cs.takeWhile stringChar, s.line⟩]⟩ := by
  have hstep : lexChar '"' (plain s.line s.boundary) = .ok ([], ⟨.string s.line [], s.line, s.boundary⟩) := rfl
  obtain ⟨hlex, hclean⟩ := lexFrom_string s.line s.line s.boundary cs [] hd
  refine ⟨?_, ?_, _, rfl, ?_⟩
  · have : rest.length < cs.length := by
      have := (List.dropWhile_sublist stringChar (l := cs)).length_le
      rw [hd] at this
      exact this
    rw [hr]
    exact this.trans (Nat.lt_succ_self _)
  · rw [hr, Clean, ← hclean]
    exact ⟨fun h => ⟨fun _ => not_foreign_quote, h⟩, And.right⟩
  · rw [hr, lexFrom_skip hstep, hlex]
    rfl

/-- A bareword. -/
theorem LexLoop.advances_word {s : LexLoop} {c : Char} {cs : Text} (hr : s.rest = c :: cs) (hc : wordChar c = true) :
    s.Advances ⟨(c :: cs).dropWhile wordChar, s.line, false,
      s.tokens ++ [⟨.word, (c :: cs).takeWhile wordChar, s.line⟩]⟩ := by
  have hne : special c = false ∧ isSpace c = false := by simpa [wordChar] using hc
  have hstep : lexChar c (plain s.line s.boundary) = .ok ([], ⟨.word [c], s.line, false⟩) :=
    lexPlain_word hne.1 hne.2 s.line s.boundary
  refine ⟨?_, ?_, _, rfl, ?_⟩
  · rw [hr, List.dropWhile_cons_of_pos hc]
    exact Nat.lt_succ_of_le (List.dropWhile_sublist _).length_le
  · rw [hr, List.dropWhile_cons_of_pos hc, ← clean_word cs, Clean, next_wordChar hc]
    simp [not_foreign_of_wordChar hc]
  · rw [hr, lexFrom_skip hstep, lexFrom_word, List.dropWhile_cons_of_pos hc, List.takeWhile_cons_of_pos hc]
    rfl

/-- A character in code that starts nothing else starts a word, unless it is foreign. -/
theorem wordChar_of_not_foreign {c : Char} (hc : ¬ Foreign c) (hblank : c ∉ [' ', '\t', '\r', '\n'])
    (hspecial : special c = false) : wordChar c = true := by
  have hs : isSpace c = false := by
    by_contra hs
    exact hc ⟨by simpa using hs, hblank⟩
  simp [wordChar, hspecial, hs]

/-- An iteration at a character that is not foreign raises or advances. -/
theorem LexLoop.step_spec {s : LexLoop} {c : Char} {cs : Text} (hr : s.rest = c :: cs) (hc : ¬ Foreign c) :
    (∃ e, s.step = .error e ∧ Clean (.code s.boundary) s.rest ∧
      lexFrom s.rest (plain s.line s.boundary) = .error (.error e)) ∨ ∃ s', s.step = .ok s' ∧ s.Advances s' := by
  unfold LexLoop.step
  rw [hr]
  dsimp only
  split
  · rename_i h
    subst h
    exact .inr ⟨_, rfl, advances_char hr hc (List.append_nil _).symm rfl rfl⟩
  rename_i hn
  split
  · rename_i h
    refine .inr ⟨_, rfl, advances_char hr hc (List.append_nil _).symm ?_ ?_⟩
    · rcases h with rfl | rfl | rfl <;> rfl
    · rcases h with rfl | rfl | rfl <;> rfl
  rename_i hblank
  split
  · rename_i h
    exact .inr ⟨_, rfl, advances_comment hr h⟩
  rename_i hcomment
  split
  · rename_i h
    subst h
    split
    · rename_i rest hd
      exact .inr ⟨_, rfl, advances_string hr hd⟩
    · rename_i hd
      have hstep : lexChar '"' (plain s.line s.boundary) = .ok ([], ⟨.string s.line [], s.line, s.boundary⟩) := rfl
      obtain ⟨hlex, hclean⟩ := lexFrom_string_broken s.line s.line s.boundary cs [] hd
      exact .inl ⟨_, rfl, ⟨fun _ => not_foreign_quote, hclean⟩, (lexFrom_skip hstep cs).trans hlex⟩
  rename_i hquote
  split
  · rename_i h
    subst h
    have hb : s.boundary = false := by simpa using hcomment
    refine .inr ⟨_, rfl, advances_char hr hc rfl ?_ ?_⟩
    · rw [hb]
      rfl
    · rw [hb]
      rfl
  rename_i hsemi
  split
  · rename_i h
    subst h
    exact .inr ⟨_, rfl, advances_char hr hc rfl rfl rfl⟩
  rename_i hopen
  split
  · rename_i h
    subst h
    exact .inr ⟨_, rfl, advances_char hr hc rfl rfl rfl⟩
  rename_i hclose
  split
  · rename_i h
    subst h
    exact .inr ⟨_, rfl, advances_char hr hc rfl rfl rfl⟩
  rename_i heq
  have hword : wordChar c = true := by
    refine wordChar_of_not_foreign hc ?_ ?_
    · simp only [List.mem_cons, List.not_mem_nil, or_false, not_or]
      exact ⟨fun h => hblank (.inl h), fun h => hblank (.inr (.inl h)), fun h => hblank (.inr (.inr h)), hn⟩
    · simp [special, hquote, hopen, hclose, heq, hsemi]
      exact fun h => hcomment (.inl h)
  exact .inr ⟨_, rfl, advances_word hr hword⟩

/-- A foreign character is none of the characters the grammar names. -/
theorem Foreign.ne {c : Char} (hc : Foreign c) (d : Char) (hd : isSpace d = false ∨ d ∈ [' ', '\t', '\r', '\n']) :
    c ≠ d := by
  rintro rfl
  rcases hd with hd | hd
  · rw [hc.1] at hd
    cases hd
  · exact hc.2 hd

theorem Foreign.not_blank {c : Char} (hc : Foreign c) : ¬ (c = ' ' ∨ c = '\t' ∨ c = '\r') := by
  rintro (h | h | h)
  · exact hc.ne _ (.inr (by decide)) h
  · exact hc.ne _ (.inr (by decide)) h
  · exact hc.ne _ (.inr (by decide)) h

theorem Foreign.not_comment {c : Char} (hc : Foreign c) (boundary : Bool) :
    ¬ (c = '#' ∨ (c = ';' ∧ boundary = true)) := by
  rintro (h | ⟨h, -⟩)
  · exact hc.ne _ (.inl (by decide)) h
  · exact hc.ne _ (.inl (by decide)) h

/-- The automaton at a foreign character. -/
theorem Foreign.lexPlain {c : Char} (hc : Foreign c) (line : ℕ) (boundary : Bool) :
    lexPlain c line boundary = .error .hangs := by
  have hne := hc.ne
  unfold Modern.lexPlain
  rw [if_neg (hne _ (.inr (by decide))), if_neg hc.not_blank, if_neg (hc.not_comment boundary),
    if_neg (hne _ (.inl (by decide))), if_neg (hne _ (.inl (by decide))), if_neg (hne _ (.inl (by decide))),
    if_neg (hne _ (.inl (by decide))), if_neg (hne _ (.inl (by decide))), if_pos hc.1]

/-- At a foreign character the iteration adds an empty word and stays where it is. -/
theorem LexLoop.step_foreign {s : LexLoop} {c : Char} {cs : Text} (hr : s.rest = c :: cs) (hc : Foreign c) :
    s.step = .ok { s with boundary := false, tokens := s.tokens ++ [⟨.word, [], s.line⟩] } := by
  have hne := hc.ne
  have hword : ¬ wordChar c = true := by simp [wordChar, hc.1]
  unfold LexLoop.step
  rw [hr]
  dsimp only
  rw [if_neg (hne _ (.inr (by decide))), if_neg hc.not_blank, if_neg (hc.not_comment s.boundary),
    if_neg (hne _ (.inl (by decide))), if_neg (hne _ (.inl (by decide))), if_neg (hne _ (.inl (by decide))), if_neg (hne _ (.inl (by decide))),
    if_neg (hne _ (.inl (by decide))), List.dropWhile_cons_of_neg hword, List.takeWhile_cons_of_neg hword, ← hr]

/-! ### The loop -/

/-- The loop as a whole: from `s` it ends with the result `r`. -/
inductive LexLoop.Ends : LexLoop → Except ParseError (List Token) → Prop
  | done {s : LexLoop} (h : s.rest = []) : Ends s (.ok s.tokens)
  | raise {s : LexLoop} {e : ParseError} (hr : s.rest ≠ []) (h : s.step = .error e) : Ends s (.error e)
  | next {s s' : LexLoop} {r : Except ParseError (List Token)} (h : s.Next s') (h' : Ends s' r) : Ends s r

/-- In clean text an iteration raises or advances. -/
theorem LexLoop.spec_of_clean {s : LexLoop} (hclean : Clean (.code s.boundary) s.rest) (hne : s.rest ≠ []) :
    (∃ e, s.step = .error e ∧ lexFrom s.rest (plain s.line s.boundary) = .error (.error e)) ∨
      ∃ s', s.step = .ok s' ∧ s.Advances s' := by
  obtain ⟨c, cs, hr⟩ := List.exists_cons_of_ne_nil hne
  have hc : ¬ Foreign c := by
    rw [hr] at hclean
    exact hclean.1 rfl
  rcases LexLoop.step_spec hr hc with ⟨e, he, -, hlex⟩ | h
  · exact .inl ⟨e, he, hlex⟩
  · exact .inr h

/-- **Progress of `tokenize`.**  On every text, each iteration of the main loop advances the position or raises, if and
only if every whitespace character other than space, tab, carriage return and newline stands in a comment, in a string
or behind an unterminated string. -/
theorem progress_iff_clean (text : Text) :
    (∀ s, Relation.ReflTransGen LexLoop.Next (.start text) s → s.rest ≠ [] → s.Progresses) ↔
      ∀ pre c post, text = pre ++ c :: post → (region pre).isCode = true → ¬ Foreign c := by
  refine Iff.trans ?_ (clean_iff text (.code true))
  constructor
  · -- by induction on the length of the text that is left
    suffices hall : ∀ n (s : LexLoop), s.rest.length = n →
        (∀ s', Relation.ReflTransGen LexLoop.Next s s' → s'.rest ≠ [] → s'.Progresses) → Clean (.code s.boundary) s.rest from
      fun h => hall _ (.start text) rfl h
    intro n
    induction n using Nat.strong_induction_on with
    | _ n ih =>
      intro s hn hprog
      cases hr : s.rest with
      | nil => trivial
      | cons c cs =>
        have hne : s.rest ≠ [] := by rw [hr]; exact List.cons_ne_nil c cs
        have hc : ¬ Foreign c := by
          intro hc
          rcases hprog s .refl hne with ⟨e, he⟩ | ⟨s', hs', hlt⟩
          · rw [LexLoop.step_foreign hr hc] at he
            cases he
          · rw [LexLoop.step_foreign hr hc] at hs'
            obtain rfl := Except.ok.inj hs'
            exact lt_irrefl _ hlt
        rw [← hr]
        rcases LexLoop.step_spec hr hc with ⟨e, -, hclean, -⟩ | ⟨s', hs', hadv⟩
        · exact hclean
        · refine hadv.clean.mp (ih _ (hn ▸ hadv.shorter) s' rfl fun s'' h => hprog s'' ?_)
          exact .head ⟨hne, hs'⟩ h
  · intro hclean s hreach hne
    have hs : Clean (.code s.boundary) s.rest := by
      clear hne
      induction hreach with
      | refl => exact hclean
      | @tail s s' _ hnext ih =>
        rcases LexLoop.spec_of_clean ih hnext.1 with ⟨e, he, -⟩ | ⟨t, ht, hadv⟩
        · rw [hnext.2] at he
          cases he
        · obtain rfl := Except.ok.inj (ht.symm.trans hnext.2)
          exact hadv.clean.mpr ih
    rcases LexLoop.spec_of_clean hs hne with ⟨e, he, -⟩ | ⟨s', hs', hadv⟩
    · exact .inl ⟨e, he⟩
    · exact .inr ⟨s', hs', hadv.shorter⟩

/-- A form feed: the position stays where it is, for ever. -/
theorem no_progress_form_feed : ¬ (LexLoop.start ['\x0c']).Progresses := by
  rintro (⟨e, he⟩ | ⟨s', hs', hlt⟩)
  · cases he
  · obtain rfl := Except.ok.inj hs'
    exact absurd hlt (by decide)

/-- **The automaton and the loop agree.**  On clean text the loop ends, with the result of `tokenize`. -/
theorem ends_of_clean (s : LexLoop) (hclean : Clean (.code s.boundary) s.rest) : ∃ r, s.Ends r ∧
    (lexFrom s.rest (plain s.line s.boundary)).map (s.tokens ++ ·) = r.mapError .error := by
  induction hn : s.rest.length using Nat.strong_induction_on generalizing s with
  | _ n ih =>
    by_cases hne : s.rest = []
    · refine ⟨_, .done hne, ?_⟩
      rw [hne]
      exact congrArg Except.ok (List.append_nil _)
    · rcases LexLoop.spec_of_clean hclean hne with ⟨e, he, hlex⟩ | ⟨s', hs', hadv⟩
      · exact ⟨_, .raise hne he, by rw [hlex]; rfl⟩
      · obtain ⟨r, hends, hres⟩ := ih _ (hn ▸ hadv.shorter) s' (hadv.clean.mpr hclean) rfl
        obtain ⟨ts, hts, hlex⟩ := hadv.lex
        refine ⟨r, .next ⟨hne, hs'⟩ hends, ?_⟩
        rw [← hres, hlex, hts]
        cases lexFrom s'.rest (plain s'.line s'.boundary) with
        | error e => rfl
        | ok us => exact congrArg Except.ok (List.append_assoc _ _ _).symm

theorem tokenize_ends {text : Text} (hclean : Clean (.code true) text) :
    ∃ r, (LexLoop.start text).Ends r ∧ tokenize text = r.mapError .error := by
  obtain ⟨r, hends, hres⟩ := ends_of_clean (.start text) hclean
  refine ⟨r, hends, ?_⟩
  rw [← hres]
  change lexFrom text (plain 1 true) = (lexFrom text (plain 1 true)).map ([] ++ ·)
  cases lexFrom text (plain 1 true) <;> rfl

/-- On any other text the automaton says that there is no end. -/
theorem lexFrom_hangs (s : LexLoop) (hclean : ¬ Clean (.code s.boundary) s.rest) :
    lexFrom s.rest (plain s.line s.boundary) = .error .hangs := by
  induction hn : s.rest.length using Nat.strong_induction_on generalizing s with
  | _ n ih =>
    cases hr : s.rest with
    | nil =>
      rw [hr] at hclean
      exact absurd trivial hclean
    | cons c cs =>
      by_cases hc : Foreign c
      · rw [lexFrom, lexChar]
        dsimp only
        rw [hc.lexPlain]
      · rcases LexLoop.step_spec hr hc with ⟨e, -, h, -⟩ | ⟨s', hs', hadv⟩
        · exact absurd h hclean
        · obtain ⟨ts, -, hlex⟩ := hadv.lex
          rw [← hr, hlex, ih _ (hn ▸ hadv.shorter) s' (fun h => hclean (hadv.clean.mp h)) rfl]
          rfl

theorem tokenize_hangs {text : Text} (hclean : ¬ Clean (.code true) text) : tokenize text = .error .hangs :=
  lexFrom_hangs (.start text) hclean

end Psysmon.Modern
