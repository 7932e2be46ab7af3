import Psysmon.Config.Lexer

/-!
# Psysmon.Config.Block — statements and blocks of the modern grammar (`config/modern.py`)

How the token stream is cut into statements, blocks and attributes, before anything is interpreted.  A function that
warns returns a `Log`: its value, and the warnings in order.
-/

namespace Psysmon.Modern

open Lib Text

/-! ### Warnings -/

/-- A value with the warnings of its computation. -/
@[ext] structure Log (α : Type) where
  val : α
  log : List Text := []

namespace Log

variable {α β : Type}

instance : Monad Log where
  pure a := ⟨a, []⟩
  bind x f := ⟨(f x.val).val, x.log ++ (f x.val).log⟩

/-- `_warn`. -/
def warn (line : ℕ) (message : Text) : Log Unit := ⟨(), [warning line message]⟩

/-- A conditional `_warn`. -/
def warnIf (c : Prop) [Decidable c] (line : ℕ) (message : Text) : Log Unit := ⟨(), if c then [warning line message] else []⟩

/-- The warnings of a computation whose value is already in use. -/
def after (x : Log α) : Log Unit := ⟨(), x.log⟩

@[simp] theorem val_pure (a : α) : (pure a : Log α).val = a := rfl

@[simp] theorem val_bind (x : Log α) (f : α → Log β) : (x >>= f).val = (f x.val).val := rfl

@[simp] theorem val_map (f : α → β) (x : Log α) : (f <$> x).val = f x.val := rfl

@[simp] theorem log_pure (a : α) : (pure a : Log α).log = [] := rfl

@[simp] theorem log_bind (x : Log α) (f : α → Log β) : (x >>= f).log = x.log ++ (f x.val).log := rfl

@[simp] theorem log_map (f : α → β) (x : Log α) : (f <$> x).log = x.log := List.append_nil _

instance : LawfulMonad Log := LawfulMonad.mk' _
  (fun x => Log.ext rfl (log_map id x))
  (fun _ _ => Log.ext rfl (List.nil_append _))
  (fun x f g => Log.ext rfl (List.append_assoc x.log (f x.val).log (g (f x.val).val).log))

end Log

/-! ### Tokens -/

/-- `_collect_to_semi`: the tokens up to the next `;`, whether there is one, and what follows. -/
def collectToSemi : List Token → List Token × Bool × List Token
  | [] => ([], false, [])
  | t :: ts =>
    if t.kind = .semi then ([], true, ts)
    else
      let r := collectToSemi ts
      (t :: r.1, r.2)

/-- `_take`, without its result. -/
def dropKind (kind : TokenKind) : List Token → List Token
  | t :: ts => if t.kind = kind then ts else t :: ts
  | [] => []

/-- `_skip_balanced`: through the brace that closes `depth` open ones. -/
def skipBalanced : ℕ → List Token → List Token
  | 0, ts => ts
  | _ + 1, [] => []
  | depth + 1, t :: ts =>
    if t.kind = .lbrace then skipBalanced (depth + 2) ts
    else if t.kind = .rbrace then skipBalanced depth ts
    else skipBalanced (depth + 1) ts
termination_by _ ts => ts.length

/-- `_collect_attr`: the value tokens up to a `;`, which is consumed, or a closing brace, which is not. -/
def collectAttr : List Token → Log (List Token × List Token)
  | [] => pure ([], [])
  | t :: ts =>
    if t.kind = .rbrace then pure ([], t :: ts)
    else if t.kind = .semi then pure ([], ts)
    else if t.kind = .lbrace then do
      .warn t.line "unexpected '\x7b' in object body; skipping the block".toList
      return ([], dropKind .semi (skipBalanced 1 ts))
    else (fun r => (t :: r.1, r.2)) <$> collectAttr ts

/-- The tokens before the first `;`. -/
theorem collectToSemi_append {ts : List Token} (h : ∀ t ∈ ts, t.kind ≠ .semi) {semi : Token} (hs : semi.kind = .semi)
    (rest : List Token) : collectToSemi (ts ++ semi :: rest) = (ts, true, rest) := by
  induction ts with
  | nil => exact if_pos hs
  | cons t ts ih =>
    rw [List.cons_append, collectToSemi, if_neg (h t (by simp)), ih fun x hx => h x (by simp [hx])]

theorem length_collectToSemi (ts : List Token) : (collectToSemi ts).2.2.length ≤ ts.length := by
  induction ts with
  | nil => rfl
  | cons t ts ih =>
    rw [collectToSemi]
    split
    · simp
    · exact ih.trans (Nat.le_succ _)

/-- The first token is consumed in any case. -/
theorem length_collectToSemi_cons (t : Token) (ts : List Token) : (collectToSemi (t :: ts)).2.2.length ≤ ts.length := by
  rw [collectToSemi]
  split
  · rfl
  · exact length_collectToSemi ts

theorem length_dropKind (k : TokenKind) (ts : List Token) : (dropKind k ts).length ≤ ts.length := by
  cases ts with
  | nil => rfl
  | cons t ts =>
    rw [dropKind]
    split
    · exact Nat.le_succ _
    · rfl

theorem length_skipBalanced (d : ℕ) (ts : List Token) : (skipBalanced d ts).length ≤ ts.length := by
  induction ts generalizing d with
  | nil => cases d <;> simp [skipBalanced]
  | cons t ts ih =>
    cases d with
    | zero => simp [skipBalanced]
    | succ d =>
      rw [skipBalanced]
      split
      · exact (ih _).trans (Nat.le_succ _)
      · split
        · exact (ih _).trans (Nat.le_succ _)
        · exact (ih _).trans (Nat.le_succ _)

theorem length_collectAttr (ts : List Token) : (collectAttr ts).val.2.length ≤ ts.length := by
  induction ts with
  | nil => rfl
  | cons t ts ih =>
    rw [collectAttr]
    split
    · rfl
    · split
      · exact Nat.le_succ _
      · split
        · exact (length_dropKind _ _).trans ((length_skipBalanced _ _).trans (Nat.le_succ _))
        · exact ih.trans (Nat.le_succ _)

/-- Anything but a closing brace is consumed. -/
theorem length_collectAttr_cons {t : Token} (ts : List Token) (h : t.kind ≠ .rbrace) :
    (collectAttr (t :: ts)).val.2.length ≤ ts.length := by
  rw [collectAttr, if_neg h]
  split
  · rfl
  · split
    · exact (length_dropKind _ _).trans (length_skipBalanced _ _)
    · exact length_collectAttr ts

/-- The tokens of a statement, with the warning about a missing terminator. -/
def statementArgs (line : ℕ) (ts : List Token) : Log (List Token × List Token) := do
  let r := collectToSemi ts
  .warnIf (r.2.1 = false) line "statement missing a terminating ';'".toList
  return (r.1, r.2.2)

/-! ### Blocks -/

/-- An attribute of a block: its line and its first value.  `more` holds the values of a repeated `dep`. -/
structure Attr where
  key : Text
  line : ℕ
  value : Option Text
  more : List (Option Text) := []

/-- The two kinds of blocks. -/
inductive BlockKind
  | object | group
  deriving DecidableEq

def BlockKind.name : BlockKind → Text
  | .object => "object".toList
  | .group => "group".toList

/-- The attributes with one more: a `dep` of an object accumulates, of any other key the first value is kept. -/
def addAttr (kind : BlockKind) (name : Text) (attrs : List Attr) (key : Token) (value : Option Text) :
    Log (List Attr) :=
  if attrs.any (·.key = key.value) then
    if key.value = "dep".toList ∧ kind = .object then
      pure (attrs.map fun a => if a.key = key.value then { a with more := a.more ++ [value] } else a)
    else do
      .warn key.line ("duplicate '".toList ++ key.value ++ "' in '".toList ++ name ++ "'; keeping the first".toList)
      return attrs
  else pure (attrs ++ [{ key := key.value, line := key.line, value := value }])

/-- `_collect_block_attrs`: the attributes up to the closing brace, whether there is one, and what follows. -/
def collectBlockAttrs (kind : BlockKind) (name : Text) (attrs : List Attr) : List Token →
    Log (List Attr × Bool × List Token)
  | [] => pure (attrs, false, [])
  | t :: ts =>
    if _h : t.kind = .rbrace then pure (attrs, true, dropKind .semi ts)
    else if t.kind ≠ .word then do
      .warn t.line ("unexpected token in ".toList ++ kind.name ++ " '".toList ++ name ++ "'; skipping".toList)
      let r := collectAttr (t :: ts)
      r.after
      collectBlockAttrs kind name attrs r.val.2
    else do
      let r := collectAttr ts
      r.after
      let values := dropKind .equals r.val.1
      .warnIf (1 < values.length) t.line ("'".toList ++ t.value ++ "' takes one value (missing ';'?)".toList)
      let attrs ← addAttr kind name attrs t (values.head?.map Token.value)
      collectBlockAttrs kind name attrs r.val.2
termination_by ts => ts.length
decreasing_by
  · have := length_collectAttr_cons ts ‹_›
    simp only [List.length_cons]
    omega
  · have := length_collectAttr ts
    simp only [List.length_cons]
    omega

/-- `_skip_block_or_semi`. -/
def skipBlockOrSemi : List Token → List Token
  | [] => []
  | t :: ts => if t.kind = .lbrace then dropKind .semi (skipBalanced 1 ts) else (collectToSemi (t :: ts)).2.2

@[simp] theorem statementArgs_val (line : ℕ) (ts : List Token) :
    (statementArgs line ts).val = ((collectToSemi ts).1, (collectToSemi ts).2.2) := rfl

theorem length_skipBlockOrSemi (ts : List Token) : (skipBlockOrSemi ts).length ≤ ts.length := by
  cases ts with
  | nil => rfl
  | cons t ts =>
    rw [skipBlockOrSemi]
    split
    · exact (length_dropKind _ _).trans ((length_skipBalanced _ _).trans (Nat.le_succ _))
    · exact length_collectToSemi _

theorem length_collectBlockAttrs (kind : BlockKind) (name : Text) (attrs : List Attr) (ts : List Token) :
    (collectBlockAttrs kind name attrs ts).val.2.2.length ≤ ts.length := by
  fun_induction collectBlockAttrs kind name attrs ts with
  | case1 attrs => rfl
  | case2 attrs t ts h => exact (length_dropKind _ _).trans (Nat.le_succ _)
  | case3 attrs t ts h hw ih =>
    exact ih.trans ((length_collectAttr_cons ts h).trans (Nat.le_succ _))
  | case4 attrs t ts h hw r ih =>
    exact (ih _).trans ((length_collectAttr ts).trans (Nat.le_succ _))

end Psysmon.Modern
