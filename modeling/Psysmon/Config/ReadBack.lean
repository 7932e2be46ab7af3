import Psysmon.Config.Grammar
import Psysmon.Config.Statements

/-!
# Psysmon.Config.ReadBack — a printed file, read back

What the parser makes of the tokens of a printed file: the statements it was printed from, with the attributes of a block
collected line by line (`addItem`).

* `collectBlockAttrs_body`: the lines of one block.
* `clauses_tokensFrom`: the file.
-/

namespace Psysmon.Modern

open Lib Text

/-! ### The lines of a block -/

/-- The attributes of a block with one more line read. -/
def addItem (kind : BlockKind) (attrs : List Attr) : Item → List Attr
  | .attr key _ value _ => (addAttr kind [] attrs ⟨.word, key.text, 0⟩ (some value.text)).val
  | .comment _ => attrs

theorem val_collectAttr_append {ts : List Token} (h : ∀ t ∈ ts, t.kind ≠ .rbrace ∧ t.kind ≠ .semi ∧ t.kind ≠ .lbrace)
    {semi : Token} (hs : semi.kind = .semi) (rest : List Token) :
    (collectAttr (ts ++ semi :: rest)).val = (ts, rest) := by
  induction ts with
  | nil => rw [List.nil_append, collectAttr, if_neg (by rw [hs]; decide), if_pos hs]; rfl
  | cons t ts ih =>
    obtain ⟨hr, hsemi, hl⟩ := h t (by simp)
    rw [List.cons_append, collectAttr, if_neg hr, if_neg hsemi, if_neg hl, Log.val_map,
      ih fun x hx => h x (by simp [hx])]

theorem Lexeme.kind_cases (p : Lexeme) : p.kind = .word ∨ p.kind = .string ∨ p.kind = .equals := by
  match p with
  | .value (.word _) => exact .inl rfl
  | .value (.string _) => exact .inr (.inl rfl)
  | .equals => exact .inr (.inr rfl)

theorem kind_rowTokens {line : ℕ} {ps : List Lexeme} {t : Token} (h : t ∈ rowTokens line ps) :
    t.kind ≠ .rbrace ∧ t.kind ≠ .semi ∧ t.kind ≠ .lbrace := by
  obtain ⟨p, -, rfl⟩ := List.mem_map.mp h
  rcases p.kind_cases with hk | hk | hk <;> (dsimp only; rw [hk]; decide)

theorem collectToSemi_rowTokens (line : ℕ) (ps : List Lexeme) (rest : List Token) :
    collectToSemi (rowTokens line ps ++ ⟨.semi, [], line⟩ :: rest) = (rowTokens line ps, true, rest) :=
  collectToSemi_append (fun _ ht => (kind_rowTokens ht).2.1) rfl rest

theorem unlined_addAttr (kind : BlockKind) (name key : Text) (attrs : List Attr) (line : ℕ) (value : Option Text) :
    (addAttr kind name attrs ⟨.word, key, line⟩ value).val.map Attr.unlined =
      (addAttr kind [] (attrs.map Attr.unlined) ⟨.word, key, 0⟩ value).val := by
  have hany : (attrs.map Attr.unlined).any (·.key = key) = attrs.any (·.key = key) := List.any_map
  unfold addAttr
  dsimp only
  rw [hany]
  split
  · split
    · simp only [Log.val_pure, List.map_map]
      refine List.map_congr_left fun a _ => ?_
      by_cases hk : a.key = key <;> simp [Attr.unlined, hk]
    · rfl
  · simp [Attr.unlined]

/-- One line. -/
theorem collectBlockAttrs_item (kind : BlockKind) (name : Text) (attrs : List Attr) (line : ℕ) (i : Item)
    (rest : List Token) : ∃ attrs', attrs'.map Attr.unlined = addItem kind (attrs.map Attr.unlined) i ∧
      (collectBlockAttrs kind name attrs (i.tokens line ++ rest)).val =
        (collectBlockAttrs kind name attrs' rest).val := by
  cases i with
  | comment note => exact ⟨attrs, rfl, rfl⟩
  | attr key equals value note =>
    refine ⟨(addAttr kind name attrs ⟨.word, key.text, line⟩ (some value.text)).val,
      unlined_addAttr kind name key.text attrs line (some value.text), ?_⟩
    -- the tokens after the key, and the first of them that is not the `=`
    let row : List Lexeme := if equals then [.equals, .value value] else [.value value]
    have hcollect : (collectAttr (rowTokens line row ++ ⟨.semi, [], line⟩ :: rest)).val = (rowTokens line row, rest) :=
      val_collectAttr_append (fun _ ht => kind_rowTokens ht) rfl rest
    have hvalue : (dropKind .equals (rowTokens line row)).head?.map Token.value = some value.text := by
      have hne : (Lexeme.value value).kind ≠ .equals := by cases value <;> rintro ⟨⟩
      cases equals with
      | true => rfl
      | false =>
        change (dropKind .equals [⟨(Lexeme.value value).kind, value.text, line⟩]).head?.map Token.value = _
        rw [dropKind, if_neg hne]
        rfl
    have htokens : (Item.attr key equals value note).tokens line ++ rest =
        ⟨.word, key.text, line⟩ :: (rowTokens line row ++ ⟨.semi, [], line⟩ :: rest) := by
      rw [Item.tokens, List.append_assoc]
      rfl
    rw [htokens, collectBlockAttrs, dif_neg (by rintro ⟨⟩), if_neg (not_not.mpr rfl)]
    simp only [Log.val_bind, hcollect, hvalue]

/-- **The lines of a block**, up to its closing brace. -/
theorem collectBlockAttrs_body (kind : BlockKind) (name : Text) (last : ℕ) (rest : List Token) : ∀ (body : List Item)
    (line : ℕ) (attrs : List Attr),
    let r := (collectBlockAttrs kind name attrs (bodyTokens line body ++ ⟨.rbrace, [], last⟩ :: rest)).val
    r.1.map Attr.unlined = body.foldl (addItem kind) (attrs.map Attr.unlined) ∧ r.2 = (true, dropKind .semi rest)
  | [], line, attrs => by
    rw [bodyTokens, List.nil_append, collectBlockAttrs, dif_pos rfl]
    exact ⟨rfl, rfl⟩
  | i :: body, line, attrs => by
    obtain ⟨attrs', hattrs, hitem⟩ := collectBlockAttrs_item kind name attrs line i
      (bodyTokens (line + 1) body ++ ⟨.rbrace, [], last⟩ :: rest)
    rw [bodyTokens, List.append_assoc, hitem, List.foldl_cons, ← hattrs]
    exact collectBlockAttrs_body kind name last rest body (line + 1) attrs'

/-! ### Statements -/

/-- The statements that a printed one is read as: none for a blank line or a comment. -/
def Stmt.clauses : Stmt → List Clause
  | .blank | .comment _ _ => []
  | .config name values _ => [.config name.text (values.map fun v => ⟨v.kind, v.text, 0⟩)]
  | .set name value _ => [.set name.text value.text]
  | .root (.string q) _ => [.root q.text]
  | .root (.word _) _ => [.skipped]
  | .group name body _ => [.group name.text (body.foldl (addItem .group) [])]
  | .object name body _ => [.object name.text (body.foldl (addItem .object) [])]

/-- A statement starts with a word. -/
theorem kind_head_tokensFrom (line : ℕ) (ss : List Stmt) : (tokensFrom line ss).head?.map Token.kind ≠ some .semi := by
  induction ss generalizing line with
  | nil => rintro ⟨⟩
  | cons s ss ih =>
    cases s with
    | blank => exact ih _
    | comment semi note => exact ih _
    | config name values note => rintro ⟨⟩
    | set name value note => rintro ⟨⟩
    | root value note => rintro ⟨⟩
    | group name body semi => rintro ⟨⟩
    | object name body semi => rintro ⟨⟩

theorem dropKind_semi {rest : List Token} (h : rest.head?.map Token.kind ≠ some .semi) (semi : Bool) (line : ℕ) :
    dropKind .semi ((if semi then [⟨.semi, [], line⟩] else []) ++ rest) = rest := by
  cases semi with
  | true => rfl
  | false =>
    cases rest with
    | nil => rfl
    | cons t rest => exact if_neg fun hk => h (congrArg some hk)

section Block

variable {kind : BlockKind} {named : TokenKind → Bool} {name : Token} (hname : named name.kind = true) (line last : ℕ)
  (body : List Item) (semi : Bool) {rest : List Token}

/-- What follows the keyword of a block. -/
abbrev headless (name : Token) (line last : ℕ) (body : List Item) (semi : Bool) (rest : List Token) : List Token :=
  name :: ⟨.lbrace, [], line⟩ :: (bodyTokens (line + 1) body ++
    ⟨.rbrace, [], last⟩ :: ((if semi then [⟨.semi, [], last⟩] else []) ++ rest))

include hname in
theorem blockClause_headless : blockClause kind named (headless name line last body semi rest) =
    match kind with
    | .object => .object name.value (body.foldl (addItem .object) [])
    | .group => .group name.value (body.foldl (addItem .group) []) := by
  have hbody (kind : BlockKind) := (collectBlockAttrs_body kind [] last
    ((if semi then [⟨.semi, [], last⟩] else []) ++ rest) body (line + 1) []).1
  have hattrs (kind : BlockKind) : bodyAttrs kind (bodyTokens (line + 1) body ++
      ⟨.rbrace, [], last⟩ :: ((if semi then [⟨.semi, [], last⟩] else []) ++ rest)) = body.foldl (addItem kind) [] :=
    hbody kind
  refine (if_pos ⟨hname, rfl⟩).trans ?_
  cases kind with
  | object => exact congrArg (Clause.object name.value) (hattrs .object)
  | group => exact congrArg (Clause.group name.value) (hattrs .group)

include hname in
theorem afterBlock_headless (h : rest.head?.map Token.kind ≠ some .semi) :
    afterBlock named (headless name line last body semi rest) = rest := by
  have hrest : afterBody (bodyTokens (line + 1) body ++
      ⟨.rbrace, [], last⟩ :: ((if semi then [⟨.semi, [], last⟩] else []) ++ rest)) = rest := by
    have := (collectBlockAttrs_body .object [] last ((if semi then [⟨.semi, [], last⟩] else []) ++ rest) body
      (line + 1) []).2
    exact (congrArg Prod.snd this).trans (dropKind_semi h semi last)
  exact (if_pos hname).trans ((if_pos rfl).trans hrest)

end Block

/-! The branch that a keyword takes. -/

section Keyword

variable (line : ℕ) (ts : List Token)

theorem clause_config : clause ⟨.word, "config".toList, line⟩ ts = configClause (collectToSemi ts).1 := rfl

theorem clause_set : clause ⟨.word, "set".toList, line⟩ ts = setClause (collectToSemi ts).1 := rfl

theorem clause_root : clause ⟨.word, "root".toList, line⟩ ts = rootClause (collectToSemi ts).1 := rfl

theorem clause_object : clause ⟨.word, "object".toList, line⟩ ts = blockClause .object namesObject ts := rfl

theorem clause_group : clause ⟨.word, "group".toList, line⟩ ts = blockClause .group namesGroup ts := rfl

theorem after_row {w : Text} (hw : w = "config".toList ∨ w = "set".toList ∨ w = "root".toList) :
    after ⟨.word, w, line⟩ ts = (collectToSemi ts).2.2 := by
  rw [after, if_neg (not_not.mpr rfl), if_pos hw]

theorem after_object : after ⟨.word, "object".toList, line⟩ ts = afterBlock namesObject ts := rfl

theorem after_group : after ⟨.word, "group".toList, line⟩ ts = afterBlock namesGroup ts := rfl

end Keyword

/-- **One statement.** -/
theorem clauses_stmt (s : Stmt) (line : ℕ) {rest : List Token} (h : rest.head?.map Token.kind ≠ some .semi) :
    clauses (s.tokens line ++ rest) = s.clauses ++ clauses rest := by
  -- a row of words that a `;` ends
  have hrow (w : Text) (hw : IsWord w) (ps : List Lexeme) : rowTokens line (keyword w hw :: ps) ++ [⟨.semi, [], line⟩] ++ rest
      = ⟨.word, w, line⟩ :: (rowTokens line ps ++ ⟨.semi, [], line⟩ :: rest) := by
    rw [List.append_assoc]
    rfl
  have hblock (w : Text) (hw : IsWord w) (name : Value) (body : List Item) (semi : Bool) :
      blockTokens line [keyword w hw, .value name] body semi ++ rest =
        ⟨.word, w, line⟩ :: headless ⟨name.kind, name.text, line⟩ line (line + 1 + body.length) body semi rest := by
    rw [blockTokens]
    simp only [List.append_assoc, List.cons_append]
    rfl
  cases s with
  | blank => rfl
  | comment semi note => rfl
  | config name values note =>
    rw [Stmt.tokens, configRow, hrow, clauses, after_row _ _ (.inl rfl), clause_config, collectToSemi_rowTokens]
    refine congrArg (· :: clauses rest) ?_
    simp only [rowTokens, List.map_cons, configClause, List.map_map]
    rfl
  | set name value note =>
    rw [Stmt.tokens, setRow, hrow, clauses, after_row _ _ (.inr (.inl rfl)), clause_set, collectToSemi_rowTokens]
    cases value <;> rfl
  | root value note =>
    rw [Stmt.tokens, rootRow, hrow, clauses, after_row _ _ (.inr (.inr rfl)), clause_root, collectToSemi_rowTokens]
    cases value <;> rfl
  | group name body semi =>
    have hname : namesGroup name.kind = true := by cases name <;> rfl
    rw [Stmt.tokens, groupRow, hblock, clauses, after_group, clause_group, afterBlock_headless hname _ _ _ _ h,
      blockClause_headless hname]
    rfl
  | object name body semi =>
    have hname : namesObject (Value.word name).kind = true := rfl
    rw [Stmt.tokens, objectRow, hblock _ _ (.word name), clauses, after_object, clause_object,
      afterBlock_headless hname _ _ _ _ h, blockClause_headless hname]
    rfl

/-- **A printed file is read back**, statement by statement. -/
theorem clauses_tokensFrom (line : ℕ) (ss : List Stmt) : clauses (tokensFrom line ss) = ss.flatMap Stmt.clauses := by
  induction ss generalizing line with
  | nil => rw [tokensFrom, clauses]; rfl
  | cons s ss ih =>
    rw [tokensFrom, clauses_stmt s line (kind_head_tokensFrom _ ss), ih]
    rfl

end Psysmon.Modern
