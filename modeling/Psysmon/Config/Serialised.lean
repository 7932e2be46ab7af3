import Psysmon.Config.Convert
import Psysmon.Config.Grammar

/-!
# Psysmon.Config.Serialised — the converter's output as a printed file

The lines of the serializer are those of a list of statements: three comments, the `config` statements and an `object`
block for every node, in the order of the walk.

* `assign_fresh`, `nodup_walk`: no two objects have the same name.
* `parents_walk`: an object's `dep` is the name of its node's parent.
* `joined_serialized`: the text that is written.
-/

namespace Psysmon.Convert

open Lib Text Number Modern

/-! ### Words -/

theorem word_of_numChars : ∀ c ∈ numChars, special c = false ∧ isSpace c = false := by
  have h : numChars.all (fun c => !special c && !isSpace c) = true := by decide
  intro c hc
  simpa using List.all_eq_true.mp h c hc

theorem isWord_of_numChars {t : Text} (hne : t ≠ []) (h : ∀ c ∈ t, c ∈ numChars) : IsWord t :=
  ⟨hne, fun c hc => word_of_numChars c (h c hc)⟩

theorem isWord_intText (z : ℤ) : IsWord (intText z) := isWord_of_numChars (intText_ne_nil z) mem_intText

theorem isWord_fmtNum {q : ℚ} (hq : 0 < q) (h : Binary64.IsDouble q) : IsWord (fmtNum (.finite q)) := by
  obtain ⟨hne, hmem⟩ := mem_reprPos hq h
  unfold fmtNum
  dsimp only
  split
  · exact isWord_intText _
  · rw [Number.repr, if_neg hq.not_gt]
    exact isWord_of_numChars hne hmem

/-! ### Names -/

theorem numbered_injective (base : Text) : Function.Injective (numbered base) := fun m n h => by
  have := List.append_cancel_left h
  exact natText_injective (List.cons.inj this).2

theorem firstFree_mem {used : List Text} {base : Text} {fuel n : ℕ} (h : firstFree used base fuel n ∈ used) :
    ∀ k ≤ fuel, numbered base (n + k) ∈ used := by
  induction fuel generalizing n with
  | zero =>
    intro k hk
    obtain rfl := Nat.le_zero.mp hk
    exact h
  | succ fuel ih =>
    rw [firstFree] at h
    split at h
    · rename_i hn
      intro k hk
      cases k with
      | zero => exact hn
      | succ k =>
        have := ih h k (by omega)
        rwa [show n + (k + 1) = n + 1 + k by omega]
    · exact absurd h ‹_›

theorem firstFree_eq (used : List Text) (base : Text) (fuel n : ℕ) : ∃ m, firstFree used base fuel n = numbered base m := by
  induction fuel generalizing n with
  | zero => exact ⟨n, rfl⟩
  | succ fuel ih =>
    rw [firstFree]
    split
    · exact ih (n + 1)
    · exact ⟨n, rfl⟩

/-- **A new name is not in use**: among the first `used.length + 1` alternatives one is free. -/
theorem assign_fresh (used : List Text) (node : Node) : assign used node ∉ used := by
  unfold assign
  dsimp only
  split
  · intro h
    have hnodup : ((List.range (used.length + 1)).map fun k => numbered (baseName node.hostname) (2 + k)).Nodup :=
      List.nodup_range.map fun a b hab => Nat.add_left_cancel (numbered_injective _ hab)
    have hsub : ((List.range (used.length + 1)).map fun k => numbered (baseName node.hostname) (2 + k)) ⊆ used := by
      intro t ht
      obtain ⟨k, hk, rfl⟩ := List.mem_map.mp ht
      exact firstFree_mem h k (Nat.lt_succ_iff.mp (List.mem_range.mp hk))
    have hlen := (List.subperm_of_subset hnodup hsub).length_le
    rw [List.length_map, List.length_range] at hlen
    omega
  · assumption

theorem isWord_baseName (hostname : Text) : IsWord (baseName hostname) := by
  unfold baseName
  dsimp only
  split
  · decide
  · rename_i hne
    refine ⟨hne, fun c hc => ?_⟩
    obtain ⟨d, -, rfl⟩ := List.mem_map.mp hc
    split
    · decide
    · rename_i hd
      simpa [nameBad] using hd

theorem isWord_numbered {base : Text} (h : IsWord base) (n : ℕ) : IsWord (numbered base n) := by
  refine ⟨List.append_ne_nil_of_left_ne_nil h.1 _, fun c hc => ?_⟩
  rcases List.mem_append.mp hc with hc | hc
  · exact h.2 c hc
  · rcases List.mem_cons.mp hc with rfl | hc
    · decide
    · exact word_of_numChars c (mem_natText c hc)

theorem isWord_assign (used : List Text) (node : Node) : IsWord (assign used node) := by
  unfold assign
  dsimp only
  split
  · obtain ⟨m, hm⟩ := firstFree_eq used (baseName node.hostname) used.length 2
    rw [hm]
    exact isWord_numbered (isWord_baseName _) m
  · exact isWord_baseName _

/-! ### The walk -/

theorem nodes_walk (parent : Option Text) (t : Siblings) (used : List Text) :
    (walk parent t used).1.map Placed.node = t.nodes := by
  induction t generalizing parent used with
  | nil => rfl
  | cons n c r ihc ihr => simp [walk, Siblings.nodes, ihc, ihr]

theorem length_walk (parent : Option Text) (t : Siblings) (used : List Text) : (walk parent t used).1.length = t.size := by
  rw [← Siblings.length_nodes, ← nodes_walk parent t used, List.length_map]

/-- The names in use after the walk. -/
theorem used_walk (parent : Option Text) (t : Siblings) (used : List Text) :
    (walk parent t used).2 = ((walk parent t used).1.map Placed.name).reverse ++ used := by
  induction t generalizing parent used with
  | nil => rfl
  | cons n c r ihc ihr =>
    rw [walk]
    dsimp only
    rw [ihr, ihc]
    simp

theorem nodup_used_walk (parent : Option Text) (t : Siblings) {used : List Text} (h : used.Nodup) :
    (walk parent t used).2.Nodup := by
  induction t generalizing parent used with
  | nil => exact h
  | cons n c r ihc ihr => exact ihr _ (ihc _ (List.nodup_cons.mpr ⟨assign_fresh used n, h⟩))

/-- **The names of the objects are distinct.** -/
theorem nodup_walk (parent : Option Text) (t : Siblings) : ((walk parent t []).1.map Placed.name).Nodup := by
  have h := nodup_used_walk parent t List.nodup_nil
  rw [used_walk, List.append_nil] at h
  exact List.nodup_reverse.mp h

theorem isWord_walk {parent : Option Text} {t : Siblings} {used : List Text} {p : Placed}
    (h : p ∈ (walk parent t used).1) : IsWord p.name := by
  induction t generalizing parent used with
  | nil => cases h
  | cons n c r ihc ihr =>
    rcases List.mem_cons.mp h with rfl | h
    · exact isWord_assign used n
    · rcases List.mem_append.mp h with h | h
      · exact ihc h
      · exact ihr h

theorem isWord_parent_walk {parent : Option Text} (hparent : ∀ name, parent = some name → IsWord name) {t : Siblings}
    {used : List Text} {p : Placed} (h : p ∈ (walk parent t used).1) : ∀ name, p.parent = some name → IsWord name := by
  induction t generalizing parent used with
  | nil => cases h
  | cons n c r ihc ihr =>
    rcases List.mem_cons.mp h with rfl | h
    · exact hparent
    · rcases List.mem_append.mp h with h | h
      · exact ihc (fun name hname => Option.some.inj hname ▸ isWord_assign used n) h
      · exact ihr hparent h

/-- **The parent named by an object is its node's parent.**  The nodes are numbered from `b` on, `p` is the number of the
siblings' own parent, and `nameOf` gives the names. -/
theorem parents_walk {nameOf : ℕ → Text} {parent : Option Text} {p : Option ℕ} (hp : parent = p.map nameOf) (t : Siblings)
    (used : List Text) (b : ℕ) (hnames : ∀ i x, (walk parent t used).1[i]? = some x → x.name = nameOf (b + i)) :
    (walk parent t used).1.map (fun x => (x.node, x.parent)) =
      (t.parents p b).map fun y => (y.1, y.2.map nameOf) := by
  induction t generalizing parent p used b with
  | nil => rfl
  | cons n c r ihc ihr =>
    rw [walk] at hnames ⊢
    dsimp only at hnames ⊢
    generalize hw : walk (some (assign used n)) c (assign used n :: used) = below at hnames ⊢
    generalize hr : walk parent r below.2 = after at hnames ⊢
    have hlen : below.1.length = c.size := by rw [← hw, length_walk]
    have hname : assign used n = nameOf b := hnames 0 _ rfl
    have hp' : some (assign used n) = (some b).map nameOf := congrArg some hname
    have hc := ihc hp' (assign used n :: used) (b + 1) fun i x hx => by
      rw [hw] at hx
      rw [hnames (i + 1) x (List.getElem?_append_left (List.getElem?_eq_some_iff.mp hx).1 ▸ hx)]
      congr 1
      omega
    have ha := ihr hp below.2 (b + 1 + c.size) fun i x hx => by
      rw [hr] at hx
      rw [hnames (i + c.size + 1) x (by
        rw [List.getElem?_cons_succ, List.getElem?_append_right (by omega), hlen, Nat.add_sub_cancel]
        exact hx)]
      congr 1
      omega
    rw [hw] at hc
    rw [hr] at ha
    rw [Siblings.parents, List.map_cons, List.map_cons, List.map_append, List.map_append, hc, ha, hp]

/-! ### Statements -/

/-- A word, if the text is one. -/
def wordOf (t : Text) : Word := if h : IsWord t then ⟨t, h⟩ else ⟨['?'], by decide⟩

theorem text_wordOf {t : Text} (h : IsWord t) : (wordOf t).text = t := by
  rw [wordOf, dif_pos h]

theorem quote_ok (value : Text) : '"' ∉ quote value ∧ '\n' ∉ quote value := by
  unfold quote
  split
  · constructor
    · intro hmem
      obtain ⟨c, hc, heq⟩ := List.mem_map.mp hmem
      split at heq
      · cases heq
      · subst heq
        simpa using (List.mem_filter.mp hc).2
    · intro hmem
      obtain ⟨c, -, heq⟩ := List.mem_map.mp hmem
      split at heq
      · cases heq
      · rename_i hc
        exact hc (.inl heq)
  · rename_i h
    exact ⟨fun hq => h (.inl hq), fun hn => h (.inr (.inl hn))⟩

/-- A value of the grammar. -/
def Piece.value : Piece → Value
  | .quoted value => .string ⟨quote value, (quote_ok value).1, (quote_ok value).2⟩
  | .int z => .word ⟨intText z, isWord_intText z⟩
  | .word t => .word (wordOf t)

/-- What is written as a bareword is one. -/
def Piece.WellFormed : Piece → Prop
  | .word t => IsWord t
  | _ => True

theorem Piece.print_value {v : Piece} (h : v.WellFormed) : v.value.print = v.text := by
  cases v with
  | quoted value => rfl
  | int z => rfl
  | word t => exact text_wordOf h

def Directive.WellFormed (d : Directive) : Prop := IsWord d.name ∧ ∀ v ∈ d.values, v.WellFormed

def Directive.stmt (d : Directive) : Stmt := .config (wordOf d.name) (d.values.map Piece.value) none

def Row.WellFormed (r : Row) : Prop := IsWord r.key ∧ ∀ v, r.value = some v → v.WellFormed

def Row.item (r : Row) : Option Item := r.value.map fun v => .attr (wordOf r.key) false v.value none

/-- The block of an object. -/
def Placed.stmt (seed : ℤ) (p : Placed) : Stmt := .object (wordOf p.name) ((attrs seed p).filterMap Row.item) true

/-- The comments at the head of the file. -/
def headerNotes (seed : ℤ) : List Note :=
  [⟨" Converted from a legacy sysmon.conf by psysmon.config.convert (#3).".toList, by decide⟩,
    ⟨" Per-object 'numfailures' is emitted only where it differs from the assumed".toList, by decide⟩,
    ⟨" default of ".toList ++ intText seed ++ "; '\x7b\x7d' nesting becomes named 'dep' edges.".toList, by
      have hint : '\n' ∉ intText seed := fun h => by
        have := (word_of_numChars _ (mem_intText _ h)).2
        simp [isSpace, inRanges] at this
      simp only [List.mem_append, not_or]
      exact ⟨⟨by decide, hint⟩, by decide⟩⟩]

/-- The statements of the output. -/
def stmts (seed : ℤ) (result : ParseResult Siblings) : List Stmt :=
  (headerNotes seed).map (.comment false) ++
    (if directives result.overrides = [] then [] else .blank :: (directives result.overrides).map Directive.stmt) ++
    (walk none result.roots []).1.flatMap fun p => [.blank, p.stmt seed]

/-! ### The text -/

/-- Lines, each with its end. -/
def unlines (ls : List Text) : Text := ls.flatMap (· ++ ['\n'])

theorem unlines_append (a b : List Text) : unlines (a ++ b) = unlines a ++ unlines b := List.flatMap_append

theorem printAll_append (a b : List Stmt) : printAll (a ++ b) = printAll a ++ printAll b := List.flatMap_append

theorem intercalate_concat (sep : Text) : ∀ (ls : List Text) (l : Text),
    sep.intercalate (ls ++ [l]) = ls.flatMap (· ++ sep) ++ l
  | [], l => by simp [List.intercalate]
  | x :: ls, l => by
    obtain ⟨y, ys, hy⟩ := List.exists_cons_of_ne_nil (List.append_ne_nil_of_right_ne_nil ls (List.cons_ne_nil l []))
    have ih := intercalate_concat sep ls l
    rw [List.cons_append, hy, List.flatMap_cons, List.append_assoc, ← ih, hy]
    simp [List.intercalate]

/-- A last line that is empty is dropped. -/
theorem joined_concat (ls : List Text) (t : Text) {c : Char} (hc : c ≠ '\n') :
    joined (ls ++ [t ++ [c], []]) = unlines (ls ++ [t ++ [c]]) := by
  have hsplit : ls ++ [t ++ [c], []] = (ls ++ [t ++ [c]]) ++ [[]] := by simp
  rw [joined, hsplit, intercalate_concat, List.append_nil, List.flatMap_append, unlines, List.flatMap_append]
  have hlast : [t ++ [c]].flatMap (· ++ ['\n']) = t ++ [c] ++ ['\n'] := by simp
  rw [hlast, ← List.append_assoc, List.rdropWhile_concat_pos _ _ _ (by simp), ← List.append_assoc,
    List.rdropWhile_concat_neg _ _ _ (by simpa using hc)]

theorem Directive.print_stmt {d : Directive} (h : d.WellFormed) : d.stmt.print = d.line ++ ['\n'] := by
  have hmap : ((.value (.word (wordOf d.name)) :: (d.values.map Piece.value).map Lexeme.value : List Lexeme)).map
      Lexeme.print = d.name :: d.values.map Piece.text := by
    rw [List.map_cons, List.map_map, List.map_map]
    exact congrArg₂ List.cons (text_wordOf h.1) (List.map_congr_left fun v hv => Piece.print_value (h.2 v hv))
  have hrow : d.stmt.print = "config".toList ++ ' ' :: joinSpaces (d.name :: d.values.map Piece.text) ++ [';', '\n'] := by
    rw [← hmap, Directive.stmt, Stmt.print, configRow, printRow_cons]
    rfl
  unfold Directive.line
  rw [hrow]
  simp

/-- Empty lines between the objects: after each of them, or before. -/
theorem blank_flatMap {α : Type} (f : α → List Text) (l : List α) :
    [] :: l.flatMap (fun x => f x ++ [[]]) = l.flatMap (fun x => [] :: f x) ++ [[]] := by
  induction l with
  | nil => rfl
  | cons x l ih => rw [List.flatMap_cons, List.flatMap_cons, List.append_assoc, List.singleton_append, ih]; simp

variable [Python]

theorem Row.print_item {r : Row} (h : r.WellFormed) : r.item.toList.flatMap Item.print = unlines r.out.lines := by
  unfold Row.item Row.out
  cases hv : r.value with
  | none => rfl
  | some v =>
    have hprint : (Lexeme.value v.value).print = v.text := Piece.print_value (h.2 v hv)
    have hkey : (Lexeme.value (.word (wordOf r.key))).print = r.key := text_wordOf h.1
    simp [Item.print, attrRow, printRow_cons, printRow_singleton, hprint, hkey, unlines, printEnd]

/-- The lines of an object, without the blank one after it. -/
def objectLines (seed : ℤ) (p : Placed) : List Text :=
  ("object ".toList ++ p.name ++ " \x7b".toList) :: (attrs seed p).flatMap (fun r => r.out.lines) ++ ["\x7d;".toList]

theorem lines_emitObject (seed : ℤ) (p : Placed) : (emitObject seed p).lines = objectLines seed p ++ [[]] := by
  simp [emitObject, Out.concat, objectLines, Out.line, List.flatMap_map]

theorem Placed.print_stmt {seed : ℤ} {p : Placed} (hname : IsWord p.name) (h : ∀ r ∈ attrs seed p, r.WellFormed) :
    (p.stmt seed).print = unlines (objectLines seed p) := by
  have hbody : ((attrs seed p).filterMap Row.item).flatMap Item.print =
      unlines ((attrs seed p).flatMap fun r => r.out.lines) := by
    rw [List.filterMap_eq_flatMap_toList, List.flatMap_assoc, unlines, List.flatMap_assoc]
    exact List.flatMap_congr fun r hr => Row.print_item (h r hr)
  have hkey : (Lexeme.value (.word (wordOf p.name))).print = p.name := text_wordOf hname
  have hline (rows : Text) : "object".toList ++ ' ' :: p.name ++ [' ', '\x7b', '\n'] ++ rows ++ "\x7d;\n".toList =
      "object ".toList ++ p.name ++ " \x7b".toList ++ ['\n'] ++ rows ++ ("\x7d;".toList ++ ['\n'] ++ []) := by
    simp
  rw [Placed.stmt, Stmt.print, printBlock, objectRow, printRow_cons, printRow_singleton, hkey, hbody, objectLines,
    unlines_append]
  exact hline _

/-- What `_emit_globals` writes. -/
theorem lines_emitGlobals (o : Overrides) : (emitGlobals o).lines = (directives o).map Directive.line := by
  have hwarn (fs : List Field) (message : Field → Text) : (fs.map fun f => Out.warn (message f)).flatMap Out.lines = [] := by
    simp [List.flatMap_map, Out.warn]
  unfold emitGlobals Out.concat
  dsimp only
  rw [List.flatMap_append, hwarn, List.append_nil, List.flatMap_map, List.map_eq_flatMap]
  rfl

/-- The lines of the output, before the last one is dropped. -/
theorem lines_serialized (seed : ℤ) (result : ParseResult Siblings) : (serialized seed result).lines =
    (headerNotes seed).map Note.print ++
      (if directives result.overrides = [] then [] else [] :: (directives result.overrides).map Directive.line) ++
      [] :: (walk none result.roots []).1.flatMap fun p => objectLines seed p ++ [[]] := by
  have hobjects (ps : List Placed) : (ps.map (emitObject seed)).flatMap Out.lines =
      ps.flatMap fun p => objectLines seed p ++ [[]] := by
    rw [List.flatMap_map]
    exact List.flatMap_congr fun p _ => lines_emitObject seed p
  have hheader : (header seed).lines = (headerNotes seed).map Note.print ++ [[]] := rfl
  have hglobals : (Out.concat [header seed, emitGlobals result.overrides]).lines =
      (headerNotes seed).map Note.print ++ [[]] ++ (directives result.overrides).map Directive.line := by
    rw [Out.concat, List.flatMap_cons, List.flatMap_singleton, hheader, lines_emitGlobals]
  have hne (d : Directive) : d.line ≠ [] :=
    List.append_ne_nil_of_right_ne_nil _ (List.cons_ne_nil _ _)
  unfold serialized
  dsimp only
  generalize hg : Out.concat [header seed, emitGlobals result.overrides] = globals at hglobals
  generalize hobj : Out.concat ((walk none result.roots []).1.map (emitObject seed)) = objects
  have hobj' : objects.lines = (walk none result.roots []).1.flatMap fun p => objectLines seed p ++ [[]] := by
    rw [← hobj, Out.concat, hobjects]
  have hobjectless (c : Prop) [Decidable c] (message : Text) : (if c then Out.warn message else {}).lines = [] := by
    split <;> rfl
  have hconcat (a b c : Out) : (Out.concat [a, b, c]).lines = a.lines ++ b.lines ++ c.lines := by
    simp [Out.concat]
  have hconcat' (a b : Out) : (Out.concat [a, b]).lines = a.lines ++ b.lines := by
    simp [Out.concat]
  rw [hconcat', hobjectless, List.append_nil, hconcat, hobj', hglobals]
  -- a blank line follows the globals, unless the one of the header does already
  rcases List.eq_nil_or_concat' (directives result.overrides) with hds | ⟨ds, d, hds⟩
  · rw [hds, List.map_nil, List.append_nil, if_neg (by simp), if_pos rfl]
    simp
  · have hlast : ((headerNotes seed).map Note.print ++ [[]] ++ (ds ++ [d]).map Directive.line).getLast? ≠ some [] := by
      rw [List.map_append, ← List.append_assoc, List.map_singleton, List.getLast?_concat]
      exact fun h => hne d (Option.some.inj h)
    rw [hds, if_pos hlast, if_neg (by simp)]
    simp [Out.line]

/-- **The text is that of the statements.** -/
theorem joined_serialized {seed : ℤ} {result : ParseResult Siblings} (hroots : result.roots ≠ .nil)
    (hds : ∀ d ∈ directives result.overrides, d.WellFormed)
    (hps : ∀ p ∈ (walk none result.roots []).1, ∀ r ∈ attrs seed p, r.WellFormed) :
    joined (serialized seed result).lines = printAll (stmts seed result) := by
  generalize hps' : (walk none result.roots []).1 = ps at hps
  have hname : ∀ p ∈ ps, IsWord p.name := fun p hp => isWord_walk (hps' ▸ hp)
  have hne : ps ≠ [] := by
    rintro rfl
    have hlen := length_walk none result.roots []
    rw [hps'] at hlen
    cases ht : result.roots with
    | nil => exact hroots ht
    | cons n c r =>
      rw [ht, Siblings.size, List.length_nil] at hlen
      omega
  obtain ⟨qs, p, rfl⟩ := List.eq_nil_or_concat' ps |>.resolve_left hne
  -- the last line that is kept closes the last object
  have hjoin (before : List Text) : joined (before ++ [] :: (qs ++ [p]).flatMap fun p => objectLines seed p ++ [[]]) =
      unlines (before ++ (qs ++ [p]).flatMap fun p => [] :: objectLines seed p) := by
    obtain ⟨ls, hls⟩ : ∃ ls, before ++ (qs ++ [p]).flatMap (fun p => [] :: objectLines seed p) = ls ++ [['\x7d'] ++ [';']] := by
      refine ⟨before ++ qs.flatMap (fun p => [] :: objectLines seed p) ++ [] :: (("object ".toList ++ p.name ++
        " \x7b".toList) :: (attrs seed p).flatMap (fun r => r.out.lines)), ?_⟩
      rw [List.flatMap_append, List.flatMap_singleton, objectLines]
      simp only [List.append_assoc, List.cons_append]
      rfl
    rw [blank_flatMap, ← List.append_assoc, hls, List.append_assoc]
    exact joined_concat ls ['\x7d'] (by decide)
  have hcomments : printAll ((headerNotes seed).map (.comment false)) = unlines ((headerNotes seed).map Note.print) := by
    rw [printAll, unlines, List.flatMap_map, List.flatMap_map]
    rfl
  have hdirectives (ds : List Directive) (h : ∀ d ∈ ds, d.WellFormed) :
      printAll (if ds = [] then [] else .blank :: ds.map Directive.stmt) =
        unlines (if ds = [] then [] else [] :: ds.map Directive.line) := by
    split
    · rfl
    · change ['\n'] ++ printAll (ds.map Directive.stmt) = ['\n'] ++ unlines (ds.map Directive.line)
      rw [printAll, unlines, List.flatMap_map, List.flatMap_map]
      exact congrArg _ (List.flatMap_congr fun d hd => Directive.print_stmt (h d hd))
  have hobjects : printAll ((qs ++ [p]).flatMap fun p => [.blank, p.stmt seed]) =
      unlines ((qs ++ [p]).flatMap fun p => [] :: objectLines seed p) := by
    rw [printAll, unlines, List.flatMap_assoc, List.flatMap_assoc]
    refine List.flatMap_congr fun q hq => ?_
    have := Placed.print_stmt (hname q hq) (hps q hq)
    rw [List.flatMap_cons, List.flatMap_singleton, List.flatMap_cons, this]
    rfl
  rw [lines_serialized, hps', hjoin, stmts, hps', printAll_append, printAll_append, hcomments, hdirectives _ hds,
    hobjects, unlines_append, unlines_append]

end Psysmon.Convert
