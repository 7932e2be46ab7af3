import Psysmon.Config.Serialised

/-!
# Psysmon.Config.ConvertNames — the names that the converter gives (`config/convert.py`, `_assign`)

Every node of the forest is given a name in turn: its hostname without the characters that a bareword cannot hold, or that
with a number behind it, the first that is not in use.

* `assigning_assign`: the loop ends, with the name of the model.
* `nodup_assignAll`: the names of a sequence of nodes.
* `tokenize_header`, `tokenize_dep`: the two places where a name is written.
* `parent_walk_iff`: the name in a `dep` edge.
-/

namespace Psysmon.Convert

open Lib Text Number Modern

/-! ### The loop -/

/-- The loop of `_assign` at `name, n` ends with the name `r`. -/
inductive Assigning (used : List Text) (base : Text) : Text → ℕ → Text → Prop
  | done {name : Text} {n : ℕ} (h : name ∉ used) : Assigning used base name n name
  | next {name r : Text} {n : ℕ} (h : name ∈ used) (h' : Assigning used base (numbered base n) (n + 1) r) :
    Assigning used base name n r

theorem Assigning.unique {used : List Text} {base name r r' : Text} {n : ℕ} (h : Assigning used base name n r)
    (h' : Assigning used base name n r') : r = r' := by
  induction h with
  | done hfree =>
    cases h' with
    | done => rfl
    | next hused => exact absurd hused hfree
  | next hused _ ih =>
    cases h' with
    | done hfree => exact absurd hused hfree
    | next _ h' => exact ih h'

theorem assigning_firstFree {used : List Text} {base : Text} (fuel n : ℕ) (h : firstFree used base fuel n ∉ used) :
    Assigning used base (numbered base n) (n + 1) (firstFree used base fuel n) := by
  induction fuel generalizing n with
  | zero => exact .done h
  | succ fuel ih =>
    by_cases hused : numbered base n ∈ used
    · rw [firstFree, if_pos hused] at h ⊢
      exact .next hused (ih (n + 1) h)
    · rw [firstFree, if_neg hused]
      exact .done hused

/-- **`_assign` ends**, with the name of the model. -/
theorem assigning_assign (used : List Text) (node : Node) :
    Assigning used (baseName node.hostname) (baseName node.hostname) 2 (assign used node) := by
  have hfresh := assign_fresh used node
  unfold assign at hfresh ⊢
  dsimp only at hfresh ⊢
  by_cases hused : baseName node.hostname ∈ used
  · rw [if_pos hused] at hfresh ⊢
    exact .next hused (assigning_firstFree _ _ hfresh)
  · rw [if_neg hused]
    exact .done hused

/-! ### A sequence of nodes -/

/-- The names of a sequence of nodes. -/
def assignAll : List Text → List Node → List Text
  | _, [] => []
  | used, node :: nodes => assign used node :: assignAll (assign used node :: used) nodes

theorem assignAll_append (used : List Text) (a b : List Node) :
    assignAll used (a ++ b) = assignAll used a ++ assignAll ((assignAll used a).reverse ++ used) b := by
  induction a generalizing used with
  | nil => rfl
  | cons node a ih => simp [assignAll, ih]

theorem nodup_assignAll {used : List Text} (h : used.Nodup) (nodes : List Node) :
    ((assignAll used nodes).reverse ++ used).Nodup := by
  induction nodes generalizing used with
  | nil => exact h
  | cons node nodes ih =>
    have := ih (List.nodup_cons.mpr ⟨assign_fresh used node, h⟩)
    rw [assignAll, List.reverse_cons, List.append_assoc]
    exact this

theorem isWord_assignAll {used : List Text} {nodes : List Node} {name : Text} (h : name ∈ assignAll used nodes) :
    IsWord name := by
  induction nodes generalizing used with
  | nil => cases h
  | cons node nodes ih =>
    rcases List.mem_cons.mp h with rfl | h
    · exact isWord_assign used node
    · exact ih h

/-- The walk names the nodes in order. -/
theorem names_walk (parent : Option Text) (t : Siblings) (used : List Text) :
    (walk parent t used).1.map Placed.name = assignAll used t.nodes := by
  induction t generalizing parent used with
  | nil => rfl
  | cons n c r ihc ihr =>
    rw [walk, Siblings.nodes, assignAll, List.map_cons, List.map_append, assignAll_append, ← ihc (some (assign used n)), ihr,
      used_walk]

/-! ### Where a name is written -/

/-- The first line of an object. -/
theorem tokenize_header {name : Text} (h : IsWord name) : tokenize ("object ".toList ++ name ++ " \x7b".toList) =
    .ok [⟨.word, "object".toList, 1⟩, ⟨.word, name, 1⟩, ⟨.lbrace, [], 1⟩] := by
  have hspace : isSpace ' ' = true := by decide
  have hobject : IsWord "object".toList := by decide
  have hfirst := hobject.isLexeme true (.inr hspace) (rfl : lexPlain ' ' 1 false = _)
  have hname := h.isLexeme false (.inr hspace) (rfl : lexPlain ' ' 1 false = _)
  have hbrace : Lexes (plain 1 false) ['\x7b'] [⟨.lbrace, [], 1⟩] (plain 1 true) := .char rfl
  have htext : "object ".toList ++ name ++ " \x7b".toList = "object".toList ++ [' '] ++ (name ++ [' ']) ++ ['\x7b'] := by
    simp
  rw [htext]
  exact ((hfirst.append hname).append hbrace).tokenize

/-- A name can be written in quotes. -/
theorem quote_of_isWord {name : Text} (h : IsWord name) : quote name = name := by
  have hne (c : Char) (hc : special c = true ∨ isSpace c = true) : c ∉ name := by
    intro hmem
    obtain ⟨hs, hw⟩ := h.2 c hmem
    rcases hc with hc | hc
    · rw [hs] at hc; cases hc
    · rw [hw] at hc; cases hc
  refine if_neg ?_
  rintro (hq | hn | hr)
  · exact hne _ (.inl (by decide)) hq
  · exact hne _ (.inr (by decide)) hn
  · exact hne _ (.inr (by decide)) hr

/-- The line of an edge. -/
theorem tokenize_dep {name : Text} (h : IsWord name) : tokenize ("  dep ".toList ++ (Piece.quoted name).text ++ [';']) =
    .ok [⟨.word, "dep".toList, 1⟩, ⟨.string, name, 1⟩, ⟨.semi, [], 1⟩] := by
  have hspace : isSpace ' ' = true := by decide
  have hdep : IsWord "dep".toList := by decide
  have hindent : Lexes (plain 1 true) "  ".toList [] (plain 1 true) := .skip rfl (.char rfl)
  have hkey := hdep.isLexeme true (.inr hspace) (rfl : lexPlain ' ' 1 false = _)
  have hvalue := Quoted.isLexeme ⟨quote name, (quote_ok name).1, (quote_ok name).2⟩ false
    (.inl (by decide : special ';' = true)) (rfl : lexPlain ';' 1 false = _)
  have htext : "  dep ".toList ++ (Piece.quoted name).text ++ [';'] =
      "  ".toList ++ ("dep".toList ++ [' ']) ++ ('"' :: quote name ++ ['"'] ++ [';']) := by
    simp [Piece.text]
  rw [htext, ((hindent.append hkey).append hvalue).tokenize]
  have htokens (v : Text) (hv : v = name) :
      (.ok [⟨.word, "dep".toList, 1⟩, ⟨.string, v, 1⟩, ⟨.semi, [], 1⟩] : Except Failure (List Token)) =
        .ok [⟨.word, "dep".toList, 1⟩, ⟨.string, name, 1⟩, ⟨.semi, [], 1⟩] := by
    rw [hv]
  exact htokens _ (quote_of_isWord h)

/-! ### The edges -/

/-- The number of the parent of node `i`. -/
def parentOf (t : Siblings) (i : ℕ) : Option ℕ := ((t.parents none 0)[i]?).bind Prod.snd

/-- The parent of a node is written by its name. -/
theorem parent_walk {t : Siblings} {i : ℕ} {p : Placed} (hp : (walk none t []).1[i]? = some p) :
    p.parent = (parentOf t i).map fun j => (((walk none t []).1[j]?).map Placed.name).getD [] := by
  have hnone : (none : Option Text) =
      (none : Option ℕ).map fun j => (((walk none t []).1[j]?).map Placed.name).getD [] := rfl
  have hrows := parents_walk hnone t [] 0 fun i x hx => by
    rw [Nat.zero_add, hx]
    rfl
  have hi := congrArg (·[i]?) hrows
  simp only [List.getElem?_map, hp, Option.map_some] at hi
  obtain ⟨x, hx, heq⟩ := Option.map_eq_some_iff.mp hi.symm
  rw [parentOf, hx]
  exact (Prod.mk.inj heq).2.symm

theorem parentOf_lt {t : Siblings} {i j : ℕ} (h : parentOf t i = some j) : j < t.size := by
  obtain ⟨x, hx, hj⟩ := Option.bind_eq_some_iff.mp h
  rcases Siblings.parents_bounds (List.mem_of_getElem? hx) with hn | ⟨q, hq, -, hlt⟩
  · rw [hn] at hj
    cases hj
  · rw [hq] at hj
    obtain rfl := Option.some.inj hj
    omega

/-- **An edge names the parent**, and no other object. -/
theorem parent_walk_iff {t : Siblings} {i j : ℕ} {p q : Placed} (hp : (walk none t []).1[i]? = some p)
    (hq : (walk none t []).1[j]? = some q) : p.parent = some q.name ↔ parentOf t i = some j := by
  have hparent := parent_walk hp
  have hnodup := nodup_walk none t
  cases hk : parentOf t i with
  | none => simp [hparent, hk]
  | some k =>
    have hlt : k < (walk none t []).1.length := length_walk none t [] ▸ parentOf_lt hk
    rw [hk, Option.map_some, List.getElem?_eq_getElem hlt] at hparent
    rw [hparent, Option.some.injEq, Option.some.injEq, Option.map_some, Option.getD_some]
    constructor
    · intro hname
      have hname' : ((walk none t []).1.map Placed.name)[k]? = ((walk none t []).1.map Placed.name)[j]? := by
        rw [List.getElem?_map, List.getElem?_map, List.getElem?_eq_getElem hlt, hq, Option.map_some, Option.map_some, hname]
      exact (List.getElem?_inj (by simpa using hlt) hnodup).mp hname'
    · rintro rfl
      rw [List.getElem?_eq_getElem hlt] at hq
      rw [Option.some.inj hq]

/-- **The names of the converter.**  The loop of `_assign` ends; the names are different, not empty and read back where they
are written; and a node has the edge to its parent, if it has one, and no other. -/
theorem assign_spec (nodes : List Node) (t : Siblings) (seed : ℤ) :
    (∀ used node, Assigning used (baseName node.hostname) (baseName node.hostname) 2 (assign used node)) ∧
    (assignAll [] nodes).Nodup ∧
    (∀ name ∈ assignAll [] nodes, name ≠ [] ∧
      tokenize ("object ".toList ++ name ++ " \x7b".toList) =
        .ok [⟨.word, "object".toList, 1⟩, ⟨.word, name, 1⟩, ⟨.lbrace, [], 1⟩] ∧
      tokenize ("  dep ".toList ++ (Piece.quoted name).text ++ [';']) =
        .ok [⟨.word, "dep".toList, 1⟩, ⟨.string, name, 1⟩, ⟨.semi, [], 1⟩]) ∧
    (walk none t []).1.map Placed.name = assignAll [] t.nodes ∧
    ∀ i p, (walk none t []).1[i]? = some p → ∃ dep, ⟨"dep".toList, dep, []⟩ ∈ attrs seed p ∧
      (dep = none ↔ parentOf t i = none) ∧
      ∀ j q, (walk none t []).1[j]? = some q → (dep = some (.quoted q.name) ↔ parentOf t i = some j) := by
  refine ⟨assigning_assign, ?_, fun name hname => ?_, names_walk none t [], fun i p hp => ?_⟩
  · have h := nodup_assignAll List.nodup_nil nodes
    rw [List.append_nil] at h
    exact List.nodup_reverse.mp h
  · have hword := isWord_assignAll hname
    exact ⟨hword.1, tokenize_header hword, tokenize_dep hword⟩
  · refine ⟨p.parent.map .quoted, List.mem_of_getElem? (i := 17) rfl, ?_, fun j q hq => ?_⟩
    · rw [Option.map_eq_none_iff, parent_walk hp, Option.map_eq_none_iff]
    · rw [← parent_walk_iff hp hq]
      simp

/-- A host and, below it, another with the same name. -/
def twins : Siblings := .cons ⟨"a b".toList, .ping, 0, [], [], [], none, none, [], [], [], none, 2, none, none, none⟩
  (.cons ⟨"a b".toList, .ping, 0, [], [], [], none, none, [], [], [], none, 2, none, none, none⟩ .nil .nil) .nil

theorem assign_twins : assignAll [] twins.nodes = ["a_b".toList, "a_b-2".toList] ∧ "a_b-2".toList ≠ [] ∧
    ∃ p q, (walk none twins []).1[1]? = some p ∧ (walk none twins []).1[0]? = some q ∧ parentOf twins 1 = some 0 ∧
      ⟨"dep".toList, some (.quoted q.name), []⟩ ∈ attrs 2 p := by
  have hnames : assignAll [] twins.nodes = ["a_b".toList, "a_b-2".toList] := by decide +kernel
  obtain ⟨-, -, hname, -, hdep⟩ := assign_spec twins.nodes twins 2
  obtain ⟨dep, hmem, -, hiff⟩ := hdep 1 _ rfl
  refine ⟨hnames, (hname _ (by rw [hnames]; simp)).1, _, _, rfl, rfl, rfl, ?_⟩
  have hq := (hiff 0 _ rfl).mpr rfl
  exact hq ▸ hmem

end Psysmon.Convert
