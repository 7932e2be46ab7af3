import Psysmon.Config.Block
import Psysmon.Lib.Search

/-!
# Psysmon.Config.Graph — linking `dep` edges (`config/modern.py`, `_build_forest`)

Objects are numbered in declaration order.  An edge that names no object or would close a cycle is dropped; an object
without a surviving edge becomes a root.
-/

namespace Psysmon.Modern

open Lib

/-- An accepted object: name, node, `dep` names and line, and the attribute keys it declared. -/
structure Obj where
  name : Text
  node : Node
  deps : List Text
  line : ℕ
  keys : List Text

/-- The graph while it is linked: the children of every object, by number, and the roots. -/
structure Links where
  children : ℕ → List ℕ := fun _ => []
  roots : List ℕ := []

/-- `parent.children.append(node)`. -/
def Links.link (L : Links) (p i : ℕ) : Links := { L with children := Function.update L.children p (L.children p ++ [i]) }

/-- Iterations a search through `n` objects can need. -/
def Links.fuel (L : Links) (n : ℕ) : ℕ := ∑ i ∈ Finset.range n, (L.children i).length + 2

/-- `_reaches`: object `target` is `start` or below it. -/
def Links.reaches (L : Links) (n start target : ℕ) : Bool :=
  search L.children (· = target) (L.fuel n) [start] []

/-- The `dep` edges of object `i`, and whether one of them was linked. -/
def linkDeps (objects : List Obj) (o : Obj) (i : ℕ) : List Text → Links → Log (Links × Bool)
  | [], L => pure (L, false)
  | dep :: deps, L =>
    match objects.findIdx? (·.name = dep) with
    | none => do
      .warn o.line ("'".toList ++ o.name ++ "': dep '".toList ++ dep ++ "' names no object; ignoring it".toList)
      linkDeps objects o i deps L
    | some p =>
      if L.reaches objects.length i p then do
        .warn o.line ("'".toList ++ o.name ++ "': dep '".toList ++ dep ++ "' forms a cycle; ignoring it".toList)
        linkDeps objects o i deps L
      else (fun r => (r.1, true)) <$>
        linkDeps objects o i deps (L.link p i)

/-- The loop of `_build_forest`. -/
def linkAll (objects : List Obj) : List (Obj × ℕ) → Links → Log Links
  | [], L => pure L
  | (o, i) :: rest, L => do
    let r ← linkDeps objects o i o.deps L
    linkAll objects rest (if r.2 then r.1 else { r.1 with roots := r.1.roots ++ [i] })

/-- Every reference is to one of `n` objects. -/
structure Links.Bounded (L : Links) (n : ℕ) : Prop where
  children : ∀ p, ∀ c ∈ L.children p, c < n
  roots : ∀ r ∈ L.roots, r < n

theorem Links.Bounded.link {L : Links} {n i : ℕ} (h : L.Bounded n) (hi : i < n) (p : ℕ) :
    (L.link p i).Bounded n := by
  refine ⟨fun q c hc => ?_, h.roots⟩
  unfold Links.link at hc
  dsimp only at hc
  by_cases hq : q = p
  · subst hq
    rw [Function.update_self] at hc
    rcases List.mem_append.mp hc with hc | hc
    · exact h.children q c hc
    · exact List.mem_singleton.mp hc ▸ hi
  · rw [Function.update_of_ne hq] at hc
    exact h.children q c hc

theorem bounded_linkDeps {objects : List Obj} {o : Obj} {n i : ℕ} (hi : i < n) (deps : List Text) {L : Links}
    (h : L.Bounded n) : (linkDeps objects o i deps L).val.1.Bounded n := by
  induction deps generalizing L with
  | nil => exact h
  | cons dep deps ih =>
    rw [linkDeps]
    cases objects.findIdx? (·.name = dep) with
    | none => exact ih h
    | some p =>
      dsimp only
      split
      · exact ih h
      · exact ih (h.link hi p)

theorem bounded_linkAll {objects : List Obj} {n : ℕ} (rest : List (Obj × ℕ)) (hrest : ∀ x ∈ rest, x.2 < n) {L : Links}
    (h : L.Bounded n) : (linkAll objects rest L).val.Bounded n := by
  induction rest generalizing L with
  | nil => exact h
  | cons x rest ih =>
    obtain ⟨o, i⟩ := x
    have hi : i < n := hrest (o, i) (by simp)
    have hd : (linkDeps objects o i o.deps L).val.1.Bounded n := bounded_linkDeps hi o.deps h
    refine ih (fun y hy => hrest y (by simp [hy])) ?_
    split
    · exact hd
    · refine ⟨hd.children, fun r hr => ?_⟩
      rcases List.mem_append.mp hr with hr | hr
      · exact hd.roots r hr
      · exact List.mem_singleton.mp hr ▸ hi

/-- The linked graph of a list of objects. -/
def linked (objects : List Obj) : Log Links := linkAll objects objects.zipIdx {}

theorem bounded_linked (objects : List Obj) : (linked objects).val.Bounded objects.length :=
  bounded_linkAll _ (fun x hx => by simpa using (List.mem_zipIdx hx).2.1) ⟨by simp, by simp⟩

/-- The objects with their children. -/
def graph (objects : List Obj) (L : Links) : List (Node × List ℕ) :=
  objects.zipIdx.map fun x => (x.1.node, L.children x.2)

/-- `_build_forest`. -/
def buildForest (rootName : Option Text) (rootLine : ℕ) (objects : List Obj) : Log Forest := do
  match rootName with
  | none => pure ()
  | some name =>
    .warnIf (objects.any (·.name = name) = false) rootLine ("root '".toList ++ name ++ "' names no object".toList)
  (linked objects).after
  return {
    objs := graph objects (linked objects).val
    roots := (linked objects).val.roots
    roots_lt := fun r hr => by simpa [graph] using (bounded_linked objects).roots r hr
    children_lt := fun o ho c hc => by
      obtain ⟨x, -, rfl⟩ := List.mem_map.mp ho
      simpa [graph] using (bounded_linked objects).children _ c hc }

section

variable (rootName : Option Text) (rootLine : ℕ) (objects : List Obj)

theorem objs_buildForest : (buildForest rootName rootLine objects).val.objs = graph objects (linked objects).val := by
  cases rootName <;> rfl

theorem roots_buildForest : (buildForest rootName rootLine objects).val.roots = (linked objects).val.roots := by
  cases rootName <;> rfl

end

end Psysmon.Modern
