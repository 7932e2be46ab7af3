import Psysmon.Config.Reorder
import Psysmon.Config.Tree

/-!
# Psysmon.Config.Preorder — a tree written with `dep` edges

Objects in the order of a walk over a tree, each with a `dep` edge to its parent, link to that tree: a parent is always
declared before its children, so that no edge can close a cycle.

* `linkDeps_preorder`, `linkAll_preorder`: one object and the loop.
* `buildForest_preorder`: the forest.
-/

namespace Psysmon

open Lib

theorem Siblings.parents_lt {p : Option ℕ} {b : ℕ} {t : Siblings} (hp : ∀ q, p = some q → q < b) {i : ℕ}
    {x : Node × Option ℕ} (h : (t.parents p b)[i]? = some x) : ∀ q, x.2 = some q → q < b + i := by
  induction t generalizing p b i with
  | nil => cases h
  | cons n c r ihc ihr =>
    rw [parents] at h
    intro q hq
    cases i with
    | zero =>
      obtain rfl := Option.some.inj h
      exact hp q hq
    | succ i =>
      rw [List.getElem?_cons_succ, List.getElem?_append, length_parents] at h
      split at h
      · have := ihc (fun q hq => by have := Option.some.inj hq; omega) h q hq
        omega
      · have := ihr (fun q hq => by have := hp q hq; omega) h q hq
        omega

/-- Every parent comes before its children. -/
def ParentsFirst (rows : List (Node × Option ℕ)) : Prop :=
  ∀ (i : ℕ) (x : Node × Option ℕ), rows[i]? = some x → ∀ q, x.2 = some q → q < i

theorem ParentsFirst.left {rows rows' : List (Node × Option ℕ)} (h : ParentsFirst (rows ++ rows')) : ParentsFirst rows :=
  fun i x hi => h i x (by rw [List.getElem?_append_left (List.getElem?_eq_some_iff.mp hi).1, hi])

theorem Siblings.parentsFirst_parents (t : Siblings) : ParentsFirst (t.parents none 0) := fun i x h q hq => by
  have := parents_lt (p := none) (by simp) h q hq
  omega

theorem Siblings.parents_map (f : Node → Node) (p : Option ℕ) (b : ℕ) (t : Siblings) :
    (t.map f).parents p b = (t.parents p b).map fun x => (f x.1, x.2) := by
  induction t generalizing p b with
  | nil => rfl
  | cons n c r ihc ihr =>
    rw [map, parents, parents, List.map_cons, List.map_append, ihc, ihr, size_map]

theorem Siblings.nodes_map (f : Node → Node) (t : Siblings) : (t.map f).nodes = t.nodes.map f := by
  induction t with
  | nil => rfl
  | cons n c r ihc ihr => rw [map, nodes, nodes, ihc, ihr, List.map_cons, List.map_append]

/-- Another node somewhere makes another forest. -/
theorem Siblings.toForest_map_eq_iff {f : Node → Node} {t : Siblings} :
    (t.map f).toForest = t.toForest ↔ ∀ n ∈ t.nodes, f n = n := by
  constructor
  · intro h
    have hobjs : (t.map f).objects 0 = t.objects 0 := congrArg Forest.objs h
    have hnodes := congrArg (List.map Prod.fst) hobjs
    rw [map_objects, map_objects, nodes_map] at hnodes
    exact List.map_inj_left.mp (hnodes.trans (List.map_id _).symm)
  · intro h
    have hself : t.map f = t := by
      induction t with
      | nil => rfl
      | cons n c r ihc ihr =>
        rw [map, h n (by simp [nodes]), ihc fun n hn => h n (by simp [nodes, hn]),
          ihr fun n hn => h n (by simp [nodes, hn])]
    rw [hself]

theorem Siblings.childrenOf_concat (q : Option ℕ) (rows : List (Node × Option ℕ)) (x : Node × Option ℕ) :
    childrenOf q 0 (rows ++ [x]) = childrenOf q 0 rows ++ if x.2 = q then [rows.length] else [] := by
  rw [childrenOf_append, Nat.zero_add]
  split <;> simp [childrenOf, *]

namespace Modern

open Siblings

/-- The graph of the rows that have been linked. -/
structure Links.Follows (L : Links) (rows : List (Node × Option ℕ)) : Prop where
  children : ∀ q, L.children q = childrenOf (some q) 0 rows
  roots : L.roots = childrenOf none 0 rows

section Preorder

variable {objects : List Obj} {L : Links} {rows : List (Node × Option ℕ)}

/-- An object that nothing depends on yet reaches nothing. -/
theorem Links.Follows.reaches_eq_false (h : L.Follows rows) (hfirst : ParentsFirst rows) {n q : ℕ}
    (hq : q < rows.length) :
    L.reaches n rows.length q = false := by
  have hnone : L.children rows.length = [] := by
    rw [h.children, List.eq_nil_iff_forall_not_mem]
    intro j hj
    obtain ⟨x, -, hx, he⟩ := mem_childrenOf.mp hj
    rw [Nat.sub_zero] at hx
    have hj' := (List.getElem?_eq_some_iff.mp hx).1
    have := hfirst j x hx _ he
    omega
  by_contra hreach
  obtain ⟨p, hp, q', hpq, hhit⟩ := search_sound (Bool.eq_true_of_not_eq_false hreach)
  obtain rfl := List.mem_singleton.mp hp
  obtain rfl : q' = q := of_decide_eq_true hhit
  rcases Relation.ReflTransGen.cases_head hpq with he | ⟨c, hc, -⟩
  · omega
  · rw [hnone] at hc
    cases hc

/-- One object. -/
theorem linkDeps_preorder (hn : (objects.map Obj.name).Nodup) (h : L.Follows rows)
    {x : Node × Option ℕ} (hfirst : ParentsFirst (rows ++ [x])) (hlen : rows.length ≤ objects.length) {o : Obj}
    (hdeps : o.deps = (x.2.map (nameAt objects)).toList) :
    let r := (linkDeps objects o rows.length o.deps L).val
    (if r.2 then r.1 else { r.1 with roots := r.1.roots ++ [rows.length] }).Follows (rows ++ [x]) := by
  obtain ⟨node, parent⟩ := x
  rw [hdeps]
  cases parent with
  | none =>
    refine ⟨fun q => ?_, ?_⟩
    · rw [childrenOf_concat, ← h.children q]
      exact (List.append_nil _).symm
    · rw [childrenOf_concat, ← h.roots]
      rfl
  | some p =>
    have hp : p < rows.length := hfirst rows.length (node, some p) (by simp) p rfl
    have hindex : objects.findIdx? (·.name = nameAt objects p) = some p := indexOf_nameAt hn (hp.trans_le hlen)
    have hlink : linkDeps objects o rows.length [nameAt objects p] L = pure (L.link p rows.length, true) := by
      rw [linkDeps, hindex]
      dsimp only
      rw [h.reaches_eq_false hfirst.left hp]
      rfl
    dsimp only [Option.map, Option.toList]
    rw [hlink]
    refine ⟨fun q => ?_, ?_⟩
    · rw [childrenOf_concat, ← h.children q]
      by_cases hq : q = p
      · subst hq
        simp [Links.link]
      · simp [Links.link, hq, Ne.symm hq]
    · rw [childrenOf_concat, ← h.roots]
      exact (List.append_nil _).symm

/-- The loop. -/
theorem linkAll_preorder (hn : (objects.map Obj.name).Nodup) (rest : List (Obj × (Node × Option ℕ))) (h : L.Follows rows)
    (hfirst : ParentsFirst (rows ++ rest.map Prod.snd)) (hlen : rows.length + rest.length ≤ objects.length)
    (hdeps : ∀ y ∈ rest, y.1.deps = (y.2.2.map (nameAt objects)).toList) :
    (linkAll objects ((rest.map Prod.fst).zipIdx rows.length) L).val.Follows (rows ++ rest.map Prod.snd) := by
  induction rest generalizing rows L with
  | nil => simpa [linkAll] using h
  | cons y rest ih =>
    obtain ⟨o, x⟩ := y
    have hrows : rows ++ ((o, x) :: rest).map Prod.snd = rows ++ [x] ++ rest.map Prod.snd := by simp
    rw [hrows] at hfirst ⊢
    rw [List.length_cons] at hlen
    have hstep := linkDeps_preorder hn h hfirst.left (by omega) (hdeps (o, x) (by simp))
    have hrest := ih hstep hfirst (by rw [List.length_append, List.length_singleton]; omega)
      fun y hy => hdeps y (by simp [hy])
    rw [List.length_append, List.length_singleton] at hrest
    exact hrest

/-- **A tree that is written with `dep` edges is read back.** -/
theorem buildForest_preorder {t : Siblings} (hn : (objects.map Obj.name).Nodup)
    (hrows : objects.map (fun o => (o.node, o.deps)) =
      (t.parents none 0).map fun x => (x.1, (x.2.map (nameAt objects)).toList)) :
    (buildForest none 0 objects).val = t.toForest := by
  have hlen : objects.length = (t.parents none 0).length := by simpa using congrArg List.length hrows
  have hget (i : ℕ) : (objects[i]?).map (fun o => (o.node, o.deps)) =
      ((t.parents none 0)[i]?).map fun x => (x.1, (x.2.map (nameAt objects)).toList) := by
    simpa using congrArg (·[i]?) hrows
  have hfollows : (linked objects).val.Follows (t.parents none 0) := by
    have hempty : ({} : Links).Follows [] := ⟨fun _ => rfl, rfl⟩
    have hfst := List.map_fst_zip hlen.le
    have hsnd := List.map_snd_zip hlen.ge
    have h := linkAll_preorder hn (objects.zip (t.parents none 0)) hempty
    rw [hfst, hsnd, List.nil_append] at h
    refine h t.parentsFirst_parents ?_ fun y hy => ?_
    · rw [List.length_zip]
      simp
    · obtain ⟨i, hi⟩ := List.getElem?_of_mem hy
      obtain ⟨ho, hx⟩ := List.getElem?_zip_eq_some.mp hi
      have := hget i
      rw [ho, hx] at this
      exact (Prod.mk.inj (Option.some.inj this)).2
  have hchildren (i : ℕ) : (linked objects).val.children i = (((t.objects 0)[i]?).map Prod.snd).getD [] := by
    rw [hfollows.children]
    exact (children_eq_childrenOf (p := none) t (by simp) (Nat.zero_le i)).symm
  refine Forest.ext_objs ?_ ?_
  · have hnode (i : ℕ) : (objects[i]?).map Obj.node = ((t.objects 0)[i]?).map Prod.fst := by
      have hfst := congrArg (Option.map Prod.fst) (hget i)
      rw [Option.map_map, Option.map_map] at hfst
      have hobjects : ((t.objects 0)[i]?).map Prod.fst = ((t.parents none 0)[i]?).map Prod.fst := by
        rw [← List.getElem?_map, ← List.getElem?_map, map_objects, map_parents]
      rw [hobjects]
      exact hfst
    rw [objs_buildForest]
    refine List.ext_getElem? fun i => ?_
    rw [graph, List.getElem?_map, List.getElem?_zipIdx, Nat.zero_add, Option.map_map]
    have hn := hnode i
    have hc := hchildren i
    change _ = (t.objects 0)[i]?
    cases ho : objects[i]? <;> cases ht : (t.objects 0)[i]? <;> rw [ho, ht] at hn <;> rw [ht] at hc
    · rfl
    · cases hn
    · cases hn
    · exact congrArg some (Prod.ext (Option.some.inj hn) hc)
  · rw [roots_buildForest, hfollows.roots]
    exact (numbers_eq_childrenOf (p := none) t (by simp)).symm

end Preorder

end Modern

end Psysmon
