import Psysmon.Config.Model

/-!
# Psysmon.Config.Tree — forests without sharing

What nested blocks denote: a list of nodes, each with the list of its children.  `toForest` numbers the nodes in
preorder, the order in which a parser allocates them.
-/

namespace Psysmon

/-- A list of sibling nodes with their subtrees. -/
inductive Siblings
  | nil
  | cons (node : Node) (children rest : Siblings)
  deriving DecidableEq

namespace Siblings

def append : Siblings → Siblings → Siblings
  | nil, t => t
  | cons n c r, t => cons n c (r.append t)

/-- The number of nodes. -/
def size : Siblings → ℕ
  | nil => 0
  | cons _ c r => 1 + c.size + r.size

/-- The nodes, in preorder. -/
def nodes : Siblings → List Node
  | nil => []
  | cons n c r => n :: (c.nodes ++ r.nodes)

/-- The numbers of the siblings themselves, if the first node has number `b`. -/
def numbers (b : ℕ) : Siblings → List ℕ
  | nil => []
  | cons _ c r => b :: r.numbers (b + 1 + c.size)

/-- The nodes with the numbers of their children, if the first node has number `b`. -/
def objects (b : ℕ) : Siblings → List (Node × List ℕ)
  | nil => []
  | cons n c r => (n, c.numbers (b + 1)) :: (c.objects (b + 1) ++ r.objects (b + 1 + c.size))

@[simp] theorem append_nil : ∀ t : Siblings, t.append nil = t
  | nil => rfl
  | cons n c r => by rw [append, append_nil r]

theorem append_assoc : ∀ s t u : Siblings, (s.append t).append u = s.append (t.append u)
  | nil, _, _ => rfl
  | cons n c r, t, u => by rw [append, append, append, append_assoc r t u]

@[simp] theorem nodes_append : ∀ s t : Siblings, (s.append t).nodes = s.nodes ++ t.nodes
  | nil, _ => rfl
  | cons n c r, t => by simp [append, nodes, nodes_append r t]

/-- The tree with another node at every position. -/
def map (f : Node → Node) : Siblings → Siblings
  | nil => nil
  | cons n c r => cons (f n) (c.map f) (r.map f)

theorem map_append (f : Node → Node) : ∀ s t : Siblings, (s.append t).map f = (s.map f).append (t.map f)
  | nil, _ => rfl
  | cons n c r, t => by rw [append, map, map_append f r t, map, append]

theorem size_map (f : Node → Node) (t : Siblings) : (t.map f).size = t.size := by
  induction t with
  | nil => rfl
  | cons n c r ihc ihr => rw [map, size, size, ihc, ihr]

theorem length_nodes (t : Siblings) : t.nodes.length = t.size := by
  induction t with
  | nil => rfl
  | cons n c r ihc ihr =>
    simp only [nodes, size, List.length_cons, List.length_append, ihc, ihr]
    omega

/-- A tree is determined by its shape and its nodes. -/
theorem ext_nodes {f : Node → Node} {s t : Siblings} (hm : s.map f = t.map f) (hn : s.nodes = t.nodes) : s = t := by
  induction s generalizing t with
  | nil =>
    cases t with
    | nil => rfl
    | cons n c r => cases hn
  | cons n c r ihc ihr =>
    cases t with
    | nil => cases hn
    | cons n' c' r' =>
      injection hm with _ hc hr
      obtain ⟨rfl, htail⟩ := List.cons.inj hn
      have hlen : c.nodes.length = c'.nodes.length := by
        rw [length_nodes, length_nodes, ← size_map f c, hc, size_map]
      obtain ⟨hcn, hrn⟩ := List.append_inj htail hlen
      rw [ihc hc hcn, ihr hr hrn]

theorem length_objects (b : ℕ) (t : Siblings) : (t.objects b).length = t.size := by
  induction t generalizing b with
  | nil => rfl
  | cons n c r ihc ihr => simp [objects, size, ihc, ihr]; omega

theorem map_objects (b : ℕ) (t : Siblings) : (t.objects b).map Prod.fst = t.nodes := by
  induction t generalizing b with
  | nil => rfl
  | cons n c r ihc ihr => simp [objects, nodes, ihc, ihr]

theorem numbers_bounds {b : ℕ} {t : Siblings} {i : ℕ} (h : i ∈ t.numbers b) : b ≤ i ∧ i < b + t.size := by
  induction t generalizing b with
  | nil => simp [numbers] at h
  | cons n c r _ ih =>
    rcases List.mem_cons.mp h with rfl | h
    · simp only [size]
      omega
    · have := ih h
      simp only [size]
      omega

theorem objects_bounds {b : ℕ} {t : Siblings} {o : Node × List ℕ} (h : o ∈ t.objects b) {i : ℕ} (hi : i ∈ o.2) :
    i < b + t.size := by
  induction t generalizing b with
  | nil => simp [objects] at h
  | cons n c r ihc ihr =>
    simp only [size]
    rcases List.mem_cons.mp h with rfl | h
    · have := (numbers_bounds hi).2
      omega
    · rcases List.mem_append.mp h with h | h
      · have := ihc h
        omega
      · have := ihr h
        omega

/-- The reference graph of the nodes, numbered in preorder. -/
def toForest (t : Siblings) : Forest where
  objs := t.objects 0
  roots := t.numbers 0
  roots_lt r hr := by
    rw [length_objects]
    have := (numbers_bounds hr).2
    omega
  children_lt o ho i hi := by
    rw [length_objects]
    have := objects_bounds ho hi
    omega

/-! ### Parents -/

/-- The nodes in preorder, each with the number of its parent; `p` is that of the siblings themselves, and the first node
has number `b`. -/
def parents (p : Option ℕ) (b : ℕ) : Siblings → List (Node × Option ℕ)
  | nil => []
  | cons n c r => (n, p) :: (c.parents (some b) (b + 1) ++ r.parents p (b + 1 + c.size))

theorem length_parents (p : Option ℕ) (b : ℕ) (t : Siblings) : (t.parents p b).length = t.size := by
  induction t generalizing p b with
  | nil => rfl
  | cons n c r ihc ihr => simp [parents, size, ihc, ihr]; omega

theorem map_parents (p : Option ℕ) (b : ℕ) (t : Siblings) : (t.parents p b).map Prod.fst = t.nodes := by
  induction t generalizing p b with
  | nil => rfl
  | cons n c r ihc ihr => simp [parents, nodes, ihc, ihr]

theorem parents_append (p : Option ℕ) (b : ℕ) (s t : Siblings) :
    (s.append t).parents p b = s.parents p b ++ t.parents p (b + s.size) := by
  induction s generalizing b with
  | nil => rfl
  | cons n c r _ ihr =>
    have hb : b + (1 + c.size + r.size) = b + 1 + c.size + r.size := by omega
    rw [append, parents, parents, ihr, size, List.cons_append, List.append_assoc, hb]

theorem parents_bounds {p : Option ℕ} {b : ℕ} {t : Siblings} {x : Node × Option ℕ} (h : x ∈ t.parents p b) :
    x.2 = p ∨ ∃ q, x.2 = some q ∧ b ≤ q ∧ q < b + t.size := by
  induction t generalizing p b with
  | nil => cases h
  | cons n c r ihc ihr =>
    simp only [size]
    rcases List.mem_cons.mp h with rfl | h
    · exact .inl rfl
    · rcases List.mem_append.mp h with h | h
      · rcases ihc h with hx | ⟨q, hx, hle, hlt⟩
        · exact .inr ⟨b, hx, by omega, by omega⟩
        · exact .inr ⟨q, hx, by omega, by omega⟩
      · rcases ihr h with hx | ⟨q, hx, hle, hlt⟩
        · exact .inl hx
        · exact .inr ⟨q, hx, by omega, by omega⟩

/-- The numbers, from `b` on, of the nodes with parent `q`. -/
def childrenOf (q : Option ℕ) (b : ℕ) (rows : List (Node × Option ℕ)) : List ℕ :=
  ((rows.zipIdx b).filter fun x => x.1.2 = q).map Prod.snd

theorem childrenOf_append (q : Option ℕ) (b : ℕ) (rows rows' : List (Node × Option ℕ)) :
    childrenOf q b (rows ++ rows') = childrenOf q b rows ++ childrenOf q (b + rows.length) rows' := by
  simp only [childrenOf, List.zipIdx_append, List.filter_append, List.map_append]

theorem childrenOf_eq_nil {q : Option ℕ} {b : ℕ} {rows : List (Node × Option ℕ)} (h : ∀ x ∈ rows, x.2 ≠ q) :
    childrenOf q b rows = [] := by
  rw [childrenOf, List.filter_eq_nil_iff.mpr]
  · rfl
  · intro x hx
    simpa using h x.1 (by simpa using List.mem_map_of_mem (f := Prod.fst) hx)

theorem mem_childrenOf {q : Option ℕ} {b j : ℕ} {rows : List (Node × Option ℕ)} :
    j ∈ childrenOf q b rows ↔ ∃ x, b ≤ j ∧ rows[j - b]? = some x ∧ x.2 = q := by
  simp only [childrenOf, List.mem_map, List.mem_filter, List.mem_zipIdx_iff_le_and_getElem?_sub, Prod.exists]
  constructor
  · rintro ⟨n, p, j, ⟨⟨hle, hj⟩, hq⟩, rfl⟩
    exact ⟨n, p, hle, hj, by simpa using hq⟩
  · rintro ⟨n, p, hle, hj, hq⟩
    exact ⟨n, p, j, ⟨⟨hle, hj⟩, by simpa using hq⟩, rfl⟩

theorem pairwise_childrenOf (q : Option ℕ) (b : ℕ) (rows : List (Node × Option ℕ)) :
    (childrenOf q b rows).Pairwise (· < ·) := by
  have hsub : (childrenOf q b rows).Sublist ((rows.zipIdx b).map Prod.snd) := List.filter_sublist.map _
  rw [List.zipIdx_map_snd] at hsub
  exact List.Pairwise.sublist hsub (List.pairwise_lt_range' ..)

/-- The siblings are the nodes whose parent is theirs. -/
theorem numbers_eq_childrenOf {p : Option ℕ} {b : ℕ} (t : Siblings) (hp : ∀ q, p = some q → q < b) :
    t.numbers b = childrenOf p b (t.parents p b) := by
  induction t generalizing b with
  | nil => rfl
  | cons n c r _ ihr =>
    have hc : childrenOf p (b + 1) (c.parents (some b) (b + 1)) = [] := by
      refine childrenOf_eq_nil fun x hx he => ?_
      rcases parents_bounds hx with h | ⟨q, h, hle, -⟩
      · exact absurd (hp b (he.symm.trans h)) (lt_irrefl b)
      · have := hp q (he.symm.trans h)
        omega
    have hcons : childrenOf p b ((cons n c r).parents p b) =
        b :: (childrenOf p (b + 1) (c.parents (some b) (b + 1)) ++
          childrenOf p (b + 1 + c.size) (r.parents p (b + 1 + c.size))) := by
      rw [← length_parents (some b) (b + 1) c, ← childrenOf_append, length_parents]
      simp [parents, childrenOf]
    rw [hcons, hc, List.nil_append, ← ihr fun q hq => by have := hp q hq; omega]
    rfl

/-- The children of a node are the nodes whose parent it is. -/
theorem children_eq_childrenOf {p : Option ℕ} {b q : ℕ} (t : Siblings) (hp : ∀ q, p = some q → q < b) (hq : b ≤ q) :
    (((t.objects b)[q - b]?).map Prod.snd).getD [] = childrenOf (some q) b (t.parents p b) := by
  induction t generalizing p b with
  | nil => rfl
  | cons n c r ihc ihr =>
    have hne : p ≠ some q := fun h => absurd (hp q h) (by omega)
    have hcons : childrenOf (some q) b ((cons n c r).parents p b) =
        childrenOf (some q) (b + 1) (c.parents (some b) (b + 1)) ++
          childrenOf (some q) (b + 1 + c.size) (r.parents p (b + 1 + c.size)) := by
      rw [← length_parents (some b) (b + 1) c, ← childrenOf_append, length_parents]
      simp [parents, childrenOf, hne]
    -- the node is the first one, or below it, or behind it
    rw [hcons, objects]
    obtain rfl | hlt := hq.eq_or_lt
    · have hr : childrenOf (some b) (b + 1 + c.size) (r.parents p (b + 1 + c.size)) = [] := by
        refine childrenOf_eq_nil fun x hx he => ?_
        rcases parents_bounds hx with h | ⟨q, h, hle, -⟩
        · exact hne (h.symm.trans he)
        · have := Option.some.inj (h.symm.trans he)
          omega
      rw [hr, List.append_nil, ← numbers_eq_childrenOf c fun q hq => by have := Option.some.inj hq; omega, Nat.sub_self]
      rfl
    · have hindex : q - b = q - (b + 1) + 1 := by omega
      rw [hindex, List.getElem?_cons_succ, List.getElem?_append, length_objects]
      split
      · have hr : childrenOf (some q) (b + 1 + c.size) (r.parents p (b + 1 + c.size)) = [] := by
          refine childrenOf_eq_nil fun x hx he => ?_
          rcases parents_bounds hx with h | ⟨q', h, hle, -⟩
          · exact hne (h.symm.trans he)
          · have := Option.some.inj (h.symm.trans he)
            omega
        rw [hr, List.append_nil]
        exact ihc (fun q hq => by have := Option.some.inj hq; omega) hlt
      · have hc : childrenOf (some q) (b + 1) (c.parents (some b) (b + 1)) = [] := by
          refine childrenOf_eq_nil fun x hx he => ?_
          rcases parents_bounds hx with h | ⟨q', h, -, hlt'⟩
          · have := Option.some.inj (h.symm.trans he)
            omega
          · have := Option.some.inj (h.symm.trans he)
            omega
        have hindex' : q - (b + 1) - c.size = q - (b + 1 + c.size) := by omega
        rw [hc, List.nil_append, hindex']
        exact ihr (fun q hq => by have := hp q hq; omega) (by omega)

end Siblings

end Psysmon
