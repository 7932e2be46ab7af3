import Psysmon.Config.Model

/-!
# Psysmon.Engine.Flatten — forest flattening and gate computation (`Scheduler._flatten`)

The walk pops `(node, parent, reachable)` entries off a stack.  A node is scheduled the first time a reachable
entry names it and collects one gate edge per ping parent that reaches it; its children are pushed once.
A node's place in the scheduled order stands for its `_Scheduled` object.

* `flatten_gate_lt`: every gate edge names a place of the order.
* `flatten_fuel`: the walk is over after `flattenFuel` pops; more change nothing.
-/

namespace Psysmon

/-- A warning the scheduler records for the operator. -/
inductive SchedWarning
  | behindNonPing (hostname : Lib.Text) (checkType : CheckType)
  | duplicate (hostname : Lib.Text) (checkType : CheckType) (port : ℤ)
  deriving DecidableEq

/-- A stack entry: the node, the place of the parent it is reached from, and whether that parent lets it be
reached. -/
structure Visit where
  node : ℕ
  parent : Option ℕ
  reachable : Bool

/-- What the walk has built: the scheduled nodes with their gates, and the nodes met behind a non-ping parent. -/
structure Flat where
  order : List (ℕ × List ℕ) := []
  behindNonPing : List ℕ := []

namespace Flat

/-- `sched_of.get(id(node))`. -/
def place (f : Flat) (node : ℕ) : Option ℕ := f.order.findIdx? (fun o => o.1 = node)

/-- Append a parent to the gate at place `i`, unless it is there. -/
def addGate (f : Flat) (i : ℕ) (parent : Option ℕ) : Flat :=
  match parent with
  | none => f
  | some p => { f with order := f.order.modify i fun o => (o.1, if p ∈ o.2 then o.2 else o.2 ++ [p]) }

/-- `behind_non_ping[id(node)] = node`. -/
def addBehind (f : Flat) (node : ℕ) : Flat :=
  if node ∈ f.behindNonPing then f else { f with behindNonPing := f.behindNonPing ++ [node] }

end Flat

/-- One iteration of the walk: the stack without its top, and the entries a new node pushes. -/
def flattenStep (F : Forest) (v : Visit) (stack : List Visit) (f : Flat) : List Visit × Flat :=
  if v.reachable = false then (stack, f.addBehind v.node)
  else
    match f.place v.node with
    | some i => (stack, f.addGate i v.parent)
    | none =>
      let isPing := isPingType (F.node v.node).checkType
      let i := f.order.length
      ((F.children v.node).map (fun c => ⟨c, if isPing then some i else none, isPing⟩) ++ stack,
        { f with order := f.order ++ [(v.node, v.parent.toList)] })

/-- The walk of `_flatten`. -/
def flattenLoop (F : Forest) : ℕ → List Visit → Flat → Flat
  | 0, _, f => f
  | _ + 1, [], f => f
  | n + 1, v :: stack, f => let q := flattenStep F v stack f; flattenLoop F n q.1 q.2

/-- Pops the walk can need: one for every root and one for every child edge. -/
def flattenFuel (F : Forest) : ℕ := F.roots.length + (F.objs.map fun o => o.2.length).sum

/-- `_flatten`: the scheduled order with its gates. -/
def flatten (F : Forest) : Flat :=
  flattenLoop F (flattenFuel F) (F.roots.map fun r => ⟨r, none, true⟩) {}

/-- The warnings of `_flatten`: nodes met only behind non-ping parents. -/
def flattenWarnings (F : Forest) : List SchedWarning :=
  ((flatten F).behindNonPing.filter fun n => (flatten F).place n = none).map fun n =>
    .behindNonPing (F.node n).hostname (F.node n).checkType

/-! ### Every gate edge names a place -/

/-- The loop invariant: parents on the stack and in the gates are places of the order, nodes exist. -/
structure FlatInv (F : Forest) (stack : List Visit) (f : Flat) : Prop where
  stack_node : ∀ v ∈ stack, v.node < F.objs.length
  stack_parent : ∀ v ∈ stack, ∀ p ∈ v.parent, p < f.order.length
  gate : ∀ o ∈ f.order, ∀ p ∈ o.2, p < f.order.length

theorem Flat.length_addGate (f : Flat) (i : ℕ) (p : Option ℕ) : (f.addGate i p).order.length = f.order.length := by
  cases p <;> simp [addGate]

theorem Flat.order_addBehind (f : Flat) (n : ℕ) : (f.addBehind n).order = f.order := by
  unfold addBehind
  split <;> rfl

theorem Flat.gate_addGate {f : Flat} {i : ℕ} {p : Option ℕ} {o : ℕ × List ℕ} (ho : o ∈ (f.addGate i p).order)
    {q : ℕ} (hq : q ∈ o.2) : q ∈ p ∨ ∃ o' ∈ f.order, q ∈ o'.2 := by
  cases p with
  | none => exact Or.inr ⟨o, ho, hq⟩
  | some p =>
    simp only [addGate] at ho
    obtain ⟨j, hj, rfl⟩ := List.getElem_of_mem ho
    rw [List.getElem_modify] at hq
    have hj' : j < f.order.length := by simpa using hj
    split at hq
    · by_cases hp : p ∈ (f.order[j]).2
      · rw [if_pos hp] at hq
        exact Or.inr ⟨_, List.getElem_mem hj', hq⟩
      · rw [if_neg hp] at hq
        rcases List.mem_append.mp hq with hq | hq
        · exact Or.inr ⟨_, List.getElem_mem hj', hq⟩
        · exact Or.inl (by simpa using (List.mem_singleton.mp hq).symm)
    · exact Or.inr ⟨_, List.getElem_mem hj', hq⟩

theorem FlatInv.step {F : Forest} {v : Visit} {stack : List Visit} {f : Flat} (h : FlatInv F (v :: stack) f) :
    FlatInv F (flattenStep F v stack f).1 (flattenStep F v stack f).2 := by
  have htail : ∀ w ∈ stack, w ∈ v :: stack := fun w hw => by simp [hw]
  unfold flattenStep
  split
  · refine ⟨fun w hw => h.stack_node w (htail w hw), ?_, ?_⟩ <;> rw [Flat.order_addBehind]
    · exact fun w hw => h.stack_parent w (htail w hw)
    · exact h.gate
  · split
    · refine ⟨fun w hw => h.stack_node w (htail w hw), ?_, ?_⟩ <;> rw [Flat.length_addGate]
      · exact fun w hw => h.stack_parent w (htail w hw)
      · intro o ho p hp
        rcases Flat.gate_addGate ho hp with hp | ⟨o', ho', hp⟩
        · exact h.stack_parent v (by simp) p hp
        · exact h.gate o' ho' p hp
    · refine ⟨fun w hw => ?_, fun w hw p hp => ?_, fun o ho p hp => ?_⟩
      · rcases List.mem_append.mp hw with hw | hw
        · obtain ⟨c, hc, rfl⟩ := List.mem_map.mp hw
          exact F.children_mem_lt hc
        · exact h.stack_node w (htail w hw)
      · simp only [List.length_append, List.length_singleton]
        rcases List.mem_append.mp hw with hw | hw
        · obtain ⟨c, hc, rfl⟩ := List.mem_map.mp hw
          simp only [Option.mem_def, Option.ite_none_right_eq_some, Option.some.injEq] at hp
          omega
        · exact Nat.lt_succ_of_lt (h.stack_parent w (htail w hw) p hp)
      · simp only [List.length_append, List.length_singleton]
        rcases List.mem_append.mp ho with ho | ho
        · exact Nat.lt_succ_of_lt (h.gate o ho p hp)
        · rw [List.mem_singleton.mp ho] at hp
          exact Nat.lt_succ_of_lt (h.stack_parent v (by simp) p (by simpa using hp))

theorem FlatInv.loop {F : Forest} : ∀ (n : ℕ) {stack : List Visit} {f : Flat}, FlatInv F stack f →
    ∀ o ∈ (flattenLoop F n stack f).order, ∀ p ∈ o.2, p < (flattenLoop F n stack f).order.length
  | 0, _, _, h => h.gate
  | _ + 1, [], _, h => h.gate
  | n + 1, _ :: _, _, h => FlatInv.loop n h.step

theorem FlatInv.init (F : Forest) : FlatInv F (F.roots.map fun r => ⟨r, none, true⟩) {} := by
  refine ⟨fun v hv => ?_, fun v hv p hp => ?_, by simp⟩
  · obtain ⟨r, hr, rfl⟩ := List.mem_map.mp hv
    exact F.roots_lt r hr
  · obtain ⟨r, hr, rfl⟩ := List.mem_map.mp hv
    simp at hp

theorem flatten_gate_lt (F : Forest) {o : ℕ × List ℕ} (ho : o ∈ (flatten F).order) {p : ℕ} (hp : p ∈ o.2) :
    p < (flatten F).order.length :=
  FlatInv.loop _ (FlatInv.init F) o ho p hp

/-! ### The walk ends -/

/-- Pops still needed: the stack, and the child edges of every node not yet scheduled. -/
def flattenLeft (F : Forest) (stack : List Visit) (f : Flat) : ℕ :=
  stack.length + ∑ u ∈ Finset.range F.objs.length \ (f.order.map Prod.fst).toFinset, (F.children u).length

theorem Flat.nodes_addGate (f : Flat) (i : ℕ) (p : Option ℕ) :
    (f.addGate i p).order.map Prod.fst = f.order.map Prod.fst := by
  cases p with
  | none => rfl
  | some p =>
    apply List.ext_getElem
    · simp [addGate]
    · intro j h1 h2
      simp only [addGate, List.getElem_map, List.getElem_modify]
      split <;> rfl

theorem flattenLeft_step {F : Forest} {v : Visit} (stack : List Visit) (f : Flat) (hv : v.node < F.objs.length) :
    flattenLeft F (flattenStep F v stack f).1 (flattenStep F v stack f).2 + 1 = flattenLeft F (v :: stack) f := by
  unfold flattenStep flattenLeft
  split
  · simp only [Flat.order_addBehind, List.length_cons]
    omega
  · split
    · simp only [Flat.nodes_addGate, List.length_cons]
      omega
    · rename_i hplace
      have hnew : v.node ∉ f.order.map Prod.fst := by
        intro hm
        obtain ⟨o, ho, hn⟩ := List.mem_map.mp hm
        have := List.findIdx?_eq_none_iff.mp hplace o ho
        simp [hn] at this
      have hmem : v.node ∈ Finset.range F.objs.length \ (f.order.map Prod.fst).toFinset := by
        rw [Finset.mem_sdiff, Finset.mem_range, List.mem_toFinset]
        exact ⟨hv, hnew⟩
      have hset : Finset.range F.objs.length \ ((f.order ++ [(v.node, v.parent.toList)]).map Prod.fst).toFinset =
          (Finset.range F.objs.length \ (f.order.map Prod.fst).toFinset).erase v.node := by
        ext x
        simp only [List.map_append, List.map_cons, List.map_nil, List.toFinset_append, List.toFinset_cons,
          List.toFinset_nil, Finset.mem_sdiff, Finset.mem_union, Finset.mem_erase, Finset.mem_insert,
          Finset.notMem_empty, or_false]
        tauto
      have hsum := Finset.add_sum_erase _ (fun u => (F.children u).length) hmem
      rw [hset, ← hsum]
      simp only [List.length_append, List.length_map, List.length_cons]
      omega

theorem flattenLoop_fuel {F : Forest} : ∀ (n k : ℕ) {stack : List Visit} {f : Flat}, FlatInv F stack f →
    flattenLeft F stack f ≤ n → flattenLoop F (n + k) stack f = flattenLoop F n stack f
  | 0, k, stack, f, _, hn => by
    have : stack = [] := List.eq_nil_of_length_eq_zero (by unfold flattenLeft at hn; omega)
    subst this
    cases k <;> rfl
  | n + 1, k, [], f, _, _ => by rw [Nat.add_right_comm]; rfl
  | n + 1, k, v :: stack, f, h, hn => by
    have hleft := flattenLeft_step stack f (h.stack_node v (by simp))
    rw [Nat.add_right_comm]
    exact flattenLoop_fuel n k h.step (by omega)

theorem flattenFuel_eq (F : Forest) :
    flattenLeft F (F.roots.map fun r => ⟨r, none, true⟩) {} = flattenFuel F := by
  have hlen : F.objs.map (fun o => o.2.length) = (List.range F.objs.length).map fun u => (F.children u).length := by
    apply List.ext_getElem
    · simp
    · intro i h1 h2
      have hi : i < F.objs.length := by simpa using h1
      simp [Forest.children, hi]
  unfold flattenLeft flattenFuel
  rw [hlen, List.length_map, List.map_nil, List.toFinset_nil, Finset.sdiff_empty]
  rfl

/-- **The walk is over after `flattenFuel` pops.** -/
theorem flatten_fuel (F : Forest) (k : ℕ) :
    flattenLoop F (flattenFuel F + k) (F.roots.map fun r => ⟨r, none, true⟩) {} = flatten F :=
  flattenLoop_fuel _ k (FlatInv.init F) (flattenFuel_eq F).le

end Psysmon
