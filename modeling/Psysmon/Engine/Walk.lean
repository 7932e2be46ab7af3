import Psysmon.Lib.Run
import Psysmon.Engine.Flatten
import Psysmon.Config.Legacy

/-!
# Psysmon.Engine.Walk — what `_flatten` schedules, gates and drops

* `WalkInv`: the loop invariant over stack, order, gates and the nodes met behind a non-ping parent; `WalkInv.step` is
  one pop, `WalkInv.ends` the whole loop.
* `flatten_exact`: the loop ends, and schedules the least set of nodes that contains the roots and the children of its
  ping nodes, each node once, with all its ping parents as its gate.
* `flatten_covers_iff`: which forests have no node that is dropped without a warning.
-/

namespace Psysmon

open Lib

/-! ### What should be scheduled -/

/-- Ping or ping6, by node number. -/
def Forest.isPing (F : Forest) (n : ℕ) : Bool := isPingType (F.node n).checkType

/-- A set of nodes with the roots and, for every ping node in it, the children of that node. -/
def Forest.Closed (F : Forest) (s : Set ℕ) : Prop :=
  (∀ r ∈ F.roots, r ∈ s) ∧ ∀ p ∈ s, F.isPing p = true → ∀ c ∈ F.children p, c ∈ s

/-- The nodes that ping parents lead to. -/
inductive Forest.Live (F : Forest) : ℕ → Prop
  | root {r : ℕ} (h : r ∈ F.roots) : F.Live r
  | child {p c : ℕ} (hp : F.Live p) (hping : F.isPing p = true) (hc : c ∈ F.children p) : F.Live c

theorem Forest.isLeast_live (F : Forest) : IsLeast {s | F.Closed s} {n | F.Live n} := by
  refine ⟨⟨fun r hr => .root hr, fun p hp hping c hc => .child hp hping hc⟩, fun s hs n hn => ?_⟩
  induction hn with
  | root h => exact hs.1 _ h
  | child _ hping hc ih => exact hs.2 _ ih hping _ hc

/-- The scheduled nodes, in order. -/
def Flat.nodes (f : Flat) : List ℕ := f.order.map Prod.fst

/-- The loop of `_flatten`, run to its end: from stack and tables to the final tables. -/
inductive FlattenEnds (F : Forest) : List Visit → Flat → Flat → Prop
  | done (f : Flat) : FlattenEnds F [] f f
  | pop {v : Visit} {stack : List Visit} {f g : Flat}
      (h : FlattenEnds F (flattenStep F v stack f).1 (flattenStep F v stack f).2 g) : FlattenEnds F (v :: stack) f g

theorem flattenEnds_loop {F : Forest} : ∀ (n : ℕ) {stack : List Visit} {f : Flat}, FlatInv F stack f →
    flattenLeft F stack f ≤ n → FlattenEnds F stack f (flattenLoop F n stack f)
  | n, [], f, _, _ => by cases n <;> exact .done f
  | 0, v :: stack, f, _, hn => by
    unfold flattenLeft at hn
    simp at hn
  | n + 1, v :: stack, f, h, hn => by
    have hleft := flattenLeft_step stack f (h.stack_node v (by simp))
    exact .pop (flattenEnds_loop n h.step (by omega))

/-- **The loop ends.** -/
theorem flattenEnds_flatten (F : Forest) :
    FlattenEnds F (F.roots.map fun r => ⟨r, none, true⟩) {} (flatten F) :=
  flattenEnds_loop _ (FlatInv.init F) (flattenFuel_eq F).le

/-! ### Places and gates -/

/-- Place `p` holds a ping node with child `n`. -/
def IsParent (F : Forest) (nodes : List ℕ) (p n : ℕ) : Prop :=
  ∃ m, nodes[p]? = some m ∧ F.isPing m = true ∧ n ∈ F.children m

theorem IsParent.append {F : Forest} {nodes : List ℕ} {p n : ℕ} (h : IsParent F nodes p n) (more : List ℕ) :
    IsParent F (nodes ++ more) p n := by
  obtain ⟨m, hm, hrest⟩ := h
  exact ⟨m, by rw [List.getElem?_append_left (List.getElem?_eq_some_iff.mp hm).1, hm], hrest⟩

/-- The gate with one more parent. -/
def gateWith (gate : List ℕ) : Option ℕ → List ℕ
  | none => gate
  | some p => if p ∈ gate then gate else gate ++ [p]

theorem mem_gateWith {gate : List ℕ} {p : Option ℕ} {q : ℕ} : q ∈ gateWith gate p ↔ q ∈ gate ∨ p = some q := by
  cases p with
  | none => simp [gateWith]
  | some p =>
    rw [gateWith, Option.some.injEq]
    split
    · rename_i h
      exact ⟨.inl, fun hq => hq.elim id fun hp => hp ▸ h⟩
    · rw [List.mem_append, List.mem_singleton, eq_comm]

theorem nodup_gateWith {gate : List ℕ} {p : Option ℕ} (h : gate.Nodup) : (gateWith gate p).Nodup := by
  cases p with
  | none => exact h
  | some p =>
    rw [gateWith]
    split
    · exact h
    · rename_i hp
      exact List.nodup_append.mpr ⟨h, by simp, fun a ha b hb => by
        rintro rfl
        exact hp (List.mem_singleton.mp hb ▸ ha)⟩

namespace Flat

theorem getElem?_addGate (f : Flat) (i : ℕ) (p : Option ℕ) (j : ℕ) : (f.addGate i p).order[j]? =
    if i = j then (f.order[j]?).map fun o => (o.1, gateWith o.2 p) else f.order[j]? := by
  cases p with
  | none =>
    simp [addGate, gateWith]
  | some p =>
    simp only [addGate, List.getElem?_modify, gateWith]
    split
    · rfl
    · simp

theorem place_eq_some {f : Flat} {n i : ℕ} (h : f.place n = some i) : f.nodes[i]? = some n := by
  obtain ⟨hi, hn, -⟩ := List.findIdx?_eq_some_iff_getElem.mp h
  rw [nodes, List.getElem?_map, List.getElem?_eq_getElem hi]
  simpa using hn

theorem place_eq_none {f : Flat} {n : ℕ} : f.place n = none ↔ n ∉ f.nodes := by
  rw [place, List.findIdx?_eq_none_iff, nodes, List.mem_map]
  constructor
  · rintro h ⟨o, ho, rfl⟩
    simpa using h o ho
  · intro h o ho
    simpa using fun hn => h ⟨o, ho, hn⟩

theorem mem_behind_addBehind {f : Flat} {n m : ℕ} :
    m ∈ (f.addBehind n).behindNonPing ↔ m ∈ f.behindNonPing ∨ m = n := by
  unfold addBehind
  split
  · rename_i h
    exact ⟨.inl, fun hm => hm.elim id fun hm => hm ▸ h⟩
  · rw [List.mem_append, List.mem_singleton]

theorem behind_addGate (f : Flat) (i : ℕ) (p : Option ℕ) : (f.addGate i p).behindNonPing = f.behindNonPing := by
  cases p <;> rfl

end Flat

/-! ### The invariant -/

/-- The loop invariant of `_flatten`. -/
structure WalkInv (F : Forest) (stack : List Visit) (f : Flat) : Prop where
  nodup : f.nodes.Nodup
  live : ∀ n ∈ f.nodes, F.Live n
  /-- A reachable entry is a root, or a child of the ping node at its parent's place. -/
  entry : ∀ v ∈ stack, v.reachable = true → (v.parent = none ∧ v.node ∈ F.roots) ∨
    ∃ p, v.parent = some p ∧ IsParent F f.nodes p v.node
  /-- An unreachable entry is a child of a scheduled node that is no ping. -/
  blocked : ∀ v ∈ stack, v.reachable = false → ∃ m ∈ f.nodes, F.isPing m = false ∧ v.node ∈ F.children m
  gate : ∀ o ∈ f.order, o.2.Nodup ∧ ∀ p ∈ o.2, IsParent F f.nodes p o.1
  behind : ∀ n ∈ f.behindNonPing, ∃ m ∈ f.nodes, F.isPing m = false ∧ n ∈ F.children m
  /-- No root is forgotten, -/
  roots : ∀ r ∈ F.roots, r ∈ f.nodes ∨ ⟨r, none, true⟩ ∈ stack
  /-- no edge below a ping node, -/
  edges : ∀ p n, IsParent F f.nodes p n → (∃ o ∈ f.order, o.1 = n ∧ p ∈ o.2) ∨ ⟨n, some p, true⟩ ∈ stack
  /-- and no edge below any other node. -/
  drops : ∀ m ∈ f.nodes, F.isPing m = false → ∀ c ∈ F.children m, c ∈ f.behindNonPing ∨ ⟨c, none, false⟩ ∈ stack

theorem WalkInv.init (F : Forest) : WalkInv F (F.roots.map fun r => ⟨r, none, true⟩) {} where
  nodup := List.nodup_nil
  live := by simp [Flat.nodes]
  entry v hv _ := by
    obtain ⟨r, hr, rfl⟩ := List.mem_map.mp hv
    exact .inl ⟨rfl, hr⟩
  blocked v hv h := by
    obtain ⟨r, -, rfl⟩ := List.mem_map.mp hv
    simp at h
  gate := by simp
  behind := by simp
  roots r hr := .inr (List.mem_map.mpr ⟨r, hr, rfl⟩)
  edges p n h := by
    obtain ⟨m, hm, -⟩ := h
    simp [Flat.nodes] at hm
  drops := by simp [Flat.nodes]

section Step

variable {F : Forest} {v : Visit} {stack : List Visit} {f : Flat}

/-- A stack entry is the popped one, or still there. -/
theorem mem_tail_of_ne {w : Visit} (h : w ∈ v :: stack) (hne : w ≠ v) : w ∈ stack :=
  (List.mem_cons.mp h).resolve_left hne

/-- An unreachable entry is noted down. -/
theorem WalkInv.pop_blocked (h : WalkInv F (v :: stack) f) (hv : v.reachable = false) :
    WalkInv F stack (f.addBehind v.node) := by
  have horder : (f.addBehind v.node).order = f.order := f.order_addBehind v.node
  have hnodes : (f.addBehind v.node).nodes = f.nodes := congrArg (List.map Prod.fst) horder
  have hne : ∀ {w : Visit}, w.reachable = true → w ≠ v := by
    rintro w hw rfl
    rw [hv] at hw
    exact absurd hw (by simp)
  refine ⟨?_, ?_, ?_, ?_, ?_, ?_, ?_, ?_, ?_⟩
  · exact hnodes ▸ h.nodup
  · exact hnodes ▸ h.live
  · exact hnodes ▸ fun w hw => h.entry w (List.mem_cons_of_mem _ hw)
  · exact hnodes ▸ fun w hw => h.blocked w (List.mem_cons_of_mem _ hw)
  · rw [horder, hnodes]
    exact h.gate
  · intro n hn
    rw [hnodes]
    rcases Flat.mem_behind_addBehind.mp hn with hn | rfl
    · exact h.behind n hn
    · exact h.blocked v (by simp) hv
  · intro r hr
    rw [hnodes]
    exact (h.roots r hr).imp_right fun hm => mem_tail_of_ne hm (hne rfl)
  · intro p n hp
    rw [hnodes] at hp
    rw [horder]
    exact (h.edges p n hp).imp_right fun hm => mem_tail_of_ne hm (hne rfl)
  · intro m hm hping c hc
    rw [hnodes] at hm
    rcases h.drops m hm hping c hc with hb | hs
    · exact .inl (Flat.mem_behind_addBehind.mpr (.inl hb))
    · rcases List.mem_cons.mp hs with rfl | hs
      · exact .inl (Flat.mem_behind_addBehind.mpr (.inr rfl))
      · exact .inr hs

/-- An entry for a node that is scheduled adds its parent to the gate. -/
theorem WalkInv.pop_seen (h : WalkInv F (v :: stack) f) (hv : v.reachable = true) {i : ℕ}
    (hi : f.place v.node = some i) : WalkInv F stack (f.addGate i v.parent) := by
  have hnodes : (f.addGate i v.parent).nodes = f.nodes := f.nodes_addGate i v.parent
  have hplace := Flat.place_eq_some hi
  have hmem : v.node ∈ f.nodes := List.mem_of_getElem? hplace
  -- the entry at each place keeps its node, and its gate up to the new parent
  have hgate : ∀ o ∈ (f.addGate i v.parent).order, ∃ o' ∈ f.order, o.1 = o'.1 ∧
      (o.2 = o'.2 ∨ (o.1 = v.node ∧ o.2 = gateWith o'.2 v.parent)) := by
    intro o ho
    obtain ⟨j, hj⟩ := List.mem_iff_getElem?.mp ho
    rw [Flat.getElem?_addGate] at hj
    split at hj
    · rename_i hij
      obtain ⟨o', ho', rfl⟩ := Option.map_eq_some_iff.mp hj
      refine ⟨o', List.mem_of_getElem? ho', rfl, .inr ⟨?_, rfl⟩⟩
      rw [Flat.nodes, hij, List.getElem?_map, ho'] at hplace
      exact Option.some.inj hplace
    · exact ⟨o, List.mem_of_getElem? hj, rfl, .inl rfl⟩
  have hkeep : ∀ o ∈ f.order, ∃ o' ∈ (f.addGate i v.parent).order, o'.1 = o.1 ∧ ∀ p ∈ o.2, p ∈ o'.2 := by
    intro o ho
    obtain ⟨j, hj⟩ := List.mem_iff_getElem?.mp ho
    by_cases hij : i = j
    · exact ⟨(o.1, gateWith o.2 v.parent), List.mem_of_getElem? (i := j) (by rw [Flat.getElem?_addGate, if_pos hij, hj]; rfl),
        rfl, fun p hp => mem_gateWith.mpr (.inl hp)⟩
    · exact ⟨o, List.mem_of_getElem? (i := j) (by rw [Flat.getElem?_addGate, if_neg hij, hj]), rfl, fun _ hp => hp⟩
  refine ⟨?_, ?_, ?_, ?_, ?_, ?_, ?_, ?_, ?_⟩
  · exact hnodes ▸ h.nodup
  · exact hnodes ▸ h.live
  · exact hnodes ▸ fun w hw => h.entry w (List.mem_cons_of_mem _ hw)
  · exact hnodes ▸ fun w hw => h.blocked w (List.mem_cons_of_mem _ hw)
  · intro o ho
    rw [hnodes]
    obtain ⟨o', ho', hn, hg | ⟨hvn, hg⟩⟩ := hgate o ho
    · rw [hg, hn]
      exact h.gate o' ho'
    · rw [hg]
      refine ⟨nodup_gateWith (h.gate o' ho').1, fun p hp => ?_⟩
      rcases mem_gateWith.mp hp with hp | hp
      · exact hn ▸ (h.gate o' ho').2 p hp
      · rcases h.entry v (by simp) hv with ⟨hnone, -⟩ | ⟨q, hq, hpar⟩
        · rw [hnone] at hp
          exact absurd hp (by simp)
        · rw [hq, Option.some.injEq] at hp
          exact hvn ▸ hp ▸ hpar
  · rw [Flat.behind_addGate, hnodes]
    exact h.behind
  · intro r hr
    rw [hnodes]
    rcases h.roots r hr with hm | hs
    · exact .inl hm
    · rcases List.mem_cons.mp hs with rfl | hs
      · exact .inl hmem
      · exact .inr hs
  · intro p n hp
    rw [hnodes] at hp
    rcases h.edges p n hp with ⟨o, ho, hn, hpo⟩ | hs
    · obtain ⟨o', ho', hn', hsub⟩ := hkeep o ho
      exact .inl ⟨o', ho', hn'.trans hn, hsub p hpo⟩
    · rcases List.mem_cons.mp hs with rfl | hs
      · -- the popped entry itself
        rw [Flat.nodes, List.getElem?_map] at hplace
        obtain ⟨o, ho, hn⟩ := Option.map_eq_some_iff.mp hplace
        exact .inl ⟨(o.1, gateWith o.2 (some p)),
          List.mem_of_getElem? (i := i) (by rw [Flat.getElem?_addGate, if_pos rfl, ho]; rfl), hn, mem_gateWith.mpr (.inr rfl)⟩
      · exact .inr hs
  · intro m hm hping c hc
    rw [hnodes] at hm
    rw [Flat.behind_addGate]
    refine (h.drops m hm hping c hc).imp_right fun hs => mem_tail_of_ne hs ?_
    rintro rfl
    exact absurd hv (by simp)

/-- A new node is appended, and its children pushed. -/
theorem WalkInv.pop_fresh (h : WalkInv F (v :: stack) f) (hv : v.reachable = true) (hnew : v.node ∉ f.nodes) :
    WalkInv F ((F.children v.node).map (fun c =>
        ⟨c, if F.isPing v.node then some f.order.length else none, F.isPing v.node⟩) ++ stack)
      { f with order := f.order ++ [(v.node, v.parent.toList)] } := by
  set f' : Flat := { f with order := f.order ++ [(v.node, v.parent.toList)] } with hf'
  have hnodes : f'.nodes = f.nodes ++ [v.node] := by simp [hf', Flat.nodes]
  have hsub : ∀ n ∈ f.nodes, n ∈ f'.nodes := fun n hn => hnodes ▸ List.mem_append_left _ hn
  have hlen : f.nodes.length = f.order.length := List.length_map _
  have hlive : F.Live v.node := by
    rcases h.entry v (by simp) hv with ⟨-, hr⟩ | ⟨p, -, m, hm, hping, hc⟩
    · exact .root hr
    · exact .child (h.live m (List.mem_of_getElem? hm)) hping hc
  have hself : f'.nodes[f.order.length]? = some v.node := by
    rw [hnodes, ← hlen, List.getElem?_append_right (le_refl _), Nat.sub_self]
    rfl
  -- a ping parent is one of before, or the new node
  have hparent : ∀ {p n : ℕ}, IsParent F f'.nodes p n →
      IsParent F f.nodes p n ∨ (p = f.order.length ∧ F.isPing v.node = true ∧ n ∈ F.children v.node) := by
    rintro p n ⟨m, hm, hping, hc⟩
    rw [hnodes, List.getElem?_append] at hm
    split at hm
    · exact .inl ⟨m, hm, hping, hc⟩
    · rename_i hp
      obtain ⟨hlt, rfl⟩ := List.getElem?_eq_some_iff.mp hm
      have : p - f.nodes.length = 0 := by simpa using hlt
      exact .inr ⟨by omega, by simpa using hping, by simpa using hc⟩
  refine ⟨?_, ?_, ?_, ?_, ?_, ?_, ?_, ?_, ?_⟩
  · rw [hnodes]
    exact List.nodup_append.mpr ⟨h.nodup, by simp, fun a ha b hb => by
      rintro rfl
      exact hnew (List.mem_singleton.mp hb ▸ ha)⟩
  · intro n hn
    rw [hnodes] at hn
    rcases List.mem_append.mp hn with hn | hn
    · exact h.live n hn
    · exact List.mem_singleton.mp hn ▸ hlive
  · intro w hw hr
    rcases List.mem_append.mp hw with hw | hw
    · obtain ⟨c, hc, rfl⟩ := List.mem_map.mp hw
      have hping : F.isPing v.node = true := hr
      exact .inr ⟨f.order.length, by simp [hping], v.node, hself, hping, hc⟩
    · rcases h.entry w (List.mem_cons_of_mem _ hw) hr with hroot | ⟨p, hp, hpar⟩
      · exact .inl hroot
      · exact .inr ⟨p, hp, hnodes ▸ hpar.append _⟩
  · intro w hw hr
    rcases List.mem_append.mp hw with hw | hw
    · obtain ⟨c, hc, rfl⟩ := List.mem_map.mp hw
      exact ⟨v.node, hnodes ▸ by simp, hr, hc⟩
    · obtain ⟨m, hm, hrest⟩ := h.blocked w (List.mem_cons_of_mem _ hw) hr
      exact ⟨m, hsub m hm, hrest⟩
  · intro o ho
    rcases List.mem_append.mp ho with ho | ho
    · exact ⟨(h.gate o ho).1, fun p hp => hnodes ▸ ((h.gate o ho).2 p hp).append _⟩
    · rw [List.mem_singleton.mp ho]
      rcases h.entry v (by simp) hv with ⟨hnone, -⟩ | ⟨p, hp, hpar⟩
      · simp [hnone]
      · refine ⟨by simp [hp], fun q hq => ?_⟩
        rw [hp, Option.toList_some, List.mem_singleton] at hq
        exact hq ▸ hnodes ▸ hpar.append _
  · intro n hn
    obtain ⟨m, hm, hrest⟩ := h.behind n hn
    exact ⟨m, hsub m hm, hrest⟩
  · intro r hr
    rcases h.roots r hr with hm | hs
    · exact .inl (hsub r hm)
    · rcases List.mem_cons.mp hs with rfl | hs
      · exact .inl (hnodes ▸ by simp)
      · exact .inr (List.mem_append_right _ hs)
  · intro p n hp
    rcases hparent hp with hp | ⟨rfl, hping, hc⟩
    · rcases h.edges p n hp with ⟨o, ho, hrest⟩ | hs
      · exact .inl ⟨o, List.mem_append_left _ ho, hrest⟩
      · rcases List.mem_cons.mp hs with rfl | hs
        · exact .inl ⟨(n, [p]), List.mem_append_right _ (by simp), rfl, by simp⟩
        · exact .inr (List.mem_append_right _ hs)
    · exact .inr (List.mem_append_left _ (List.mem_map.mpr ⟨n, hc, by simp [hping]⟩))
  · intro m hm hping c hc
    rw [hnodes] at hm
    rcases List.mem_append.mp hm with hm | hm
    · rcases h.drops m hm hping c hc with hb | hs
      · exact .inl hb
      · rcases List.mem_cons.mp hs with rfl | hs
        · exact absurd hv (by simp)
        · exact .inr (List.mem_append_right _ hs)
    · obtain rfl := List.mem_singleton.mp hm
      exact .inr (List.mem_append_left _ (List.mem_map.mpr ⟨c, hc, by simp [hping]⟩))

/-- **One pop keeps the invariant.** -/
theorem WalkInv.step (h : WalkInv F (v :: stack) f) :
    WalkInv F (flattenStep F v stack f).1 (flattenStep F v stack f).2 := by
  unfold flattenStep
  split
  · rename_i hv
    exact h.pop_blocked hv
  · rename_i hv
    have hv : v.reachable = true := by simpa using hv
    split
    · rename_i i hi
      exact h.pop_seen hv hi
    · rename_i hnone
      exact h.pop_fresh hv (Flat.place_eq_none.mp hnone)

end Step

theorem WalkInv.ends {F : Forest} {stack : List Visit} {f g : Flat} (h : WalkInv F stack f)
    (he : FlattenEnds F stack f g) : WalkInv F [] g := by
  induction he with
  | done f => exact h
  | pop _ ih => exact ih h.step

theorem walkInv_flatten (F : Forest) : WalkInv F [] (flatten F) := (WalkInv.init F).ends (flattenEnds_flatten F)

/-! ### What is scheduled -/

theorem mem_nodes_flatten {F : Forest} {n : ℕ} : n ∈ (flatten F).nodes ↔ F.Live n := by
  have h := walkInv_flatten F
  refine ⟨h.live n, fun hn => ?_⟩
  induction hn with
  | root hr => exact (h.roots _ hr).resolve_right (by simp)
  | child _ hping hc ih =>
    obtain ⟨p, hp⟩ := List.mem_iff_getElem?.mp ih
    obtain ⟨o, ho, rfl, -⟩ := (h.edges p _ ⟨_, hp, hping, hc⟩).resolve_right (by simp)
    exact List.mem_map_of_mem ho

/-- **`_flatten` ends and schedules exactly what ping parents lead to**: every node once, with the places of its ping
parents as its gate. -/
theorem flatten_exact (F : Forest) :
    FlattenEnds F (F.roots.map fun r => ⟨r, none, true⟩) {} (flatten F) ∧
    (flatten F).nodes.Nodup ∧
    IsLeast {s | F.Closed s} {n | n ∈ (flatten F).nodes} ∧
    ∀ o ∈ (flatten F).order, ∃ parents : List ℕ,
      o.2.map (fun p => (flatten F).nodes[p]?) = parents.map some ∧ parents.Nodup ∧
      ∀ m, m ∈ parents ↔ m ∈ (flatten F).nodes ∧ F.isPing m = true ∧ o.1 ∈ F.children m := by
  have h := walkInv_flatten F
  refine ⟨flattenEnds_flatten F, h.nodup, ?_, fun o ho => ?_⟩
  · have : {n | n ∈ (flatten F).nodes} = {n | F.Live n} := Set.ext fun n => mem_nodes_flatten
    exact this ▸ F.isLeast_live
  · obtain ⟨hnd, hpar⟩ := h.gate o ho
    have hsome : ∀ p ∈ o.2, ∃ m, (flatten F).nodes[p]? = some m := fun p hp => (hpar p hp).imp fun _ hm => hm.1
    refine ⟨o.2.filterMap fun p => (flatten F).nodes[p]?, ?_, ?_, fun m => ?_⟩
    · rw [List.map_filterMap_some_eq_filter_map_isSome, List.filter_eq_self.mpr]
      intro x hx
      obtain ⟨p, hp, rfl⟩ := List.mem_map.mp hx
      obtain ⟨m, hm⟩ := hsome p hp
      rw [hm]
      rfl
    · refine List.Nodup.filterMap ?_ hnd
      intro p q m hp hq
      have hp' := List.getElem?_eq_some_iff.mp hp
      have hq' := List.getElem?_eq_some_iff.mp hq
      exact h.nodup.getElem_inj_iff.mp (hp'.2.trans hq'.2.symm)
    · rw [List.mem_filterMap]
      constructor
      · rintro ⟨p, hp, hm⟩
        obtain ⟨m', hm', hping, hc⟩ := hpar p hp
        obtain rfl : m' = m := Option.some.inj (hm'.symm.trans hm)
        exact ⟨List.mem_of_getElem? hm, hping, hc⟩
      · rintro ⟨hm, hping, hc⟩
        obtain ⟨p, hp⟩ := List.mem_iff_getElem?.mp hm
        obtain ⟨o', ho', hn, hpo⟩ := (h.edges p _ ⟨m, hp, hping, hc⟩).resolve_right (by simp)
        obtain rfl : o' = o := List.inj_on_of_nodup_map h.nodup ho' ho hn
        exact ⟨p, hpo, hp⟩

/-! ### What is dropped -/

/-- The nodes that child edges lead to. -/
inductive Forest.Linked (F : Forest) : ℕ → Prop
  | root {r : ℕ} (h : r ∈ F.roots) : F.Linked r
  | child {p c : ℕ} (hp : F.Linked p) (hc : c ∈ F.children p) : F.Linked c

/-- A node that is not scheduled, directly behind a scheduled node that is no ping. -/
def Forest.Behind (F : Forest) (n : ℕ) : Prop :=
  ¬ F.Live n ∧ ∃ p, F.Live p ∧ F.isPing p = false ∧ n ∈ F.children p

/-- The warning that names a node. -/
def Forest.warning (F : Forest) (n : ℕ) : SchedWarning := .behindNonPing (F.node n).hostname (F.node n).checkType

/-- **The warnings of `_flatten`**: one for every node directly behind a scheduled non-ping node. -/
theorem mem_flattenWarnings {F : Forest} {w : SchedWarning} :
    w ∈ flattenWarnings F ↔ ∃ n, F.Behind n ∧ F.warning n = w := by
  have h := walkInv_flatten F
  simp only [flattenWarnings, List.mem_map, List.mem_filter, decide_eq_true_eq, Flat.place_eq_none, mem_nodes_flatten]
  constructor
  · rintro ⟨n, ⟨hb, hn⟩, rfl⟩
    obtain ⟨p, hp, hping, hc⟩ := h.behind n hb
    exact ⟨n, ⟨hn, p, h.live p hp, hping, hc⟩, rfl⟩
  · rintro ⟨n, ⟨hn, p, hp, hping, hc⟩, rfl⟩
    exact ⟨n, ⟨(h.drops p (mem_nodes_flatten.mpr hp) hping n hc).resolve_right (by simp), hn⟩, rfl⟩

/-- **No node is dropped silently iff every dropped node shares its hostname and type with one directly behind a
scheduled non-ping node**, as it does if it is such a node itself. -/
theorem flatten_covers_iff (F : Forest) :
    (∀ n, F.Linked n → n ∈ (flatten F).nodes ∨ F.warning n ∈ flattenWarnings F) ↔
      ∀ n, F.Linked n → F.Live n ∨ ∃ m, F.Behind m ∧ (F.node m).hostname = (F.node n).hostname ∧
        (F.node m).checkType = (F.node n).checkType := by
  refine forall_congr' fun n => imp_congr_right fun _ => or_congr mem_nodes_flatten ?_
  rw [mem_flattenWarnings]
  refine exists_congr fun m => and_congr_right fun _ => ?_
  rw [Forest.warning, Forest.warning, SchedWarning.behindNonPing.injEq]

/-- A mail host with a router behind it, and a web server behind the router. -/
def mailFirst : Text := "mail smtp m \x7b\n gw ping g \x7b\n  web tcp 80 w\n \x7d\n\x7d\n".toList

/-- **A server two levels behind a mail host is dropped without a word.** -/
theorem dropped_silently : ∃ r, @Legacy.parse Python.ascii mailFirst 2 = .ok r ∧ r.roots.toForest.Linked 2 ∧
    2 ∉ (flatten r.roots.toForest).nodes ∧ r.roots.toForest.warning 2 ∉ flattenWarnings r.roots.toForest := by
  have hrun : (@Legacy.parse Python.ascii mailFirst 2).toOption.map (fun r =>
      (decide (0 ∈ r.roots.toForest.roots ∧ 1 ∈ r.roots.toForest.children 0 ∧ 2 ∈ r.roots.toForest.children 1),
        decide (2 ∈ (flatten r.roots.toForest).nodes ∨ r.roots.toForest.warning 2 ∈ flattenWarnings r.roots.toForest))) =
      some (true, false) := by
    decide +kernel
  obtain ⟨r, hr, hq⟩ := Option.map_eq_some_iff.mp hrun
  simp only [Prod.mk.injEq, decide_eq_true_eq, decide_eq_false_iff_not, not_or] at hq
  obtain ⟨⟨h0, h1, h2⟩, hn, hw⟩ := hq
  exact ⟨r, Lib.toOption_eq_some.mp hr, .child (.child (.root h0) h1) h2, hn, hw⟩

end Psysmon
