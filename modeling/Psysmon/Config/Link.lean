import Psysmon.Config.Graph
import Psysmon.Lib.Acyclic

/-!
# Psysmon.Config.Link — what `_build_forest` makes of the declared `dep` edges

`Resolved` reads the declared edges one by one, in declaration order, and keeps those that name an object and close no
cycle with the ones kept before.  `_build_forest` does that (`resolved_linked`), with a graph search deciding each edge
on the half-built graph; the global facts follow from `Resolved` alone.

* `buildForest_links`: the search ends; the graph is acyclic and duplicate-free, the roots are the objects without a
  kept edge, and every object is reachable from them.
-/

namespace Psysmon.Modern

open Lib Relation

/-! ### Keeping edges one by one -/

/-- The number of the object with this name. -/
def indexOf (objects : List Obj) (name : Text) : Option ℕ := objects.findIdx? (·.name = name)

theorem indexOf_lt {objects : List Obj} {name : Text} {p : ℕ} (h : indexOf objects name = some p) :
    p < objects.length :=
  (List.findIdx?_eq_some_iff_findIdx_eq.mp h).1

/-- The name of object `p`. -/
def nameAt (objects : List Obj) (p : ℕ) : Text := (objects[p]?.map Obj.name).getD []

theorem nameAt_indexOf {objects : List Obj} {name : Text} {p : ℕ} (h : indexOf objects name = some p) :
    nameAt objects p = name := by
  obtain ⟨hlt, hname, -⟩ := List.findIdx?_eq_some_iff_getElem.mp h
  rw [nameAt, List.getElem?_eq_getElem hlt]
  simpa using hname

/-- The declared edges `(object, dep name)`, in declaration order. -/
def declaredOf (rest : List (Obj × ℕ)) : List (ℕ × Text) := rest.flatMap fun x => x.1.deps.map (x.2, ·)

def declared (objects : List Obj) : List (ℕ × Text) := declaredOf objects.zipIdx

/-- The kept edges `(parent, child)` as a graph. -/
abbrev EdgeIn (kept : List (ℕ × ℕ)) (p c : ℕ) : Prop := (p, c) ∈ kept

/-- The declared edge of object `i` to `dep` is dropped: the name is unknown, or its object is `i` or below it. -/
def Dropped (objects : List Obj) (kept : List (ℕ × ℕ)) (i : ℕ) (dep : Text) : Prop :=
  ∀ p, indexOf objects dep = some p → ReflTransGen (EdgeIn kept) i p

/-- From the edges `kept` so far, the declared edges lead to the edges `kept'`. -/
inductive Resolved (objects : List Obj) : List (ℕ × Text) → List (ℕ × ℕ) → List (ℕ × ℕ) → Prop
  | nil (kept : List (ℕ × ℕ)) : Resolved objects [] kept kept
  | drop {i : ℕ} {dep : Text} {ds : List (ℕ × Text)} {kept kept' : List (ℕ × ℕ)} (hd : Dropped objects kept i dep)
    (h : Resolved objects ds kept kept') : Resolved objects ((i, dep) :: ds) kept kept'
  | keep {i p : ℕ} {dep : Text} {ds : List (ℕ × Text)} {kept kept' : List (ℕ × ℕ)}
    (hp : indexOf objects dep = some p) (hd : ¬ Dropped objects kept i dep)
    (h : Resolved objects ds (kept ++ [(p, i)]) kept') : Resolved objects ((i, dep) :: ds) kept kept'

namespace Resolved

variable {objects : List Obj} {ds ds' : List (ℕ × Text)} {kept kept' kept'' : List (ℕ × ℕ)}

theorem append (h : Resolved objects ds kept kept') (h' : Resolved objects ds' kept' kept'') :
    Resolved objects (ds ++ ds') kept kept'' := by
  induction h with
  | nil => exact h'
  | drop hd _ ih => exact .drop hd (ih h')
  | keep hp hd _ ih => exact .keep hp hd (ih h')

theorem acyclic (h : Resolved objects ds kept kept') (hk : Acyclic (EdgeIn kept)) : Acyclic (EdgeIn kept') := by
  induction h with
  | nil => exact hk
  | drop _ _ ih => exact ih hk
  | @keep i p dep ds kept kept' hp hd _ ih =>
    refine ih ?_
    have hpi : ¬ ReflTransGen (EdgeIn kept) i p := fun hr => hd fun q hq => by
      rw [hp] at hq
      exact Option.some.inj hq ▸ hr
    have hadd : EdgeIn (kept ++ [(p, i)]) = addEdge (EdgeIn kept) p i := by
      funext a b
      simp [addEdge]
    rw [hadd]
    exact hk.addEdge hpi

/-- The kept edges are among the declared ones. -/
theorem sublist (h : Resolved objects ds kept kept') : ∃ new, kept' = kept ++ new ∧
    (new.map fun e => (e.2, nameAt objects e.1)).Sublist ds ∧ ∀ e ∈ new, e.1 < objects.length := by
  induction h with
  | nil kept => exact ⟨[], by rw [List.append_nil], List.nil_sublist [], by simp⟩
  | drop _ _ ih =>
    obtain ⟨new, hnew, hsub, hlt⟩ := ih
    exact ⟨new, hnew, hsub.cons _, hlt⟩
  | @keep i p dep ds kept kept' hp _ _ ih =>
    obtain ⟨new, hnew, hsub, hlt⟩ := ih
    refine ⟨(p, i) :: new, by rw [hnew, List.append_assoc, List.singleton_append], ?_, ?_⟩
    · rw [List.map_cons, nameAt_indexOf hp]
      exact hsub.cons_cons _
    · intro e he
      rcases List.mem_cons.mp he with rfl | he
      · exact indexOf_lt hp
      · exact hlt e he

end Resolved

/-! ### The linking loop keeps edges one by one -/

/-- The children of every object are the ends of its kept edges, in the order in which they were kept. -/
def Links.Shows (L : Links) (kept : List (ℕ × ℕ)) : Prop :=
  ∀ p, L.children p = (kept.filter fun e => e.1 = p).map Prod.snd

theorem Links.Shows.mem {L : Links} {kept : List (ℕ × ℕ)} (h : L.Shows kept) {p c : ℕ} :
    c ∈ L.children p ↔ (p, c) ∈ kept := by
  rw [h p, List.mem_map]
  constructor
  · rintro ⟨⟨a, b⟩, he, rfl⟩
    obtain ⟨hmem, ha⟩ := List.mem_filter.mp he
    obtain rfl : a = p := by simpa using ha
    exact hmem
  · intro hmem
    exact ⟨(p, c), List.mem_filter.mpr ⟨hmem, by simp⟩, rfl⟩

theorem Links.Shows.link {L : Links} {kept : List (ℕ × ℕ)} (h : L.Shows kept) (p i : ℕ) :
    (L.link p i).Shows (kept ++ [(p, i)]) := by
  intro q
  rw [List.filter_append, List.map_append, ← h q]
  by_cases hq : q = p
  · subst hq
    simp [Links.link]
  · simp [Links.link, hq, Ne.symm hq]

section Reaches

variable {L : Links} {n start : ℕ}

theorem Links.Bounded.mem_range (h : L.Bounded n) : ∀ u ∈ Finset.range n, ∀ v ∈ L.children u, v ∈ Finset.range n :=
  fun u _ v hv => Finset.mem_range.mpr (h.children u v hv)

theorem Links.searchFuel_le (L : Links) (n start : ℕ) :
    searchFuel L.children (Finset.range n) [start] [] ≤ L.fuel n := by
  simp only [searchFuel, Links.fuel, List.toFinset_nil, Finset.sdiff_empty, List.length_singleton]
  omega

theorem mem_range_of_mem_singleton (hs : start < n) : ∀ q ∈ [start], q ∈ Finset.range n := by
  intro q hq
  rw [List.mem_singleton.mp hq]
  exact Finset.mem_range.mpr hs

/-- The search of `_reaches`, without a bound, ends with the model's answer. -/
theorem Links.Bounded.searched_reaches (h : L.Bounded n) (hs : start < n) (target : ℕ) :
    Searched L.children (fun x => decide (x = target)) [start] [] (L.reaches n start target) :=
  searched_search h.mem_range _ _ _ (mem_range_of_mem_singleton hs) (L.searchFuel_le n start)

/-- `_reaches` decides whether the target is the start or below it. -/
theorem Links.Shows.reaches_iff {kept : List (ℕ × ℕ)} (h : L.Shows kept) (hb : L.Bounded n) (hs : start < n)
    (target : ℕ) : L.reaches n start target = true ↔ ReflTransGen (EdgeIn kept) start target := by
  have hedge : (fun a b => b ∈ L.children a) = EdgeIn kept := by
    funext a b
    exact propext h.mem
  refine (search_complete hb.mem_range (mem_range_of_mem_singleton hs) (L.searchFuel_le n start)).trans ?_
  unfold Reaches
  rw [hedge]
  constructor
  · rintro ⟨p, hp, q, hpq, hq⟩
    rw [List.mem_singleton.mp hp] at hpq
    exact of_decide_eq_true hq ▸ hpq
  · intro hst
    exact ⟨start, List.mem_singleton_self start, target, hst, decide_eq_true rfl⟩

end Reaches

/-- The `dep` edges of one object. -/
theorem resolved_linkDeps {objects : List Obj} {o : Obj} {i : ℕ} (hi : i < objects.length) (deps : List Text)
    {L : Links} {kept : List (ℕ × ℕ)} (hL : L.Shows kept) (hb : L.Bounded objects.length) :
    ∃ new, Resolved objects (deps.map (i, ·)) kept (kept ++ new) ∧
      (linkDeps objects o i deps L).val.1.Shows (kept ++ new) ∧
      (linkDeps objects o i deps L).val.1.roots = L.roots ∧
      ((linkDeps objects o i deps L).val.2 = true ↔ new ≠ []) ∧ ∀ e ∈ new, e.2 = i := by
  induction deps generalizing L kept with
  | nil =>
    refine ⟨[], ?_, ?_, rfl, by simp [linkDeps], by simp⟩
    · rw [List.append_nil]
      exact .nil kept
    · rw [List.append_nil]
      exact hL
  | cons dep deps ih =>
    rw [linkDeps]
    cases hdep : objects.findIdx? (·.name = dep) with
    | none =>
      obtain ⟨new, hres, hrest⟩ := ih hL hb
      refine ⟨new, .drop (fun p hp => ?_) hres, hrest⟩
      rw [indexOf, hdep] at hp
      cases hp
    | some p =>
      dsimp only
      cases hreach : L.reaches objects.length i p with
      | true =>
        obtain ⟨new, hres, hrest⟩ := ih hL hb
        refine ⟨new, .drop (fun q hq => ?_) hres, hrest⟩
        rw [indexOf, hdep] at hq
        rw [← Option.some.inj hq]
        exact (hL.reaches_iff hb hi p).mp hreach
      | false =>
        obtain ⟨new, hres, hshow, hroots, -, hchild⟩ := ih (hL.link p i) (hb.link hi p)
        have happ : kept ++ [(p, i)] ++ new = kept ++ ((p, i) :: new) := by
          rw [List.append_assoc, List.singleton_append]
        rw [happ] at hres hshow
        refine ⟨(p, i) :: new, .keep hdep (fun hd => ?_) hres, hshow, hroots, ?_, ?_⟩
        · have := (hL.reaches_iff hb hi p).mpr (hd p hdep)
          rw [hreach] at this
          cases this
        · exact ⟨fun _ => List.cons_ne_nil _ _, fun _ => rfl⟩
        · intro e he
          rcases List.mem_cons.mp he with rfl | he
          · rfl
          · exact hchild e he

/-- No kept edge makes `i` a child. -/
abbrev Unlinked (kept : List (ℕ × ℕ)) (i : ℕ) : Prop := ∀ e ∈ kept, e.2 ≠ i

/-- The loop over the objects. -/
theorem resolved_linkAll {objects : List Obj} (rest : List (Obj × ℕ)) (hrest : ∀ x ∈ rest, x.2 < objects.length)
    (hnd : (rest.map Prod.snd).Nodup) {L : Links} {kept : List (ℕ × ℕ)} (hL : L.Shows kept)
    (hb : L.Bounded objects.length) :
    ∃ new, Resolved objects (declaredOf rest) kept (kept ++ new) ∧ (linkAll objects rest L).val.Shows (kept ++ new) ∧
      (linkAll objects rest L).val.roots = L.roots ++ (rest.map Prod.snd).filter (fun i => decide (Unlinked new i)) ∧
      ∀ e ∈ new, e.2 ∈ rest.map Prod.snd := by
  induction rest generalizing L kept with
  | nil =>
    refine ⟨[], ?_, ?_, ?_, by simp⟩
    · rw [List.append_nil]
      exact .nil kept
    · rw [List.append_nil]
      exact hL
    · exact (List.append_nil _).symm
  | cons x rest ih =>
    obtain ⟨o, i⟩ := x
    have hi : i < objects.length := hrest (o, i) (by simp)
    rw [List.map_cons, List.nodup_cons] at hnd
    obtain ⟨new₁, hres₁, hshow₁, hroots₁, hlinked, hchild₁⟩ :=
      resolved_linkDeps (o := o) hi o.deps hL hb
    have hb₁ : (linkDeps objects o i o.deps L).val.1.Bounded objects.length := bounded_linkDeps hi o.deps hb
    have hrest' : ∀ y ∈ rest, y.2 < objects.length := fun y hy => hrest y (by simp [hy])
    -- the edges of `i` do not touch the objects after it
    have hothers (new₂ : List (ℕ × ℕ)) : (rest.map Prod.snd).filter (fun j => decide (Unlinked (new₁ ++ new₂) j)) =
        (rest.map Prod.snd).filter (fun j => decide (Unlinked new₂ j)) := by
      refine List.filter_congr fun j hj => decide_eq_decide.mpr ⟨fun h e he => h e (by simp [he]), fun h e he => ?_⟩
      rcases List.mem_append.mp he with he | he
      · rw [hchild₁ e he]
        rintro rfl
        exact hnd.1 hj
      · exact h e he
    have hself (new₂ : List (ℕ × ℕ)) (h₂ : ∀ e ∈ new₂, e.2 ∈ rest.map Prod.snd) :
        Unlinked (new₁ ++ new₂) i ↔ new₁ = [] := by
      constructor
      · intro h
        refine List.eq_nil_iff_forall_not_mem.mpr fun e he => ?_
        exact h e (by simp [he]) (hchild₁ e he)
      · rintro rfl e he rfl
        exact hnd.1 (h₂ e he)
    let L₁ : Links := if (linkDeps objects o i o.deps L).val.2 then (linkDeps objects o i o.deps L).val.1
      else { (linkDeps objects o i o.deps L).val.1 with roots := (linkDeps objects o i o.deps L).val.1.roots ++ [i] }
    have hchildren : L₁.children = (linkDeps objects o i o.deps L).val.1.children := by
      dsimp only [L₁]
      split <;> rfl
    have hroots : L₁.roots = L.roots ++ if new₁ = [] then [i] else [] := by
      dsimp only [L₁]
      split
      · rename_i hflag
        rw [if_neg (hlinked.mp hflag), List.append_nil, hroots₁]
      · rename_i hflag
        rw [if_pos (not_not.mp (mt hlinked.mpr hflag)), hroots₁]
    have hb' : L₁.Bounded objects.length := by
      refine ⟨fun p c hc => hb₁.children p c (by rwa [hchildren] at hc), fun r hr => ?_⟩
      rw [hroots] at hr
      rcases List.mem_append.mp hr with hr | hr
      · exact hb.roots r hr
      · split at hr
        · exact List.mem_singleton.mp hr ▸ hi
        · cases hr
    obtain ⟨new₂, hres₂, hshow₂, hroots₂, hchild₂⟩ :=
      ih hrest' hnd.2 (fun p => by rw [hchildren]; exact hshow₁ p : L₁.Shows (kept ++ new₁)) hb'
    rw [List.append_assoc] at hres₂ hshow₂
    refine ⟨new₁ ++ new₂, hres₁.append hres₂, hshow₂, ?_, ?_⟩
    · have hval : (linkAll objects ((o, i) :: rest) L).val = (linkAll objects rest L₁).val := rfl
      rw [hval, hroots₂, hroots, List.map_cons, List.filter_cons, hothers, List.append_assoc]
      congr 1
      by_cases hnew : new₁ = []
      · rw [if_pos hnew, if_pos (decide_eq_true ((hself new₂ hchild₂).mpr hnew))]
        rfl
      · rw [if_neg hnew, if_neg fun h => hnew ((hself new₂ hchild₂).mp (of_decide_eq_true h))]
        rfl
    · intro e he
      rcases List.mem_append.mp he with he | he
      · rw [hchild₁ e he]
        exact List.mem_cons_self
      · exact List.mem_cons_of_mem i (hchild₂ e he)

/-- **The edges of `_build_forest`** are the declared ones, kept one by one. -/
theorem resolved_linked (objects : List Obj) : ∃ kept, Resolved objects (declared objects) [] kept ∧
    (linked objects).val.Shows kept ∧
    (linked objects).val.roots = (List.range objects.length).filter (fun i => decide (Unlinked kept i)) := by
  have hidx : objects.zipIdx.map Prod.snd = List.range objects.length := by
    rw [List.zipIdx_map_snd, List.range_eq_range']
  have hempty : ({} : Links).Shows [] := fun _ => rfl
  have hbounded : ({} : Links).Bounded objects.length := ⟨by simp, by simp⟩
  obtain ⟨kept, hres, hshow, hroots, -⟩ := resolved_linkAll objects.zipIdx
    (fun x hx => by simpa using (List.mem_zipIdx hx).2.1) (by rw [hidx]; exact List.nodup_range) hempty hbounded
  refine ⟨kept, hres, hshow, ?_⟩
  rw [hidx] at hroots
  exact hroots

/-! ### The graph -/

theorem mem_declared {objects : List Obj} {i : ℕ} {dep : Text} (h : (i, dep) ∈ declared objects) :
    i < objects.length := by
  obtain ⟨x, hx, hmem⟩ := List.mem_flatMap.mp h
  obtain ⟨d, -, heq⟩ := List.mem_map.mp hmem
  rw [← (Prod.mk.inj heq).1]
  simpa using (List.mem_zipIdx hx).2.1

theorem declared_nodup {objects : List Obj} (hd : ∀ o ∈ objects, o.deps.Nodup) : (declared objects).Nodup := by
  refine List.nodup_flatMap.mpr ⟨fun x hx => ?_, ?_⟩
  · refine (hd x.1 ?_).map fun a b hab => (Prod.mk.inj hab).2
    have := List.mem_map_of_mem (f := Prod.fst) hx
    rwa [List.zipIdx_map_fst] at this
  · -- edges of different objects differ in their first component
    have hidx : (objects.zipIdx.map Prod.snd).Nodup := by
      rw [List.zipIdx_map_snd]
      exact List.nodup_range'
    refine (List.pairwise_map.mp hidx).imp fun {x y} hne => ?_
    intro e hx hy
    obtain ⟨a, -, rfl⟩ := List.mem_map.mp hx
    obtain ⟨b, -, heq⟩ := List.mem_map.mp hy
    exact hne (Prod.mk.inj heq).1.symm

/-- What the kept edges of the declared ones are like. -/
theorem Resolved.kept_spec {objects : List Obj} {kept : List (ℕ × ℕ)} (h : Resolved objects (declared objects) [] kept) :
    (∀ e ∈ kept, e.1 < objects.length ∧ e.2 < objects.length) ∧
      ((∀ o ∈ objects, o.deps.Nodup) → kept.Nodup) ∧ Acyclic (EdgeIn kept) := by
  obtain ⟨new, hnew, hsub, hlt⟩ := h.sublist
  obtain rfl : kept = new := hnew
  have hempty : Acyclic (EdgeIn []) := by
    intro a ha
    obtain ⟨b, hab, -⟩ := TransGen.head'_iff.mp ha
    cases hab
  refine ⟨fun e he => ⟨hlt e he, ?_⟩, fun hd => ?_, h.acyclic hempty⟩
  · have hmem := hsub.subset (List.mem_map_of_mem (f := fun e : ℕ × ℕ => (e.2, nameAt objects e.1)) he)
    exact mem_declared hmem
  · exact ((declared_nodup hd).sublist hsub).of_map

theorem children_buildForest {rootName : Option Text} {rootLine : ℕ} {objects : List Obj} {p : ℕ}
    (hp : p < objects.length) :
    (buildForest rootName rootLine objects).val.children p = (linked objects).val.children p := by
  rw [Forest.children, objs_buildForest, graph, List.getElem?_map, List.getElem?_zipIdx,
    List.getElem?_eq_getElem hp]
  simp

/-- The forest of some objects shows the kept edges. -/
theorem kept_buildForest (rootName : Option Text) (rootLine : ℕ) (objects : List Obj) :
    let F := (buildForest rootName rootLine objects).val
    ∃ kept, Resolved objects (declared objects) [] kept ∧ Links.Shows ⟨F.children, F.roots⟩ kept ∧
      F.roots = (List.range objects.length).filter fun i => decide (Unlinked kept i) := by
  intro F
  obtain ⟨kept, hres, hshow, hroots⟩ := resolved_linked objects
  refine ⟨kept, hres, fun p => ?_, (roots_buildForest rootName rootLine objects).trans hroots⟩
  by_cases hp : p < objects.length
  · exact (children_buildForest hp).trans (hshow p)
  · have hout : F.objs[p]? = none := by
      rw [List.getElem?_eq_none_iff, objs_buildForest, graph, List.length_map, List.length_zipIdx]
      exact Nat.le_of_not_lt hp
    change F.children p = _
    rw [Forest.children, hout, List.filter_eq_nil_iff.mpr fun e he => ?_]
    · rfl
    · rw [decide_eq_true_eq]
      rintro rfl
      exact hp (hres.kept_spec.1 e he).1

theorem Links.Shows.nodup {L : Links} {kept : List (ℕ × ℕ)} (h : L.Shows kept) (hn : kept.Nodup) (p : ℕ) :
    (L.children p).Nodup := by
  rw [h p]
  refine List.Nodup.map_on (fun a ha b hb hab => ?_) (hn.filter _)
  have hap : a.1 = p := by simpa using (List.mem_filter.mp ha).2
  have hbp : b.1 = p := by simpa using (List.mem_filter.mp hb).2
  exact Prod.ext (hap.trans hbp.symm) hab

theorem mem_roots_iff {kept : List (ℕ × ℕ)} {n i : ℕ} :
    i ∈ (List.range n).filter (fun i => decide (Unlinked kept i)) ↔ i < n ∧ ∀ p, (p, i) ∉ kept := by
  rw [List.mem_filter, List.mem_range, decide_eq_true_eq]
  refine and_congr_right fun _ => ⟨fun h p hp => h (p, i) hp rfl, ?_⟩
  rintro h ⟨p, j⟩ he rfl
  exact h p he

/-- **`_build_forest`.**  For objects whose `dep` names are distinct, as `_build_node` leaves them: every search ends;
the edges are the declared ones without those whose target is unknown or reachable already from the object through the
edges kept before; no parent lists a child twice; the graph is acyclic; the roots are the objects without a kept edge;
and every object is reachable from them. -/
theorem buildForest_links (rootName : Option Text) (rootLine : ℕ) (objects : List Obj)
    (hdeps : ∀ o ∈ objects, o.deps.Nodup) :
    let F := (buildForest rootName rootLine objects).val
    let child (p c : ℕ) : Prop := c ∈ F.children p
    (∀ L : Links, L.Bounded objects.length → ∀ i < objects.length, ∀ p,
      Searched L.children (fun x => decide (x = p)) [i] [] (L.reaches objects.length i p)) ∧
    (∃ kept, Resolved objects (declared objects) [] kept ∧ (∀ p c, child p c ↔ (p, c) ∈ kept) ∧
      ∀ i, i ∈ F.roots ↔ i < objects.length ∧ ∀ p, (p, i) ∉ kept) ∧
    (∀ p, (F.children p).Nodup) ∧ Acyclic child ∧
    ∀ i < objects.length, ∃ r ∈ F.roots, ReflTransGen child r i := by
  intro F child
  obtain ⟨kept, hres, hshow, hroots⟩ := kept_buildForest rootName rootLine objects
  obtain ⟨hlt, hnodup, hacyclic⟩ := hres.kept_spec
  have hchild (p c : ℕ) : child p c ↔ (p, c) ∈ kept := hshow.mem
  have hroot (i : ℕ) : i ∈ F.roots ↔ i < objects.length ∧ ∀ p, (p, i) ∉ kept := by
    rw [hroots]
    exact mem_roots_iff
  have hedges : child = EdgeIn kept := funext fun p => funext fun c => propext (hchild p c)
  refine ⟨fun L hL i hi p => hL.searched_reaches hi p, ⟨kept, hres, hchild, hroot⟩, hshow.nodup (hnodup hdeps),
    hedges ▸ hacyclic, fun i hi => ?_⟩
  obtain ⟨r, hri, hr⟩ := hacyclic.exists_source
    (fun a b hab => Finset.mem_range.mpr (hlt (a, b) hab).1 : ∀ a b, EdgeIn kept a b → a ∈ Finset.range objects.length) i
  have hrlt : r < objects.length := by
    rcases ReflTransGen.cases_head hri with rfl | ⟨b, hrb, -⟩
    · exact hi
    · exact (hlt (r, b) hrb).1
  exact ⟨r, (hroot r).mpr ⟨hrlt, hr⟩, hedges ▸ hri⟩

/-- Two objects that depend on each other, one of them also on itself and on nothing known. -/
def mutualDeps : List Obj :=
  let node : Node := { hostname := "h".toList, checkType := .ping }
  [⟨"a".toList, node, ["b".toList, "a".toList, "x".toList], 1, []⟩, ⟨"b".toList, node, ["a".toList], 2, []⟩]

theorem buildForest_links_mutualDeps :
    let F := (buildForest none 0 mutualDeps).val
    F.objs.map Prod.snd = [[], [0]] ∧ F.roots = [1] ∧ Acyclic (fun p c => c ∈ F.children p) ∧
      ∀ i < 2, ∃ r ∈ F.roots, ReflTransGen (fun p c => c ∈ F.children p) r i := by
  intro F
  have h := buildForest_links none 0 mutualDeps (by decide)
  exact ⟨by decide +kernel, by decide +kernel, h.2.2.2.1, h.2.2.2.2⟩

end Psysmon.Modern
