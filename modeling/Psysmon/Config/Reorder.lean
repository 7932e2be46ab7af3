import Psysmon.Config.Inline
import Psysmon.Config.Link

/-!
# Psysmon.Config.Reorder — the order of objects and groups

Objects may name parents that come later, and groups may stand behind their members.  When the declared `dep` graph has no
cycle, nothing has to be dropped but unknown names, and the forest is told by the names alone (`mem_children_iff`,
`mem_roots_buildForest`); so another order of the same objects only numbers them differently (`Renumbers`).

* `Resolved.keeps`: an acyclic graph is kept whole.
* `renumbers_buildForest`: the objects in another order.
* `objects_interpretAll`, `groups_interpretAll`: behind the `set` statements, what a block declares does not depend on its
  place.
* `parse_reordered`: two configs that differ in the order of their blocks.
-/

namespace Psysmon.Modern

open Lib Relation Text

/-! ### Declared edges, by name -/

/-- Object `c` declares the known object `p` as a `dep`. -/
def DeclaredEdge (objects : List Obj) (p c : Text) : Prop :=
  (∃ o ∈ objects, o.name = p) ∧ ∃ o ∈ objects, o.name = c ∧ p ∈ o.deps

theorem DeclaredEdge.perm {objects objects' : List Obj} (h : objects'.Perm objects) :
    DeclaredEdge objects' = DeclaredEdge objects := by
  funext p c
  simp only [DeclaredEdge, h.mem_iff]

/-- Group defaults do not touch the graph. -/
theorem declaredEdge_map {f : Obj → Obj} (hname : ∀ o, (f o).name = o.name) (hdeps : ∀ o, (f o).deps = o.deps)
    (objects : List Obj) : DeclaredEdge (objects.map f) = DeclaredEdge objects := by
  funext p c
  simp only [DeclaredEdge, List.mem_map, exists_exists_and_eq_and, hname, hdeps]

theorem exists_indexOf {objects : List Obj} {name : Text} (h : ∃ o ∈ objects, o.name = name) :
    ∃ p, indexOf objects name = some p := by
  obtain ⟨o, ho, rfl⟩ := h
  refine Option.isSome_iff_exists.mp ?_
  rw [indexOf, List.findIdx?_isSome]
  exact List.any_eq_true.mpr ⟨o, ho, by simp⟩

theorem nameAt_of_getElem? {objects : List Obj} {i : ℕ} {o : Obj} (h : objects[i]? = some o) :
    nameAt objects i = o.name := by
  rw [nameAt, h]
  rfl

theorem exists_nameAt {objects : List Obj} {i : ℕ} (h : i < objects.length) :
    ∃ o, objects[i]? = some o ∧ o ∈ objects ∧ o.name = nameAt objects i :=
  ⟨objects[i], List.getElem?_eq_getElem h, List.getElem_mem h, (nameAt_of_getElem? (List.getElem?_eq_getElem h)).symm⟩

/-- Distinct names find their objects. -/
theorem indexOf_nameAt {objects : List Obj} (hn : (objects.map Obj.name).Nodup) {i : ℕ} (hi : i < objects.length) :
    indexOf objects (nameAt objects i) = some i := by
  obtain ⟨p, hp⟩ : ∃ p, indexOf objects (nameAt objects i) = some p := by
    obtain ⟨o, -, ho, hname⟩ := exists_nameAt hi
    exact exists_indexOf ⟨o, ho, hname⟩
  have hlt := indexOf_lt hp
  have hname := nameAt_indexOf hp
  obtain ⟨o, ho, -, hon⟩ := exists_nameAt hi
  obtain ⟨o', ho', -, hon'⟩ := exists_nameAt hlt
  have : (objects.map Obj.name)[p]? = (objects.map Obj.name)[i]? := by
    rw [List.getElem?_map, List.getElem?_map, ho, ho', Option.map_some, Option.map_some, hon, hon', hname]
  have hpi := (List.getElem?_inj (by simpa using hlt) hn).mp this
  rw [hp, hpi]

theorem mem_declared_iff {objects : List Obj} {i : ℕ} {dep : Text} :
    (i, dep) ∈ declared objects ↔ ∃ o, objects[i]? = some o ∧ dep ∈ o.deps := by
  simp only [declared, declaredOf, List.mem_flatMap, List.mem_map, Prod.exists, List.mem_zipIdx_iff_getElem?,
    Prod.mk.injEq]
  constructor
  · rintro ⟨o, j, ho, d, hd, rfl, rfl⟩
    exact ⟨o, ho, hd⟩
  · rintro ⟨o, ho, hd⟩
    exact ⟨o, i, ho, dep, hd, rfl, rfl⟩

/-- Of an acyclic graph every edge between known objects is kept. -/
theorem Resolved.keeps {objects : List Obj} {ds : List (ℕ × Text)} {kept kept' : List (ℕ × ℕ)}
    (h : Resolved objects ds kept kept') (hacyclic : Acyclic (DeclaredEdge objects))
    (hds : ∀ d ∈ ds, d ∈ declared objects)
    (hkept : ∀ p c, EdgeIn kept p c → DeclaredEdge objects (nameAt objects p) (nameAt objects c)) {p c : ℕ} :
    EdgeIn kept' p c ↔ EdgeIn kept p c ∨ ∃ dep, (c, dep) ∈ ds ∧ indexOf objects dep = some p := by
  -- a declared edge between two known objects
  have hedge {i q : ℕ} {dep : Text} (hd : (i, dep) ∈ declared objects) (hq : indexOf objects dep = some q) :
      DeclaredEdge objects (nameAt objects q) (nameAt objects i) := by
    obtain ⟨o, ho, hdep⟩ := mem_declared_iff.mp hd
    obtain ⟨o', -, ho', hname⟩ := exists_nameAt (indexOf_lt hq)
    refine ⟨⟨o', ho', hname⟩, o, List.mem_of_getElem? ho, (nameAt_of_getElem? ho).symm, ?_⟩
    rwa [nameAt_indexOf hq]
  induction h with
  | nil kept => simp
  | @drop i dep ds kept kept' hd _ ih =>
    have hmem : (i, dep) ∈ declared objects := hds _ (by simp)
    refine (ih (fun d hd => hds d (by simp [hd])) hkept).trans (or_congr_right ?_)
    refine exists_congr fun d => and_congr_left fun hp => ?_
    simp only [List.mem_cons, Prod.mk.injEq, iff_or_self]
    rintro ⟨rfl, rfl⟩
    -- the dropped edge would close a cycle
    refine absurd ?_ (hacyclic (nameAt objects p))
    exact TransGen.head' (hedge hmem hp) (ReflTransGen.lift (nameAt objects) hkept _ _ (hd p hp))
  | @keep i q dep ds kept kept' hq _ _ ih =>
    have hmem : (i, dep) ∈ declared objects := hds _ (by simp)
    have hkept₁ (a b : ℕ) (hab : EdgeIn (kept ++ [(q, i)]) a b) :
        DeclaredEdge objects (nameAt objects a) (nameAt objects b) := by
      rcases List.mem_append.mp hab with hab | hab
      · exact hkept a b hab
      · obtain ⟨rfl, rfl⟩ := Prod.mk.inj (List.mem_singleton.mp hab)
        exact hedge hmem hq
    refine (ih (fun d hd => hds d (by simp [hd])) hkept₁).trans ?_
    simp only [List.mem_append, List.mem_cons, List.not_mem_nil, or_false, Prod.mk.injEq]
    constructor
    · rintro ((h | ⟨rfl, rfl⟩) | ⟨d, hd, hp⟩)
      · exact .inl h
      · exact .inr ⟨dep, .inl ⟨rfl, rfl⟩, hq⟩
      · exact .inr ⟨d, .inr hd, hp⟩
    · rintro (h | ⟨d, ⟨rfl, rfl⟩ | hd, hp⟩)
      · exact .inl (.inl h)
      · exact .inl (.inr ⟨Option.some.inj (hp.symm.trans hq), rfl⟩)
      · exact .inr ⟨d, hd, hp⟩

/-- The kept edges of an acyclic graph, by name. -/
theorem kept_iff {objects : List Obj} {kept : List (ℕ × ℕ)} (h : Resolved objects (declared objects) [] kept)
    (hn : (objects.map Obj.name).Nodup) (hacyclic : Acyclic (DeclaredEdge objects)) {p c : ℕ} :
    (p, c) ∈ kept ↔ p < objects.length ∧ c < objects.length ∧
      DeclaredEdge objects (nameAt objects p) (nameAt objects c) := by
  refine (h.keeps hacyclic (fun _ hd => hd) (by simp)).trans ?_
  simp only [List.not_mem_nil, false_or]
  constructor
  · rintro ⟨dep, hd, hp⟩
    obtain ⟨o, ho, hdep⟩ := mem_declared_iff.mp hd
    obtain ⟨o', -, ho', hname⟩ := exists_nameAt (indexOf_lt hp)
    refine ⟨indexOf_lt hp, mem_declared hd, ⟨o', ho', hname⟩, o, List.mem_of_getElem? ho, ?_, ?_⟩
    · exact (nameAt_of_getElem? ho).symm
    · rwa [nameAt_indexOf hp]
  · rintro ⟨hp, hc, -, o, ho, hname, hdep⟩
    obtain ⟨i, hi, hio⟩ := List.getElem_of_mem ho
    have ho? : objects[i]? = some o := by rw [List.getElem?_eq_getElem hi, hio]
    have hic : i = c := by
      have h₁ := indexOf_nameAt hn hi
      rw [nameAt_of_getElem? ho?, hname, indexOf_nameAt hn hc] at h₁
      exact (Option.some.inj h₁).symm
    exact ⟨nameAt objects p, mem_declared_iff.mpr ⟨o, hic ▸ ho?, hdep⟩, indexOf_nameAt hn hp⟩

/-! ### Another order -/

/-- The forests are the same up to the numbers of the nodes and the order of siblings. -/
structure Renumbers (F F' : Forest) (σ : ℕ → ℕ) : Prop where
  bijOn : Set.BijOn σ (Set.Iio F.objs.length) (Set.Iio F'.objs.length)
  node : ∀ i < F.objs.length, F'.node (σ i) = F.node i
  children : ∀ i < F.objs.length, (F'.children (σ i)).Perm ((F.children i).map σ)
  roots : F'.roots.Perm (F.roots.map σ)

/-- The place in `objects'` of the object that has number `i` in `objects`. -/
def placeIn (objects objects' : List Obj) (i : ℕ) : ℕ := (indexOf objects' (nameAt objects i)).getD 0

section Place

variable {objects objects' : List Obj} (hperm : objects'.Perm objects) {i : ℕ}

include hperm in
theorem indexOf_placeIn (hi : i < objects.length) :
    indexOf objects' (nameAt objects i) = some (placeIn objects objects' i) := by
  obtain ⟨o, -, ho, hname⟩ := exists_nameAt hi
  obtain ⟨p, hp⟩ := exists_indexOf ⟨o, hperm.mem_iff.mpr ho, hname⟩
  rw [placeIn, hp, Option.getD_some]

include hperm in
theorem placeIn_lt (hi : i < objects.length) : placeIn objects objects' i < objects'.length :=
  indexOf_lt (indexOf_placeIn hperm hi)

include hperm in
theorem nameAt_placeIn (hi : i < objects.length) : nameAt objects' (placeIn objects objects' i) = nameAt objects i :=
  nameAt_indexOf (indexOf_placeIn hperm hi)

include hperm in
theorem placeIn_placeIn (hn : (objects.map Obj.name).Nodup) (hi : i < objects.length) :
    placeIn objects' objects (placeIn objects objects' i) = i := by
  rw [placeIn, nameAt_placeIn hperm hi, indexOf_nameAt hn hi, Option.getD_some]

end Place

section Forest

variable {objects : List Obj} (hn : (objects.map Obj.name).Nodup) (hacyclic : Acyclic (DeclaredEdge objects))
  (rootName : Option Text) (rootLine : ℕ)

theorem length_buildForest : (buildForest rootName rootLine objects).val.objs.length = objects.length := by
  rw [objs_buildForest, graph, List.length_map, List.length_zipIdx]

theorem node_buildForest {i : ℕ} {o : Obj} (h : objects[i]? = some o) :
    (buildForest rootName rootLine objects).val.node i = o.node := by
  rw [Forest.node, objs_buildForest, graph]
  simp [h]

include hn hacyclic in
theorem mem_children_iff {p c : ℕ} : c ∈ (buildForest rootName rootLine objects).val.children p ↔
    p < objects.length ∧ c < objects.length ∧ DeclaredEdge objects (nameAt objects p) (nameAt objects c) := by
  obtain ⟨kept, hres, hshow, -⟩ := kept_buildForest rootName rootLine objects
  exact hshow.mem.trans (kept_iff hres hn hacyclic)

include hn hacyclic in
theorem mem_roots_buildForest {i : ℕ} : i ∈ (buildForest rootName rootLine objects).val.roots ↔
    i < objects.length ∧ ∀ p, ¬ DeclaredEdge objects p (nameAt objects i) := by
  obtain ⟨kept, hres, -, hroots⟩ := kept_buildForest rootName rootLine objects
  rw [hroots, mem_roots_iff]
  refine and_congr_right fun hi => ⟨fun h p hp => ?_, fun h p hp => ?_⟩
  · obtain ⟨q, hq⟩ := exists_indexOf hp.1
    refine h q ((kept_iff hres hn hacyclic).mpr ⟨indexOf_lt hq, hi, ?_⟩)
    rwa [nameAt_indexOf hq]
  · exact h _ ((kept_iff hres hn hacyclic).mp hp).2.2

theorem nodup_roots_buildForest : (buildForest rootName rootLine objects).val.roots.Nodup := by
  obtain ⟨kept, -, -, hroots⟩ := kept_buildForest rootName rootLine objects
  rw [hroots]
  exact List.nodup_range.filter _

theorem nodup_children_buildForest (hdeps : ∀ o ∈ objects, o.deps.Nodup) (p : ℕ) :
    ((buildForest rootName rootLine objects).val.children p).Nodup := by
  obtain ⟨kept, hres, hshow, -⟩ := kept_buildForest rootName rootLine objects
  exact hshow.nodup (hres.kept_spec.2.1 hdeps) p

end Forest

/-- Two lists without repetitions, the second renumbered. -/
theorem perm_map_of_mem_iff {l l' : List ℕ} {σ τ : ℕ → ℕ} {n n' : ℕ} (hl : l.Nodup) (hl' : l'.Nodup)
    (hlt : ∀ i ∈ l, i < n) (hlt' : ∀ j ∈ l', j < n') (hτσ : ∀ i < n, τ (σ i) = i) (hτ : ∀ j < n', τ j < n)
    (hστ : ∀ j < n', σ (τ j) = j) (hmem : ∀ i < n, σ i ∈ l' ↔ i ∈ l) : l'.Perm (l.map σ) := by
  have hmap : (l.map σ).Nodup := by
    refine hl.map_on fun a ha b hb hab => ?_
    rw [← hτσ a (hlt a ha), ← hτσ b (hlt b hb), hab]
  refine (List.perm_ext_iff_of_nodup hl' hmap).mpr fun j => ?_
  rw [List.mem_map]
  constructor
  · intro hj
    have hj' := hlt' j hj
    refine ⟨τ j, (hmem _ (hτ j hj')).mp ?_, hστ j hj'⟩
    rwa [hστ j hj']
  · rintro ⟨i, hi, rfl⟩
    exact (hmem i (hlt i hi)).mpr hi

/-- **Another order of the objects.**  If their names are distinct and the declared graph has no cycle, the forest is the
same up to the numbers of the nodes and the order of siblings. -/
theorem renumbers_buildForest {objects objects' : List Obj} (hperm : objects'.Perm objects)
    (hn : (objects.map Obj.name).Nodup) (hdeps : ∀ o ∈ objects, o.deps.Nodup)
    (hacyclic : Acyclic (DeclaredEdge objects)) (rootName rootName' : Option Text) (rootLine rootLine' : ℕ) :
    Renumbers (buildForest rootName rootLine objects).val (buildForest rootName' rootLine' objects').val
      (placeIn objects objects') := by
  have hn' : (objects'.map Obj.name).Nodup := (hperm.map Obj.name).nodup_iff.mpr hn
  have hacyclic' : Acyclic (DeclaredEdge objects') := by rwa [DeclaredEdge.perm hperm]
  have hdeps' : ∀ o ∈ objects', o.deps.Nodup := fun o ho => hdeps o (hperm.mem_iff.mp ho)
  have hlt := fun {i} => placeIn_lt hperm (i := i)
  have hlt' := fun {i} => placeIn_lt hperm.symm (i := i)
  have hback := fun {i} => placeIn_placeIn hperm hn (i := i)
  have hback' := fun {i} => placeIn_placeIn hperm.symm hn' (i := i)
  refine ⟨?_, fun i hi => ?_, fun i hi => ?_, ?_⟩
  · rw [length_buildForest, length_buildForest]
    exact Set.InvOn.bijOn ⟨fun i hi => hback hi, fun i hi => hback' hi⟩ (fun i hi => hlt hi) (fun i hi => hlt' hi)
  · rw [length_buildForest] at hi
    obtain ⟨o, ho, hmem, hname⟩ := exists_nameAt hi
    obtain ⟨o', ho', hmem', hname'⟩ := exists_nameAt (hlt hi)
    rw [node_buildForest _ _ ho, node_buildForest _ _ ho']
    rw [nameAt_placeIn hperm hi, ← hname] at hname'
    rw [List.inj_on_of_nodup_map hn (hperm.mem_iff.mp hmem') hmem hname']
  · rw [length_buildForest] at hi
    refine perm_map_of_mem_iff (nodup_children_buildForest _ _ hdeps _) (nodup_children_buildForest _ _ hdeps' _)
      (fun c hc => ((mem_children_iff hn hacyclic _ _).mp hc).2.1)
      (fun c hc => ((mem_children_iff hn' hacyclic' _ _).mp hc).2.1)
      (fun _ => hback) (fun _ => hlt') (fun _ => hback') fun c hc => ?_
    rw [mem_children_iff hn hacyclic, mem_children_iff hn' hacyclic', DeclaredEdge.perm hperm,
      nameAt_placeIn hperm hi, nameAt_placeIn hperm hc]
    simp only [hi, hc, hlt hi, hlt hc, true_and]
  · refine perm_map_of_mem_iff (nodup_roots_buildForest _ _) (nodup_roots_buildForest _ _)
      (fun c hc => ((mem_roots_buildForest hn hacyclic _ _).mp hc).1)
      (fun c hc => ((mem_roots_buildForest hn' hacyclic' _ _).mp hc).1)
      (fun _ => hback) (fun _ => hlt') (fun _ => hback') fun c hc => ?_
    rw [mem_roots_buildForest hn hacyclic, mem_roots_buildForest hn' hacyclic', DeclaredEdge.perm hperm,
      nameAt_placeIn hperm hc]
    simp only [hc, hlt hc, true_and]

/-! ### Blocks and variables -/

/-- An `object` or a `group`. -/
def Clause.isBlock : Clause → Bool
  | .object _ _ | .group _ _ => true
  | _ => false

def Clause.isSet : Clause → Bool
  | .set _ _ => true
  | _ => false

/-- The name that an `object` statement gives. -/
def Clause.objectName : Clause → Option Text
  | .object name _ => some name
  | _ => none

/-- No `set` comes after a block. -/
def SetsFirst (cs : List Clause) : Prop := cs.Pairwise fun a b => a.isBlock = true → b.isSet = false

instance (cs : List Clause) : Decidable (SetsFirst cs) := by unfold SetsFirst; infer_instance

section Blocks

variable [Python]

theorem bindClause_of_not_isSet {c : Clause} (h : c.isSet = false) (vars : List (Text × Text)) :
    bindClause vars c = vars := by
  cases c with
  | set name value => cases h
  | config name values | root name | skipped | group name attrs | object name attrs | includes line => rfl

theorem foldl_bindClause_of_not_isSet {cs : List Clause} (h : ∀ c ∈ cs, c.isSet = false) (vars : List (Text × Text)) :
    cs.foldl bindClause vars = vars := by
  induction cs with
  | nil => rfl
  | cons c cs ih =>
    rw [List.foldl_cons, bindClause_of_not_isSet (h c (by simp)), ih fun d hd => h d (by simp [hd])]

/-- At a block all variables are bound. -/
theorem SetsFirst.foldl_bindClause {c : Clause} {cs : List Clause} (h : SetsFirst (c :: cs)) (hc : c.isBlock = true)
    (vars : List (Text × Text)) : (c :: cs).foldl bindClause vars = vars := by
  refine foldl_bindClause_of_not_isSet (fun d hd => ?_) vars
  rcases List.mem_cons.mp hd with rfl | hd
  · cases d with
    | object name attrs | group name attrs => rfl
    | config name values | root name | skipped | set name value | includes line => cases hc
  · exact (List.pairwise_cons.mp h).1 d hd hc

/-- Blocks bind no variables. -/
theorem foldl_bindClause_filter (cs : List Clause) (vars : List (Text × Text)) :
    (cs.filter fun c => !c.isBlock).foldl bindClause vars = cs.foldl bindClause vars := by
  induction cs generalizing vars with
  | nil => rfl
  | cons c cs ih =>
    cases c with
    | object name attrs | group name attrs => exact ih vars
    | config name values | root name | skipped | set name value | includes line => exact ih _

/-- The object that a statement declares, if all variables are bound to `vars`. -/
def objectOf (z : ℤ) (vars : List (Text × Text)) : Clause → Option Obj
  | .object name attrs =>
    match buildNode z vars 0 name attrs with
    | .ok r => r.val.map fun built => ⟨name, built.1, built.2, 0, attrs.map Attr.key⟩
    | .error _ => none
  | _ => none

/-- The objects of a config. -/
def objectsOf (z : ℤ) (cs : List Clause) : List Obj := cs.filterMap (objectOf z (varsOf cs))

theorem name_objectOf {z : ℤ} {vars : List (Text × Text)} {c : Clause} {o : Obj} (h : objectOf z vars c = some o) :
    c.objectName = some o.name := by
  cases c with
  | object name attrs =>
    dsimp only [objectOf] at h
    split at h
    · obtain ⟨built, -, rfl⟩ := Option.map_eq_some_iff.mp h
      rfl
    · cases h
  | config name values | root name | skipped | set name value | group name attrs | includes line => cases h

theorem nodup_depNames (vars : List (Text × Text)) (line : ℕ) (edges : List (Option Text)) {names : List Text}
    (h : names.Nodup) : (depNames vars line edges names).val.Nodup := by
  induction edges generalizing names with
  | nil => exact h
  | cons edge edges ih =>
    have hadd (dep : Text) : (if dep ≠ [] ∧ dep ∉ names then names ++ [dep] else names).Nodup := by
      split
      · rename_i hnew
        simpa using h.concat hnew.2
      · exact h
    unfold depNames
    cases edge <;> exact ih (hadd _)

/-- An object names no `dep` twice. -/
theorem nodup_deps_objectOf {z : ℤ} {vars : List (Text × Text)} {c : Clause} {o : Obj} (h : objectOf z vars c = some o) :
    o.deps.Nodup := by
  cases c with
  | object name attrs =>
    dsimp only [objectOf] at h
    split at h
    · rename_i r hr
      obtain ⟨⟨node, deps⟩, hv, rfl⟩ := Option.map_eq_some_iff.mp h
      obtain ⟨-, hdeps, -⟩ := buildNode_built hr hv
      dsimp only
      rw [hdeps, objectDeps]
      split
      · exact List.nodup_nil
      · exact nodup_depNames _ _ _ List.nodup_nil
    · cases h
  | config name values | root name | skipped | set name value | group name attrs | includes line => cases h

theorem names_sublist (z : ℤ) (vars : List (Text × Text)) (cs : List Clause) :
    ((cs.filterMap (objectOf z vars)).map Obj.name).Sublist (cs.filterMap Clause.objectName) := by
  induction cs with
  | nil => exact List.Sublist.refl _
  | cons c cs ih =>
    cases ho : objectOf z vars c with
    | none =>
      rw [List.filterMap_cons_none ho]
      cases hname : c.objectName with
      | none => rwa [List.filterMap_cons_none hname]
      | some name =>
        rw [List.filterMap_cons_some hname]
        exact ih.cons name
    | some o =>
      rw [List.filterMap_cons_some ho, List.filterMap_cons_some (name_objectOf ho), List.map_cons]
      exact ih.cons_cons o.name

/-- With distinct names every object that can be built is accepted, wherever it stands behind the `set` statements. -/
theorem objects_interpretAll {cs : List Clause} {st fin : State} (hs : SetsFirst cs)
    (h : cs.foldlM interpret st = .ok fin) (hn : (st.objects.map Obj.name ++ cs.filterMap Clause.objectName).Nodup) :
    fin.objects = st.objects ++ cs.filterMap (objectOf st.numfailures (cs.foldl bindClause st.vars)) := by
  induction cs generalizing st with
  | nil =>
    obtain rfl := Except.ok.inj h
    exact (List.append_nil _).symm
  | cons c cs ih =>
    obtain ⟨st₁, hc, hcs⟩ := foldlM_cons_ok.mp h
    have ih := ih (List.pairwise_cons.mp hs).2 hcs
    obtain ⟨hvars, hnum⟩ := vars_interpret hc
    rw [hvars, hnum, ← List.foldl_cons] at ih
    cases c with
    | config name values | root name | skipped | set name value | group name attrs =>
      obtain rfl := Except.ok.inj hc
      exact ih hn
    | includes line => cases hc
    | object name attrs =>
      obtain ⟨r, hr, rfl⟩ := interpret_object_ok hc
      have hobj : objectOf st.numfailures (((Clause.object name attrs) :: cs).foldl bindClause st.vars)
          (.object name attrs) = r.val.map fun built => ⟨name, built.1, built.2, 0, attrs.map Attr.key⟩ := by
        rw [hs.foldl_bindClause rfl, objectOf, hr]
      have hfresh : st.objects.any (·.name = name) = false := by
        refine List.any_eq_false.mpr fun o ho hname => ?_
        refine (List.nodup_append.mp hn).2.2 o.name (List.mem_map_of_mem ho) name (by simp [Clause.objectName]) ?_
        simpa using hname
      have hnew : addBuilt name (attrs.map Attr.key) st.objects r.val = st.objects ++
          (r.val.map fun built => (⟨name, built.1, built.2, 0, attrs.map Attr.key⟩ : Obj)).toList := by
        cases r.val with
        | none => exact (List.append_nil _).symm
        | some built =>
          rw [addBuilt, hfresh]
          rfl
      have hnames : ((addBuilt name (attrs.map Attr.key) st.objects r.val).map Obj.name ++
          cs.filterMap Clause.objectName).Nodup := by
        refine List.Sublist.nodup ?_ hn
        rw [hnew, List.map_append, List.append_assoc]
        refine List.Sublist.append_left ?_ _
        cases r.val with
        | none => exact List.sublist_cons_self _ _
        | some built => exact List.Sublist.refl _
      have hval := ih hnames
      rw [hnew, List.append_assoc] at hval
      rw [hval, List.filterMap_cons, hobj]
      cases r.val <;> rfl

/-- A statement that does not raise, if all variables are bound to `vars`. -/
def Clause.Runs (vars : List (Text × Text)) : Clause → Prop
  | .includes _ => False
  | .object _ attrs => ¬ PortRaises vars attrs
  | _ => True

theorem interpret_ok_iff {st : State} {c : Clause} : (∃ st', interpret st c = .ok st') ↔ c.Runs st.vars := by
  have herror : (∃ st', interpret st c = .ok st') ↔ ¬ ∃ e, interpret st c = .error e := by
    cases interpret st c <;> simp
  rw [herror]
  simp only [interpret_error_iff]
  cases c with
  | config name values | root name | skipped | set name value | group name attrs => simp [Clause.Runs]
  | includes line => simp [Clause.Runs]
  | object name attrs => simp [Clause.Runs]

/-- A config raises nothing if none of its statements does. -/
theorem interpretAll_ok_iff {cs : List Clause} (hs : SetsFirst cs) {st : State} :
    (∃ fin, cs.foldlM interpret st = .ok fin) ↔ ∀ c ∈ cs, c.Runs (cs.foldl bindClause st.vars) := by
  induction cs generalizing st with
  | nil => simp [pure, Except.pure]
  | cons c cs ih =>
    have hhead : c.Runs st.vars ↔ c.Runs ((c :: cs).foldl bindClause st.vars) := by
      cases c with
      | config name values | root name | skipped | set name value | group name attrs | includes line => exact Iff.rfl
      | object name attrs => rw [hs.foldl_bindClause rfl]
    rw [List.forall_mem_cons, ← hhead, ← interpret_ok_iff]
    simp only [foldlM_cons_ok]
    constructor
    · rintro ⟨fin, st₁, hc, hcs⟩
      refine ⟨⟨st₁, hc⟩, ?_⟩
      rw [List.foldl_cons, ← (vars_interpret hc).1]
      exact (ih (List.pairwise_cons.mp hs).2).mp ⟨fin, hcs⟩
    · rintro ⟨⟨st₁, hc⟩, hrest⟩
      rw [List.foldl_cons, ← (vars_interpret hc).1] at hrest
      obtain ⟨fin, hcs⟩ := (ih (List.pairwise_cons.mp hs).2).mpr hrest
      exact ⟨fin, st₁, hc, hcs⟩

/-- A block of group `g`, if all variables are bound to `vars`. -/
def Clause.inGroup (vars : List (Text × Text)) (g : Text) : Clause → Bool
  | .group name _ => groupName vars name = g
  | _ => false

/-- The settings of a group are told by its blocks. -/
theorem lookup_groupBlocks {cs : List Clause} (hs : SetsFirst cs) (vars : List (Text × Text)) (g : Text) :
    (groupBlocks vars cs).lookup g =
      (groupBlocks (cs.foldl bindClause vars) (cs.filter (Clause.inGroup (cs.foldl bindClause vars) g))).lookup g := by
  induction cs generalizing vars with
  | nil => rfl
  | cons c cs ih =>
    have ih := ih (List.pairwise_cons.mp hs).2
    cases c with
    | config name values | root name | skipped | set name value | object name attrs | includes line => exact ih _
    | group name attrs =>
      have ih := ih vars
      rw [show List.foldl bindClause vars cs = vars from hs.foldl_bindClause rfl vars] at ih
      rw [hs.foldl_bindClause rfl, List.filter_cons]
      by_cases hg : groupName vars name = g
      · have hin : Clause.inGroup vars g (.group name attrs) = true := decide_eq_true hg
        rw [if_pos hin, groupBlocks, groupBlocks, hg, List.lookup_cons_self, List.lookup_cons_self]
      · have hin : ¬ Clause.inGroup vars g (.group name attrs) = true := fun h => hg (of_decide_eq_true h)
        have hne : (g == groupName vars name) = false := by simpa using Ne.symm hg
        rw [if_neg hin, groupBlocks, List.lookup_cons, hne, ih]

/-! ### Two configs -/

/-- The statements of `cs'` are those of `cs`, with the blocks in another order: the other statements keep theirs, and so
do the blocks of one group. -/
structure Reordered (cs cs' : List Clause) : Prop where
  perm : cs'.Perm cs
  others : (cs'.filter fun c => !c.isBlock) = cs.filter fun c => !c.isBlock
  groups : ∀ g, cs'.filter (Clause.inGroup (varsOf cs) g) = cs.filter (Clause.inGroup (varsOf cs) g)

namespace Reordered

variable {cs cs' : List Clause} (h : Reordered cs cs')

include h

theorem varsOf_eq : varsOf cs' = varsOf cs := by
  rw [varsOf, varsOf, ← foldl_bindClause_filter cs', ← foldl_bindClause_filter cs, h.others]

theorem objectsOf_perm (z : ℤ) : (objectsOf z cs').Perm (objectsOf z cs) := by
  rw [objectsOf, objectsOf, h.varsOf_eq]
  exact h.perm.filterMap _

theorem ok_iff (hs : SetsFirst cs) (hs' : SetsFirst cs') (z : ℤ) :
    (∃ fin, cs'.foldlM interpret { numfailures := z } = .ok fin) ↔
      ∃ fin, cs.foldlM interpret { numfailures := z } = .ok fin := by
  rw [interpretAll_ok_iff hs', interpretAll_ok_iff hs]
  change (∀ c ∈ cs', c.Runs (varsOf cs')) ↔ ∀ c ∈ cs, c.Runs (varsOf cs)
  rw [h.varsOf_eq]
  simp only [h.perm.mem_iff]

theorem lookup_eq (hs : SetsFirst cs) (hs' : SetsFirst cs') {z : ℤ} {fin fin' : State}
    (hfin : cs.foldlM interpret { numfailures := z } = .ok fin)
    (hfin' : cs'.foldlM interpret { numfailures := z } = .ok fin') {g : Text} (hg : g ≠ []) :
    fin'.groups.lookup g = fin.groups.lookup g := by
  rw [lookup_groups hfin hg, lookup_groups hfin' hg, lookup_groupBlocks hs, lookup_groupBlocks hs']
  change Option.or _ ((groupBlocks (varsOf cs') (cs'.filter (Clause.inGroup (varsOf cs') g))).lookup g) =
    Option.or _ ((groupBlocks (varsOf cs) (cs.filter (Clause.inGroup (varsOf cs) g))).lookup g)
  rw [h.varsOf_eq, h.groups g]

end Reordered

/-- **The order of objects and groups does not matter** behind the `set` statements.  If the object names are distinct and
the declared `dep` graph, restricted to the known names, has no cycle, then both configs raise, or both give the same nodes
with the same edges and the same roots. -/
theorem parse_reordered {text text' : Text} {ts ts' : List Token} {z : ℤ} (hts : tokenize text = .ok ts)
    (hts' : tokenize text' = .ok ts') (h : Reordered (clauses ts) (clauses ts')) (hs : SetsFirst (clauses ts))
    (hs' : SetsFirst (clauses ts')) (hn : ((clauses ts).filterMap Clause.objectName).Nodup)
    (hacyclic : Acyclic (DeclaredEdge (objectsOf z (clauses ts)))) :
    (∃ e e', parse text z = .error e ∧ parse text' z = .error e') ∨
      ∃ res res' σ, parse text z = .ok res ∧ parse text' z = .ok res' ∧ Renumbers res.roots res'.roots σ := by
  cases hres : parse text z with
  | error e =>
    cases hres' : parse text' z with
    | error e' => exact .inl ⟨e, e', rfl, rfl⟩
    | ok res' =>
      obtain ⟨fin', hfin', -⟩ := parse_ok hts' hres'
      obtain ⟨fin, hfin⟩ := (h.ok_iff hs hs' z).mp ⟨fin', hfin'⟩
      obtain ⟨res, hres₁, -⟩ := parse_of_ok hts hfin
      rw [hres] at hres₁
      cases hres₁
  | ok res =>
    obtain ⟨fin, hfin, hroots⟩ := parse_ok hts hres
    obtain ⟨fin', hfin'⟩ := (h.ok_iff hs hs' z).mpr ⟨fin, hfin⟩
    obtain ⟨res', hres', hroots'⟩ := parse_of_ok hts' hfin'
    have hobjs : fin.objects = objectsOf z (clauses ts) := objects_interpretAll hs hfin hn
    have hobjs' : fin'.objects = objectsOf z (clauses ts') :=
      objects_interpretAll hs' hfin' ((h.perm.filterMap Clause.objectName).nodup_iff.mpr hn)
    -- a member finds the same settings
    have hdefaults (o : Obj) : (withDefaults fin'.groups o).val = (withDefaults fin.groups o).val := by
      rw [val_withDefaults, val_withDefaults]
      by_cases hg : o.node.group = []
      · rw [if_pos hg, if_pos hg]
      · rw [if_neg hg, if_neg hg, h.lookup_eq hs hs' hfin hfin' hg]
    have hperm : (resolveGroupDefaults fin'.groups fin'.objects).val.Perm
        (resolveGroupDefaults fin.groups fin.objects).val := by
      rw [val_resolveGroupDefaults, val_resolveGroupDefaults, hobjs, hobjs']
      simp only [hdefaults]
      exact (h.objectsOf_perm z).map _
    have hrenumbers := renumbers_buildForest hperm ?_ ?_ ?_ fin.rootName fin'.rootName fin.rootLine fin'.rootLine
    · refine .inr ⟨res, res', _, rfl, hres', (?_ : Renumbers _ _ (placeIn (resolveGroupDefaults fin.groups fin.objects).val
        (resolveGroupDefaults fin'.groups fin'.objects).val))⟩
      rw [hroots, hroots']
      exact hrenumbers
    all_goals rw [val_resolveGroupDefaults, hobjs]
    · rw [List.map_map]
      exact (names_sublist z _ _).nodup hn
    · intro o ho
      obtain ⟨o₁, ho₁, rfl⟩ := List.mem_map.mp ho
      obtain ⟨c, -, hc⟩ := List.mem_filterMap.mp ho₁
      exact (nodup_deps_objectOf hc : o₁.deps.Nodup)
    · rw [declaredEdge_map]
      · exact hacyclic
      · exact fun _ => rfl
      · exact fun _ => rfl

end Blocks

def routerObject : Clause := .object "r".toList
  [⟨"host".toList, 0, some "h".toList, []⟩, ⟨"type".toList, 0, some "ping".toList, []⟩]

def webObject : Clause := .object "w".toList
  [⟨"host".toList, 0, some "$n".toList, []⟩, ⟨"type".toList, 0, some "ping".toList, []⟩,
    ⟨"dep".toList, 0, some "r".toList, []⟩, ⟨"group".toList, 0, some "lan".toList, []⟩]

def lanGroup : Clause := .group "lan".toList [⟨"contact".toList, 0, some "$n".toList, []⟩]

def wanGroup : Clause := .group "wan".toList []

def setNet : Clause := .set "n".toList "a".toList

/-- A child before its parent and its group. -/
def childFirst : Text :=
  ("set n = a; object w \x7b host $n; type ping; dep r; group lan; \x7d group lan \x7b contact $n; \x7d " ++
    "object r \x7b host h; type ping; \x7d").toList

def parentFirst : Text :=
  ("set n = a; object r \x7b host h; type ping; \x7d group lan \x7b contact $n; \x7d " ++
    "object w \x7b host $n; type ping; dep r; group lan; \x7d").toList

/-- Of the two objects one depends on the other. -/
theorem acyclic_childFirst :
    Acyclic (DeclaredEdge (@objectsOf Python.ascii 2 [setNet, webObject, lanGroup, routerObject])) := by
  have hedges : (@objectsOf Python.ascii 2 [setNet, webObject, lanGroup, routerObject]).map (fun o => (o.name, o.deps)) =
      [("w".toList, ["r".toList]), ("r".toList, [])] := by decide +kernel
  have hedge (p c : Text) (h : DeclaredEdge (@objectsOf Python.ascii 2 [setNet, webObject, lanGroup, routerObject]) p c) :
      p = "r".toList ∧ c = "w".toList := by
    obtain ⟨-, o, ho, rfl, hp⟩ := h
    have hmem := hedges ▸ List.mem_map_of_mem (f := fun o : Obj => (o.name, o.deps)) ho
    rcases List.mem_cons.mp hmem with h | h
    · obtain ⟨hname, hdeps⟩ := Prod.mk.inj h
      rw [hdeps] at hp
      exact ⟨List.mem_singleton.mp hp, hname⟩
    · rw [(Prod.mk.inj (List.mem_singleton.mp h)).2] at hp
      cases hp
  intro a ha
  obtain ⟨b, hab, -⟩ := TransGen.head'_iff.mp ha
  obtain ⟨c, -, hca⟩ := TransGen.tail'_iff.mp ha
  exact absurd ((hedge _ _ hab).1.symm.trans (hedge _ _ hca).2) (by decide)

theorem parse_reordered_childFirst : ∃ res res' σ, @parse Python.ascii childFirst 2 = .ok res ∧
    @parse Python.ascii parentFirst 2 = .ok res' ∧ Renumbers res.roots res'.roots σ := by
  obtain ⟨ts, hts, hc⟩ := @exists_tokens childFirst [setNet, webObject, lanGroup, routerObject] (by decide +kernel)
  obtain ⟨ts', hts', hc'⟩ := @exists_tokens parentFirst [setNet, routerObject, lanGroup, webObject] (by decide +kernel)
  have hreordered : @Reordered Python.ascii (clauses ts) (clauses ts') := by
    rw [hc, hc']
    exact @Reordered.mk Python.ascii _ _ (by decide +kernel) (by decide +kernel) fun g => rfl
  have hok : ∃ fin, (@List.foldlM _ _ _ _ (@interpret Python.ascii) { numfailures := 2 } (clauses ts)) = .ok fin := by
    obtain ⟨fin, hfin⟩ : ∃ fin, ([setNet, webObject, lanGroup, routerObject].foldlM (@interpret Python.ascii)
        { numfailures := 2 }).toOption = some fin := Option.isSome_iff_exists.mp (by decide +kernel)
    rw [hc]
    exact ⟨fin, toOption_eq_some.mp hfin⟩
  rcases @parse_reordered Python.ascii childFirst parentFirst _ _ 2 hts hts' hreordered (by rw [hc]; decide +kernel)
    (by rw [hc']; decide +kernel) (by rw [hc]; decide +kernel) (by rw [hc]; exact acyclic_childFirst) with
    ⟨e, -, he, -⟩ | h
  · obtain ⟨fin, hfin⟩ := hok
    obtain ⟨res, hres, -⟩ := @parse_of_ok Python.ascii _ _ _ _ hts hfin
    rw [hres] at he
    cases he
  · exact h

/-- Here the `set` comes before all objects, but after a group that uses the variable. -/
def groupBeforeSet : Text :=
  ("group lan \x7b contact $n; \x7d set n = a; group wan \x7b \x7d " ++
    "object w \x7b host $n; type ping; dep r; group lan; \x7d").toList

def groupAfterSet : Text :=
  ("group wan \x7b \x7d set n = a; group lan \x7b contact $n; \x7d " ++
    "object w \x7b host $n; type ping; dep r; group lan; \x7d").toList

/-- Its two groups have different names. -/
theorem reordered_groupBeforeSet : @Reordered Python.ascii [lanGroup, setNet, wanGroup, webObject]
    [wanGroup, setNet, lanGroup, webObject] := by
  refine @Reordered.mk Python.ascii _ _ (by decide +kernel) (by decide +kernel) fun g => ?_
  -- a group has one of the two names, or no block at all
  by_cases hlan : g = "lan".toList
  · subst hlan
    decide +kernel
  by_cases hwan : g = "wan".toList
  · subst hwan
    decide +kernel
  have hnamed {n name : Text} {attrs : List Attr} (hn : n ≠ g)
      (h : @groupName Python.ascii (@varsOf Python.ascii [lanGroup, setNet, wanGroup, webObject]) name = n) :
      @Clause.inGroup Python.ascii (@varsOf Python.ascii [lanGroup, setNet, wanGroup, webObject]) g
        (.group name attrs) = false := decide_eq_false fun hg => hn (h.symm.trans hg)
  have hnone (c : Clause) (hc : c ∈ [lanGroup, setNet, wanGroup, webObject]) :
      @Clause.inGroup Python.ascii (@varsOf Python.ascii [lanGroup, setNet, wanGroup, webObject]) g c = false := by
    simp only [List.mem_cons, List.not_mem_nil, or_false] at hc
    rcases hc with rfl | rfl | rfl | rfl
    · exact hnamed (Ne.symm hlan) (by decide +kernel)
    · rfl
    · exact hnamed (Ne.symm hwan) (by decide +kernel)
    · rfl
  have hempty (cs : List Clause) (hcs : cs.Perm [lanGroup, setNet, wanGroup, webObject]) : cs.filter
      (@Clause.inGroup Python.ascii (@varsOf Python.ascii [lanGroup, setNet, wanGroup, webObject]) g) = [] := by
    refine List.filter_eq_nil_iff.mpr fun c hc => ?_
    rw [hnone c (hcs.mem_iff.mp hc)]
    exact Bool.false_ne_true
  rw [hempty _ (by decide +kernel), hempty _ (List.Perm.refl _)]

/-- What the first node is, by the statements. -/
theorem exists_contact {text : Text} {cs : List Clause} {contact : Text} (h : (tokenize text).toOption.map clauses = some cs)
    (hcontact : (cs.foldlM (@interpret Python.ascii) { numfailures := 2 }).toOption.map (fun st =>
      (((@finish Python.ascii st).roots.node 0).contact, (@finish Python.ascii st).roots.objs.length)) = some (contact, 1)) :
    ∃ ts res, tokenize text = .ok ts ∧ clauses ts = cs ∧ @parse Python.ascii text 2 = .ok res ∧
      (res.roots.node 0).contact = contact ∧ res.roots.objs.length = 1 := by
  obtain ⟨ts, hts, rfl⟩ := exists_tokens h
  obtain ⟨fin, hfin, heq⟩ := Option.map_eq_some_iff.mp hcontact
  obtain ⟨res, hres, hroots⟩ := @parse_of_ok Python.ascii _ _ _ _ hts (toOption_eq_some.mp hfin)
  rw [← hroots] at heq
  exact ⟨ts, res, hts, rfl, hres, Prod.mk.inj heq⟩

/-- The two groups may not change places. -/
theorem parse_groupBeforeSet : ∃ ts ts' res res', tokenize groupBeforeSet = .ok ts ∧ tokenize groupAfterSet = .ok ts' ∧
    @Reordered Python.ascii (clauses ts) (clauses ts') ∧
    clauses ts = [lanGroup, setNet, wanGroup, webObject] ∧ clauses ts' = [wanGroup, setNet, lanGroup, webObject] ∧
    @parse Python.ascii groupBeforeSet 2 = .ok res ∧ @parse Python.ascii groupAfterSet 2 = .ok res' ∧
    (res.roots.node 0).contact = "$n".toList ∧ (res'.roots.node 0).contact = "a".toList ∧
    ¬ ∃ σ, Renumbers res.roots res'.roots σ := by
  obtain ⟨ts, res, hts, hc, hres, hfirst, hlen⟩ := @exists_contact groupBeforeSet
    [lanGroup, setNet, wanGroup, webObject] "$n".toList (by decide +kernel) (by decide +kernel)
  obtain ⟨ts', res', hts', hc', hres', hsecond, hlen'⟩ := @exists_contact groupAfterSet
    [wanGroup, setNet, lanGroup, webObject] "a".toList (by decide +kernel) (by decide +kernel)
  refine ⟨ts, ts', res, res', hts, hts', ?_, hc, hc', hres, hres', hfirst, hsecond, ?_⟩
  · rw [hc, hc']
    exact reordered_groupBeforeSet
  · rintro ⟨σ, h⟩
    have hzero : σ 0 = 0 := by
      have := h.bijOn.mapsTo (show 0 ∈ Set.Iio res.roots.objs.length from by rw [hlen]; exact Nat.zero_lt_one)
      rw [hlen'] at this
      exact Nat.lt_one_iff.mp this
    have hnode := congrArg Node.contact (h.node 0 (by rw [hlen]; exact Nat.zero_lt_one))
    rw [hzero, hfirst, hsecond] at hnode
    exact absurd hnode (by decide)

end Psysmon.Modern
