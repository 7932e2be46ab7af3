import Psysmon.Config.Objects
import Psysmon.Lib.Assoc

/-!
# Psysmon.Config.Inline — group defaults are attributes written into the members

A group's settings reach a member after its own attributes, in a second pass with its own rules: what the member
declares stays, the two ping counts go together, a `source` is checked in two halves.  The outcome is that of writing the
settings into the member's body where it does not declare them (`inlined`).

* `Merged`, `defaulted_eq`: the group's pass over the member's own is one pass over both sets of attributes.
* `group_inlining`: two configs that differ in this way have the same node.
-/

namespace Psysmon.Modern

open Lib Text Number

/-! ### Attributes by key -/

/-- The two ping counts, inherited as a pair. -/
def pingCounts : List Text := ["send_pings".toList, "min_pings".toList]

/-- A group attribute that an object with these keys takes over. -/
def takesOver (keys : List Text) (key : Text) : Bool :=
  decide (key ∉ keys) && decide (key ∉ pingCounts ∨ ∀ c ∈ pingCounts, c ∉ keys)

theorem takesOver_of_mem {keys : List Text} {key : Text} (h : key ∈ keys) : takesOver keys key = false := by
  rw [takesOver, decide_eq_false (not_not.mpr h), Bool.false_and]

theorem takesOver_of_count {keys : List Text} {c d : Text} (hc : c ∈ pingCounts) (h : c ∈ keys) (hd : d ∈ pingCounts) :
    takesOver keys d = false := by
  have hpair : ¬ (d ∉ pingCounts ∨ ∀ c ∈ pingCounts, c ∉ keys) := not_or.mpr ⟨not_not.mpr hd, fun h' => h' c hc h⟩
  rw [takesOver, decide_eq_false hpair, Bool.and_false]

/-- The group attributes to be written into an object with attributes `attrs`. -/
def inlined (gattrs attrs : List Attr) : List Attr :=
  gattrs.filter fun a => decide (a.key ∈ groupAttrs) && takesOver (attrs.map Attr.key) a.key

theorem lookup_inherited (keys : List Text) (defaults : List (Text × Text)) (key : Text) :
    (inherited keys defaults).lookup key = if takesOver keys key then defaults.lookup key else none := by
  have houter := lookup_filter_key (fun k => decide (k ∉ pingCounts ∨ ∀ c ∈ pingCounts, c ∉ keys))
    (defaults.filter fun d => decide (d.1 ∉ keys)) key
  rw [lookup_filter_key (fun k => decide (k ∉ keys))] at houter
  refine houter.trans ?_
  unfold takesOver
  cases decide (key ∉ keys) <;> cases decide (key ∉ pingCounts ∨ ∀ c ∈ pingCounts, c ∉ keys) <;> rfl

theorem valueIn_inlined (gattrs attrs : List Attr) (key : Text) :
    valueIn key (inlined gattrs attrs) =
      if key ∈ groupAttrs ∧ takesOver (attrs.map Attr.key) key = true then valueIn key gattrs else none := by
  have := find?_filter_key Attr.key
    (fun k => decide (k ∈ groupAttrs) && takesOver (attrs.map Attr.key) k) gattrs key
  rw [valueIn, inlined, this]
  simp only [Bool.and_eq_true, decide_eq_true_eq]
  split <;> rfl

/-- The settings that a group's pass leaves to `_apply_overrides`. -/
theorem lookup_overriding (inh : List (Text × Text)) (key : Text) :
    (inh.filter fun d => d.1 ≠ "source".toList ∧ d.1 ≠ "contact".toList).lookup key =
      if key ≠ "source".toList ∧ key ≠ "contact".toList then inh.lookup key else none := by
  rw [lookup_filter_key fun k => decide (k ≠ "source".toList ∧ k ≠ "contact".toList)]
  simp only [decide_eq_true_eq]

theorem nodup_addAttr (kind : BlockKind) (name : Text) {attrs : List Attr} (h : (attrs.map Attr.key).Nodup) (t : Token)
    (v : Option Text) : ((addAttr kind name attrs t v).val.map Attr.key).Nodup := by
  unfold addAttr
  by_cases hany : attrs.any (·.key = t.value) = true
  · rw [if_pos hany]
    split
    · rw [Log.val_pure, List.map_map]
      have : (Attr.key ∘ fun a => if a.key = t.value then { a with more := a.more ++ [v] } else a) = Attr.key := by
        funext a
        dsimp only [Function.comp_apply]
        split <;> rfl
      rw [this]
      exact h
    · exact h
  · rw [if_neg hany, Log.val_pure, List.map_append]
    have hnot : t.value ∉ attrs.map Attr.key := by
      intro hmem
      obtain ⟨a, ha, hk⟩ := List.mem_map.mp hmem
      exact hany (List.any_eq_true.mpr ⟨a, ha, by simpa using hk⟩)
    exact List.nodup_append.mpr ⟨h, by simp, fun a ha b hb => by
      obtain rfl : b = t.value := by simpa using hb
      exact fun he => hnot (he ▸ ha)⟩

theorem nodup_collectBlockAttrs (kind : BlockKind) (name : Text) {attrs : List Attr} (h : (attrs.map Attr.key).Nodup)
    (ts : List Token) : ((collectBlockAttrs kind name attrs ts).val.1.map Attr.key).Nodup := by
  fun_induction collectBlockAttrs kind name attrs ts with
  | case1 attrs => exact h
  | case2 attrs t ts hb => exact h
  | case3 attrs t ts hb hw ih => exact ih h
  | case4 attrs t ts hb hw r ih => exact ih _ (nodup_addAttr kind name h t _)

/-- The attributes of a block have distinct keys. -/
theorem nodup_bodyAttrs (kind : BlockKind) (body : List Token) : ((bodyAttrs kind body).map Attr.key).Nodup := by
  rw [bodyAttrs, List.map_map]
  have hnil : (([] : List Attr).map Attr.key).Nodup := List.nodup_nil
  exact nodup_collectBlockAttrs kind [] hnil body

/-- The keys of a statement's attributes are distinct. -/
def Clause.Distinct : Clause → Prop
  | .object _ attrs | .group _ attrs => (attrs.map Attr.key).Nodup
  | _ => True

theorem distinct_blockClause (kind : BlockKind) (named : TokenKind → Bool) (ts : List Token) :
    (blockClause kind named ts).Distinct := by
  unfold blockClause
  split
  · split
    · cases kind with
      | object => exact nodup_bodyAttrs .object _
      | group => exact nodup_bodyAttrs .group _
    · trivial
  · trivial

theorem distinct_clause (t : Token) (ts : List Token) : (clause t ts).Distinct := by
  unfold clause
  split
  · trivial
  split
  · unfold configClause
    split
    · split <;> trivial
    · trivial
  split
  · unfold setClause
    split
    · split <;> trivial
    · trivial
  split
  · unfold rootClause
    split
    · split <;> trivial
    · trivial
  split
  · exact distinct_blockClause .object _ ts
  split
  · exact distinct_blockClause .group _ ts
  split <;> trivial

theorem distinct_clauses (ts : List Token) : ∀ c ∈ clauses ts, c.Distinct := by
  fun_induction clauses ts with
  | case1 => simp
  | case2 t ts ih =>
    intro c hc
    rcases List.mem_cons.mp hc with rfl | hc
    · exact distinct_clause t ts
    · exact ih c hc

/-! ### Two passes over a node -/

/-- An attribute that only one of two passes gives, in one pass. -/
theorem elim_elim {α : Type} {r i : Option Text} (h : r.isSome = true → i = none) (a : α) (f : Text → α → α) :
    (i.elim (r.elim a (f · a)) fun raw => f raw (r.elim a (f · a))) = (r.or i).elim a (f · a) := by
  cases r with
  | none => rfl
  | some x => rw [h rfl]; rfl

theorem countsFrom_none (old : Option ℤ × Option ℤ) : countsFrom none none old = old := by
  simp [countsFrom, countFrom, orderedCounts]

theorem lookup_addSettings (name : Text) (settings : List (Text × Text)) (groups : List (Text × List (Text × Text)))
    {g : Text} (hg : g ≠ []) :
    (addSettings name settings groups).lookup g = (groups.lookup g).or ([(name, settings)].lookup g) := by
  unfold addSettings
  by_cases hk : g = name
  · subst hk
    by_cases hl : (groups.lookup g).isSome = true
    · rw [if_pos (.inr hl)]
      obtain ⟨x, hx⟩ := Option.isSome_iff_exists.mp hl
      rw [hx]
      rfl
    · rw [if_neg (not_or.mpr ⟨hg, hl⟩), List.lookup_append]
  · have hnone : [(name, settings)].lookup g = none := by
      have : (g == name) = false := by simpa using hk
      rw [List.lookup_cons, this]
      rfl
    rw [hnone, Option.or_none]
    split
    · rfl
    · rw [List.lookup_append, hnone, Option.or_none]

section Inlining

variable [Python]

/-- A text without a variable stands for itself. -/
theorem expand_of_not_mem (vars : List (Text × Text)) {t : Text} (h : '$' ∉ t) : (expand vars t).1 = t := by
  induction t with
  | nil => rw [expand]
  | cons c cs ih =>
    have hc : c ≠ '$' := fun hc => h (hc ▸ List.mem_cons_self)
    have ih := ih fun hcs => h (List.mem_cons_of_mem c hcs)
    rw [expand]
    · rw [ih]
    · rintro c' cs' rfl
      exact absurd rfl hc

/-- What the attributes `r` and the defaults `inh` of a group amount to in one list `r'`. -/
structure Merged (r inh r' : List (Text × Text)) : Prop where
  /-- The attributes that only objects have. -/
  own : ∀ key ∉ groupAttrs, key ≠ "dep".toList → r'.lookup key = r.lookup key
  /-- The group's settings, `source` apart, fill what is not declared. -/
  fill : ∀ key ∈ groupAttrs, key ≠ "source".toList → r'.lookup key = (r.lookup key).or (inh.lookup key)
  declared : ∀ key, (r.lookup key).isSome = true → inh.lookup key = none
  /-- The ping counts are a pair. -/
  pair : ∀ c ∈ pingCounts, (r.lookup c).isSome = true → ∀ d ∈ pingCounts, inh.lookup d = none
  /-- The group has its `source` in canonical form. -/
  source : ∃ raw : Option Text, r'.lookup "source".toList = (r.lookup "source".toList).or raw ∧
    inh.lookup "source".toList = raw.bind (fun t => (parseSource 0 [] t).val) ∧
    ((r.lookup "source".toList).isSome = true → raw = none)
  group : inh.lookup "group".toList = none

/-- **The group's pass over the node of an object is one pass over the merged attributes.** -/
theorem defaulted_eq {r inh r' : List (Text × Text)} (h : Merged r inh r') (base : Node) :
    defaulted inh (overridden r (described r base)) = overridden r' (described r' base) := by
  have hrest (key : Text) (hk : key ≠ "source".toList ∧ key ≠ "contact".toList) :
      (inh.filter fun d => d.1 ≠ "source".toList ∧ d.1 ≠ "contact".toList).lookup key = inh.lookup key := by
    rw [lookup_overriding, if_pos hk]
  have hnosource : (inh.filter fun d => d.1 ≠ "source".toList ∧ d.1 ≠ "contact".toList).lookup "source".toList =
      none := by
    rw [lookup_overriding, if_neg (by decide)]
  have hinterval := elim_elim (h.declared "queuetime".toList) base.interval intervalFrom
  rw [← h.fill _ (by decide) (by decide)] at hinterval
  have hmaxDown := elim_elim (h.declared "numfailures".toList) base.maxDown maxDownFrom
  rw [← h.fill _ (by decide) (by decide)] at hmaxDown
  have hcontactOn := elim_elim (h.declared "contact_on".toList) base.contactOn contactOnFrom
  rw [← h.fill _ (by decide) (by decide)] at hcontactOn
  have hcontact : (inh.lookup "contact".toList).getD ((r.lookup "contact".toList).getD base.contact) =
      (r'.lookup "contact".toList).getD base.contact := by
    rw [h.fill _ (by decide) (by decide)]
    cases hr : r.lookup "contact".toList with
    | none => rw [Option.none_or]; rfl
    | some c => rw [h.declared _ (by rw [hr]; rfl)]; rfl
  have hsource : (inh.lookup "source".toList).elim
        ((r.lookup "source".toList).elim base.source (sourceFrom base.checkType · base.source))
        (familySource base.checkType · ((r.lookup "source".toList).elim base.source
          (sourceFrom base.checkType · base.source))) =
      (r'.lookup "source".toList).elim base.source (sourceFrom base.checkType · base.source) := by
    obtain ⟨raw, hr', hinh, hraw⟩ := h.source
    rw [hr', hinh]
    cases hr : r.lookup "source".toList with
    | none => cases raw <;> rfl
    | some c => rw [hraw (by rw [hr]; rfl)]; rfl
  have hcounts : countsFrom (inh.lookup "send_pings".toList) (inh.lookup "min_pings".toList)
        (countsFrom (r.lookup "send_pings".toList) (r.lookup "min_pings".toList) (base.sendPings, base.minPings)) =
      countsFrom (r'.lookup "send_pings".toList) (r'.lookup "min_pings".toList) (base.sendPings, base.minPings) := by
    rw [h.fill "send_pings".toList (by decide) (by decide), h.fill "min_pings".toList (by decide) (by decide)]
    by_cases hown : ∃ c ∈ pingCounts, (r.lookup c).isSome = true
    · obtain ⟨c, hc, hsome⟩ := hown
      rw [h.pair c hc hsome _ (by decide), h.pair c hc hsome _ (by decide), countsFrom_none, Option.or_none,
        Option.or_none]
    · have hnone (c : Text) (hc : c ∈ pingCounts) : r.lookup c = none := by
        cases hr : r.lookup c with
        | none => rfl
        | some v => exact absurd ⟨c, hc, by rw [hr]; rfl⟩ hown
      rw [hnone _ (by decide), hnone _ (by decide), countsFrom_none, Option.none_or, Option.none_or]
  unfold defaulted overridden described
  dsimp only
  rw [hnosource, hrest _ (by decide), hrest _ (by decide), hrest _ (by decide), hrest _ (by decide), hrest _ (by decide),
    hrest _ (by decide), h.group,
    h.own "group".toList (by decide) (by decide), h.own "desc".toList (by decide) (by decide), Node.mk.injEq]
  exact ⟨rfl, rfl, rfl, rfl, hcontact, rfl, hcontactOn, hsource, rfl, rfl, rfl, rfl, hmaxDown, hinterval,
    congrArg Prod.fst hcounts, congrArg Prod.snd hcounts⟩

/-! ### The settings of a group -/

/-- The text of a value, variables replaced. -/
def expandValue (vars : List (Text × Text)) (v : Option Text) : Text := (v.map fun t => (expand vars t).1).getD []

/-- A setting as the group keeps it: a `source` is checked at once. -/
def canonical (key t : Text) : Option Text := if key = "source".toList then (parseSource 0 [] t).val else some t

theorem lookup_groupSettings (vars : List (Text × Text)) (gattrs : List Attr) (key : Text) :
    (groupSettings vars gattrs).lookup key =
      (if key ∈ groupAttrs then (valueIn key gattrs).map (expandValue vars) else none).bind (canonical key) := by
  have hset : ((resolve vars gattrs).val.filter fun d => decide (d.1 ∈ groupAttrs)).lookup key =
      if key ∈ groupAttrs then (valueIn key gattrs).map (expandValue vars) else none := by
    rw [lookup_filter_key fun k => decide (k ∈ groupAttrs), val_resolve, lookup_map_key, valueIn, Option.map_map]
    simp only [decide_eq_true_eq]
    rfl
  rw [← hset]
  unfold groupSettings canonical
  dsimp only
  generalize (resolve vars gattrs).val.filter (fun d => decide (d.1 ∈ groupAttrs)) = settings
  cases hl : settings.lookup "source".toList with
  | none =>
    by_cases hk : key = "source".toList
    · subst hk
      simp only [hl, Option.bind_none]
    · simp only [if_neg hk, Option.bind_fun_some]
  | some raw =>
    dsimp only
    cases hp : (parseSource 0 [] raw).val with
    | none =>
      dsimp only
      rw [lookup_filter_key fun k => decide (k ≠ "source".toList)]
      by_cases hk : key = "source".toList
      · subst hk
        simp only [hl, if_true, Option.bind_some, hp]
        exact if_neg (by decide)
      · simp only [if_neg hk, Option.bind_fun_some]
        exact if_pos (decide_eq_true hk)
    | some src =>
      have hmap : (settings.map fun s => if s.1 = "source".toList then (s.1, src) else s) =
          settings.map fun s => (s.1, if s.1 = "source".toList then src else s.2) :=
        List.map_congr_left fun s _ => by split <;> rfl
      dsimp only
      rw [hmap, lookup_map_snd fun k v => if k = "source".toList then src else v]
      by_cases hk : key = "source".toList
      · subst hk
        simp only [hl, if_true, Option.bind_some, hp, Option.map_some]
      · simp only [if_neg hk, Option.bind_fun_some, Option.map_id']

/-- The values of the group's settings mention no variable. -/
def FreeOfVariables (gattrs : List Attr) : Prop := ∀ a ∈ gattrs, a.key ∈ groupAttrs → ∀ v, a.value = some v → '$' ∉ v

theorem FreeOfVariables.expandValue {gattrs : List Attr} (h : FreeOfVariables gattrs) (vars vars' : List (Text × Text))
    {key : Text} (hk : key ∈ groupAttrs) :
    (valueIn key gattrs).map (expandValue vars) = (valueIn key gattrs).map (expandValue vars') := by
  cases hv : valueIn key gattrs with
  | none => rfl
  | some v =>
    obtain ⟨a, ha, rfl⟩ := Option.map_eq_some_iff.mp hv
    have hkey : a.key = key := by simpa using List.find?_some ha
    cases hval : a.value with
    | none => rfl
    | some t =>
      have ht := h a (List.mem_of_find?_eq_some ha) (hkey ▸ hk) t hval
      simp only [Modern.expandValue, Option.map_some, expand_of_not_mem _ ht]

theorem mem_keys_of_lookup {vars : List (Text × Text)} {attrs : List Attr} {key : Text}
    (h : ((resolvedOf vars attrs).lookup key).isSome = true) : key ∈ attrs.map Attr.key := by
  have hmem := lookup_isSome_iff.mp h
  rw [resolvedOf, val_resolve, List.map_map] at hmem
  obtain ⟨a, ha, rfl⟩ := List.mem_map.mp hmem
  exact List.mem_map_of_mem (List.mem_filter.mp ha).1

/-- The attributes of an object into which the settings of its group are written. -/
theorem merged_inlined {vars gvars : List (Text × Text)} {attrs attrs' gattrs : List Attr}
    (hn : (attrs'.map Attr.key).Nodup) (hperm : attrs'.Perm (attrs ++ inlined gattrs attrs))
    (hfree : FreeOfVariables gattrs) :
    Merged (resolvedOf vars attrs) (inherited (attrs.map Attr.key) (groupSettings gvars gattrs))
      (resolvedOf vars attrs') := by
  have hlookup {key : Text} (hk : key ≠ "dep".toList) : (resolvedOf vars attrs').lookup key =
      ((resolvedOf vars attrs).lookup key).or ((valueIn key (inlined gattrs attrs)).map (expandValue vars)) := by
    have hvalue : valueIn key attrs' = (valueIn key attrs).or (valueIn key (inlined gattrs attrs)) := by
      rw [← valueIn_append, valueIn, find?_perm hperm hn]
      rfl
    rw [lookup_resolvedOf _ _ hk, lookup_resolvedOf _ _ hk, hvalue]
    cases valueIn key attrs <;> rfl
  have hinh {key : Text} (hk : key ∈ groupAttrs) :
      (inherited (attrs.map Attr.key) (groupSettings gvars gattrs)).lookup key =
        ((valueIn key (inlined gattrs attrs)).map (expandValue vars)).bind (canonical key) := by
    rw [lookup_inherited, lookup_groupSettings, valueIn_inlined, if_pos hk, hfree.expandValue gvars vars hk]
    cases takesOver (attrs.map Attr.key) key with
    | false => simp
    | true => simp [hk]
  have htaken {key : Text} (h : ((resolvedOf vars attrs).lookup key).isSome = true) :
      takesOver (attrs.map Attr.key) key = false := takesOver_of_mem (mem_keys_of_lookup h)
  refine ⟨fun key hk hdep => ?_, fun key hk hs => ?_, fun key h => ?_, fun c hc h d hd => ?_, ?_, ?_⟩
  · rw [hlookup hdep, valueIn_inlined, if_neg fun h => hk h.1]
    exact Option.or_none
  · have hdep : key ≠ "dep".toList := by
      rintro rfl
      exact absurd hk (by decide)
    have hsome : canonical key = some := funext fun t => if_neg hs
    rw [hlookup hdep, hinh hk, hsome, Option.bind_fun_some]
  · rw [lookup_inherited, htaken h]
    rfl
  · rw [lookup_inherited, takesOver_of_count hc (mem_keys_of_lookup h) hd]
    rfl
  · refine ⟨(valueIn "source".toList (inlined gattrs attrs)).map (expandValue vars), hlookup (by decide), ?_, fun h => ?_⟩
    · rw [hinh (by decide)]
      rfl
    · rw [valueIn_inlined, htaken h]
      simp
  · have hgroup : "group".toList ∉ groupAttrs := by decide
    rw [lookup_inherited, lookup_groupSettings, if_neg hgroup, Option.bind_none, ite_self]

/-! ### The node with the settings written in -/

/-- The fields of the type are no group settings, but for the `contact` that a dns check must declare. -/
theorem typeFields_merged {r inh r' : List (Text × Text)} (h : Merged r inh r') {kw : Text} {node base : Node}
    {fields : Log (Option Node)} (hf : typeFields 0 [] kw r node = .ok fields) (hb : fields.val = some base) :
    typeFields 0 [] kw r' node = .ok fields := by
  have hport := h.own "port".toList (by decide) (by decide)
  have hurl := h.own "url".toList (by decide) (by decide)
  have hurltext := h.own "urltext".toList (by decide) (by decide)
  have husername := h.own "username".toList (by decide) (by decide)
  have hpassword := h.own "password".toList (by decide) (by decide)
  have hquery := h.own "dns-query".toList (by decide) (by decide)
  rw [← hf]
  cases hc : node.checkType <;> unfold typeFields <;> rw [hc] <;> dsimp only
  case dns =>
    have hcontact : (r'.lookup "contact".toList).getD [] = (r.lookup "contact".toList).getD [] := by
      rw [h.fill _ (by decide) (by decide)]
      cases hr : r.lookup "contact".toList with
      | none =>
        -- without a contact of its own the object is skipped
        unfold typeFields at hf
        rw [hc] at hf
        dsimp only at hf
        rw [if_pos (.inr (by rw [hr]; rfl))] at hf
        obtain rfl := Except.ok.inj hf
        cases hb
      | some c => rfl
    simp only [hquery, hcontact]
  all_goals simp only [hport, hurl, hurltext, husername, hpassword]

theorem objectDeps_inlined {vars : List (Text × Text)} {attrs attrs' gattrs : List Attr}
    (hn : (attrs'.map Attr.key).Nodup) (hperm : attrs'.Perm (attrs ++ inlined gattrs attrs)) :
    objectDeps vars attrs' = objectDeps vars attrs := by
  have hnone : (inlined gattrs attrs).find? (fun a => a.key = "dep".toList) = none := by
    rw [inlined, find?_filter_key Attr.key
      fun k => decide (k ∈ groupAttrs) && takesOver (attrs.map Attr.key) k]
    exact if_neg (by rw [show decide ("dep".toList ∈ groupAttrs) = false from rfl, Bool.false_and]; decide)
  have hfind : attrs'.find? (fun a => a.key = "dep".toList) = attrs.find? fun a => a.key = "dep".toList := by
    rw [find?_perm hperm hn, List.find?_append, hnone, Option.or_none]
  unfold objectDeps
  rw [hfind]

/-- The object with the settings written in is built as well. -/
theorem buildNode_inlined (gvars : List (Text × Text)) {z : ℤ} {vars : List (Text × Text)} {name : Text}
    {attrs attrs' gattrs : List Attr} (hn : (attrs'.map Attr.key).Nodup) (hperm : attrs'.Perm (attrs ++ inlined gattrs attrs))
    (hfree : FreeOfVariables gattrs) {l : Log (Option (Node × List Text))} {node : Node} {deps : List Text}
    (hb : buildNode z vars 0 name attrs = .ok l) (hv : l.val = some (node, deps)) :
    (buildNode z vars 0 name attrs').map Log.val =
      .ok (some (defaulted (inherited (attrs.map Attr.key) (groupSettings gvars gattrs)) node, deps)) := by
  have hm : Merged (resolvedOf vars attrs) (inherited (attrs.map Attr.key) (groupSettings gvars gattrs))
      (resolvedOf vars attrs') := merged_inlined hn hperm hfree
  obtain ⟨hhost, rfl, ctype, fields, base, htype, hfields, hbase, rfl⟩ := buildNode_built hb hv
  have hhost' : hostOf (resolvedOf vars attrs') = hostOf (resolvedOf vars attrs) := by
    unfold hostOf
    rw [hm.own "host".toList (by decide) (by decide), hm.own "ip".toList (by decide) (by decide)]
  have hkw := hm.own "type".toList (by decide) (by decide)
  have htype' : typeOf (resolvedOf vars attrs') = some ctype := by
    rw [← htype]
    unfold typeOf
    rw [hkw]
  rw [val_buildNode, hhost', if_neg hhost, htype']
  dsimp only
  rw [hkw, typeFields_merged hm hfields hbase, defaulted_eq hm, objectDeps_inlined hn hperm]
  simp only [Except.map, hbase, Option.map_some]

/-! ### The group of a member -/

/-- The name of a group block. -/
def groupName (vars : List (Text × Text)) (name : Text) : Text := strip (expand vars name).1

/-- The group blocks of some statements, with their settings. -/
def groupBlocks (vars : List (Text × Text)) : List Clause → List (Text × List (Text × Text))
  | [] => []
  | .group name attrs :: cs => (groupName vars name, groupSettings vars attrs) :: groupBlocks vars cs
  | c :: cs => groupBlocks (bindClause vars c) cs

theorem groupBlocks_append (vars : List (Text × Text)) (cs ds : List Clause) :
    groupBlocks vars (cs ++ ds) = groupBlocks vars cs ++ groupBlocks (cs.foldl bindClause vars) ds := by
  induction cs generalizing vars with
  | nil => rfl
  | cons c cs ih =>
    cases c with
    | group name attrs => exact congrArg (_ :: ·) (ih vars)
    | config name values => exact ih _
    | set name value => exact ih _
    | root name => exact ih _
    | object name attrs => exact ih _
    | includes line => exact ih _
    | skipped => exact ih _

/-- The settings of a group are those of the first block of its name. -/
theorem lookup_groups {cs : List Clause} {st fin : State} (h : cs.foldlM interpret st = .ok fin) {g : Text}
    (hg : g ≠ []) : fin.groups.lookup g = (st.groups.lookup g).or ((groupBlocks st.vars cs).lookup g) := by
  induction cs generalizing st with
  | nil =>
    obtain rfl := Except.ok.inj h
    exact (Option.or_none).symm
  | cons c cs ih =>
    obtain ⟨st₁, hc, hcs⟩ := foldlM_cons_ok.mp h
    have ih := ih hcs
    rw [(vars_interpret hc).1] at ih
    rw [ih]
    cases c with
    | group name attrs =>
      obtain rfl := Except.ok.inj hc
      dsimp only [bindClause, groupBlocks]
      rw [lookup_addSettings _ _ _ hg, Option.or_assoc, ← List.lookup_append]
      rfl
    | object name attrs =>
      obtain ⟨r, -, rfl⟩ := interpret_object_ok hc
      rfl
    | includes line => cases hc
    | config name values | set name value | root name | skipped =>
      obtain rfl := Except.ok.inj hc
      rfl

theorem defaulted_nil (node : Node) : defaulted [] node = node := by
  unfold defaulted overridden
  simp only [List.filter_nil, List.lookup_nil, Option.elim_none, Option.getD_none, countsFrom_none]

/-- Once its settings are written in, a group has nothing more to say. -/
theorem inherited_inlined {gvars : List (Text × Text)} {attrs attrs' gattrs : List Attr}
    (hperm : attrs'.Perm (attrs ++ inlined gattrs attrs)) :
    inherited (attrs'.map Attr.key) (groupSettings gvars gattrs) = [] := by
  have hmem (key : Text) : key ∈ attrs'.map Attr.key ↔
      key ∈ attrs.map Attr.key ∨ key ∈ (inlined gattrs attrs).map Attr.key := by
    rw [(hperm.map Attr.key).mem_iff, List.map_append, List.mem_append]
  have hnone (key : Text) : (inherited (attrs'.map Attr.key) (groupSettings gvars gattrs)).lookup key = none := by
    rw [lookup_inherited]
    split
    · rename_i htake
      rw [lookup_groupSettings]
      split
      · rename_i hk
        cases hv : valueIn key gattrs with
        | none => rfl
        | some v =>
          rw [takesOver, Bool.and_eq_true, decide_eq_true_eq, decide_eq_true_eq] at htake
          have htake' : takesOver (attrs.map Attr.key) key = true := by
            rw [takesOver, Bool.and_eq_true, decide_eq_true_eq, decide_eq_true_eq]
            exact ⟨fun h => htake.1 ((hmem key).mpr (.inl h)),
              htake.2.imp_right fun h c hc hc' => h c hc ((hmem c).mpr (.inl hc'))⟩
          have hin := valueIn_inlined gattrs attrs key
          rw [if_pos ⟨hk, htake'⟩, hv] at hin
          obtain ⟨a, ha, -⟩ := Option.map_eq_some_iff.mp hin
          have hkey : a.key = key := by simpa using List.find?_some ha
          refine absurd ((hmem key).mpr (.inr ?_)) htake.1
          exact hkey ▸ List.mem_map_of_mem (List.mem_of_find?_eq_some ha)
      · rfl
    · rfl
  cases hl : inherited (attrs'.map Attr.key) (groupSettings gvars gattrs) with
  | nil => rfl
  | cons d l =>
    have := hnone d.1
    rw [hl, List.lookup_cons, beq_self_eq_true] at this
    cases this

/-- What the object declares stays as its own attributes made it, also where a value was not valid. -/
structure Untouched (keys : List Text) (own node : Node) : Prop where
  source : "source".toList ∈ keys → node.source = own.source
  contact : "contact".toList ∈ keys → node.contact = own.contact
  contactOn : "contact_on".toList ∈ keys → node.contactOn = own.contactOn
  maxDown : "numfailures".toList ∈ keys → node.maxDown = own.maxDown
  interval : "queuetime".toList ∈ keys → node.interval = own.interval
  counts : ∀ c ∈ pingCounts, c ∈ keys → node.sendPings = own.sendPings ∧ node.minPings = own.minPings

theorem untouched_defaulted (keys : List Text) (defaults : List (Text × Text)) (own : Node) :
    Untouched keys own (defaulted (inherited keys defaults) own) := by
  have hnone {key : Text} (hk : takesOver keys key = false) : (inherited keys defaults).lookup key = none := by
    rw [lookup_inherited, hk]
    rfl
  have hrest {key : Text} (hk : takesOver keys key = false) : ((inherited keys defaults).filter
      fun d => d.1 ≠ "source".toList ∧ d.1 ≠ "contact".toList).lookup key = none := by
    rw [lookup_overriding, hnone hk, ite_self]
  have hnosource : ((inherited keys defaults).filter
      fun d => d.1 ≠ "source".toList ∧ d.1 ≠ "contact".toList).lookup "source".toList = none := by
    rw [lookup_overriding, if_neg (by decide)]
  unfold defaulted overridden
  refine ⟨fun h => ?_, fun h => ?_, fun h => ?_, fun h => ?_, fun h => ?_, fun c hc h => ?_⟩ <;> dsimp only
  · rw [hnosource, hnone (takesOver_of_mem h)]
    rfl
  · rw [hnone (takesOver_of_mem h)]
    rfl
  · rw [hrest (takesOver_of_mem h)]
    rfl
  · rw [hrest (takesOver_of_mem h)]
    rfl
  · rw [hrest (takesOver_of_mem h)]
    rfl
  · rw [hrest (takesOver_of_count hc h (by decide)), hrest (takesOver_of_count hc h (by decide)), countsFrom_none]
    exact ⟨rfl, rfl⟩

theorem group_defaulted (keys : List Text) (gvars : List (Text × Text)) (gattrs : List Attr) (node : Node) :
    (defaulted (inherited keys (groupSettings gvars gattrs)) node).group = node.group := by
  have hgroup : "group".toList ∉ groupAttrs := by decide
  unfold defaulted overridden
  dsimp only
  rw [lookup_overriding, lookup_inherited, lookup_groupSettings, if_neg hgroup, Option.bind_none, ite_self, ite_self]
  rfl

/-- **Group defaults are inlining.**  Take an accepted object that is a member of a group whose first block has values
without variables, and a second text in which the settings of that block are written into the object's body, at any place
of it, where the object does not declare them itself (the ping counts only if it declares neither).  Then the object is
accepted there as well, and its node is the same; and what it declares itself the group never changes. -/
theorem group_inlining {text text' : Text} {ts ts' : List Token} {z : ℤ} {res : ParseResult Forest}
    (hts : tokenize text = .ok ts) (hts' : tokenize text' = .ok ts') (hres : parse text z = .ok res)
    {pre post gpre gpost : List Clause} {name gname : Text} {attrs attrs' gattrs : List Attr} {i : ℕ}
    (hc : clauses ts = pre ++ .object name attrs :: post) (hacc : AcceptedAt z pre name attrs i)
    (hg : clauses ts = gpre ++ .group gname gattrs :: gpost)
    (hfirst : groupName (varsOf gpre) gname ∉ (groupBlocks [] gpre).map Prod.fst)
    (hmember : ((resolvedOf (varsOf pre) attrs).lookup "group".toList).map strip = some (groupName (varsOf gpre) gname))
    (hne : groupName (varsOf gpre) gname ≠ []) (hfree : FreeOfVariables gattrs)
    (hc' : clauses ts' = pre ++ .object name attrs' :: post) (hperm : attrs'.Perm (attrs ++ inlined gattrs attrs)) :
    ∃ res', parse text' z = .ok res' ∧ AcceptedAt z pre name attrs' i ∧ res'.roots.node i = res.roots.node i ∧
      ∃ own deps, (buildNode z (varsOf pre) 0 name attrs).map Log.val = .ok (some (own, deps)) ∧
        Untouched (attrs.map Attr.key) own (res.roots.node i) := by
  obtain ⟨fin, hfin, hroots⟩ := parse_ok hts hres
  have hlookup : fin.groups.lookup (groupName (varsOf gpre) gname) = some (groupSettings (varsOf gpre) gattrs) := by
    have hnone : (groupBlocks [] gpre).lookup (groupName (varsOf gpre) gname) = none :=
      Option.not_isSome_iff_eq_none.mp fun h => hfirst (lookup_isSome_iff.mp h)
    rw [lookup_groups hfin hne, hg, groupBlocks_append, List.lookup_append, hnone]
    exact List.lookup_cons_self
  rw [hc] at hfin
  obtain ⟨st, r, node, deps, hpre, hr, hv, hi, hnew, hobj⟩ := hacc.built
  have hn : (attrs'.map Attr.key).Nodup := distinct_clauses ts' (.object name attrs') (by rw [hc']; simp)
  obtain ⟨r', hr', hv'⟩ : ∃ r', buildNode z (varsOf pre) 0 name attrs' = .ok r' ∧ r'.val =
      some (defaulted (inherited (attrs.map Attr.key) (groupSettings (varsOf gpre) gattrs)) node, deps) := by
    have hbuild := buildNode_inlined (varsOf gpre) hn hperm hfree hr hv
    cases hr' : buildNode z (varsOf pre) 0 name attrs' with
    | error e => rw [hr'] at hbuild; cases hbuild
    | ok r' => exact ⟨r', rfl, Except.ok.inj (hr' ▸ hbuild)⟩
  generalize hnode' : defaulted (inherited (attrs.map Attr.key) (groupSettings (varsOf gpre) gattrs)) node = node' at hv'
  -- the second text: the same statements around an object of the same name
  have hobj' : interpret st (.object name attrs') =
      .ok { st with objects := st.objects ++ [⟨name, node', deps, 0, attrs'.map Attr.key⟩] } := by
    obtain ⟨hvars, hnum⟩ := vars_interpretAll hpre
    dsimp only [interpret]
    rw [hvars, hnum, show List.foldl bindClause [] pre = varsOf pre from rfl, hr']
    simp only [Except.map, hv', addBuilt, hnew, Bool.false_eq_true, if_false]
  have hacc' : AcceptedAt z pre name attrs' i := ⟨st, _, hpre, hobj', by simp, hi⟩
  obtain ⟨new, hfin'⟩ : ∃ new, (pre ++ .object name attrs' :: post).foldlM interpret { numfailures := z } =
      .ok { fin with objects := new } := by
    obtain ⟨st₁, hst₁, hrest⟩ := foldlM_append_ok.mp hfin
    obtain rfl := Except.ok.inj (hpre.symm.trans hst₁)
    obtain ⟨st₂, hst₂, hpost⟩ := foldlM_cons_ok.mp hrest
    obtain rfl := Except.ok.inj (hobj.symm.trans hst₂)
    obtain ⟨new, -, hsame⟩ := interpretAll_objects hpost
    have := hsame (st.objects ++ [⟨name, node', deps, 0, attrs'.map Attr.key⟩]) (by simp)
    exact ⟨_, foldlM_append_ok.mpr ⟨st, hpre, foldlM_cons_ok.mpr ⟨_, hobj', this⟩⟩⟩
  obtain ⟨res', hres', hroots'⟩ := parse_of_ok hts' (hc' ▸ hfin')
  -- the group reaches the first object, and has nothing left to say to the second
  have hgroup : node.group = groupName (varsOf gpre) gname := by
    obtain ⟨raw, hraw, hstrip⟩ := Option.map_eq_some_iff.mp hmember
    obtain ⟨-, -, _, _, base, -, -, -, rfl⟩ := buildNode_built hr hv
    unfold overridden
    dsimp only
    rw [hraw]
    exact hstrip
  have hfinal : res.roots.node i = node' := by
    obtain ⟨r₁, node₁, deps₁, hr₁, hv₁, hnode₁⟩ := hacc.node hfin
    obtain rfl := Except.ok.inj (hr.symm.trans hr₁)
    obtain ⟨rfl, rfl⟩ := Prod.mk.inj (Option.some.inj (hv.symm.trans hv₁))
    rw [hroots, hnode₁, val_withDefaults]
    dsimp only
    rw [hgroup, if_neg hne, hlookup, ← hnode']
    rfl
  have hfinal' : res'.roots.node i = node' := by
    obtain ⟨r₁, node₁, deps₁, hr₁, hv₁, hnode₁⟩ := hacc'.node hfin'
    obtain rfl := Except.ok.inj (hr'.symm.trans hr₁)
    obtain ⟨rfl, rfl⟩ := Prod.mk.inj (Option.some.inj (hv'.symm.trans hv₁))
    have hgroup' : node'.group = groupName (varsOf gpre) gname := by
      rw [← hnode', group_defaulted, hgroup]
    rw [hroots', hnode₁, val_withDefaults]
    dsimp only
    rw [hgroup', if_neg hne, hlookup, Option.elim_some, inherited_inlined hperm, defaulted_nil]
  refine ⟨res', hres', hacc', hfinal'.trans hfinal.symm, node, deps, ?_, ?_⟩
  · rw [hr]
    exact congrArg Except.ok hv
  · rw [hfinal, ← hnode']
    exact untouched_defaulted _ _ node

end Inlining

/-- A group, and a member that declares one of its settings with a value that is not valid. -/
def groupText : Text :=
  ("group g \x7b contact a; numfailures 5; send_pings 3; \x7d " ++
    "object s \x7b host h; type ping; group g; numfailures 0; \x7d").toList

/-- The settings written into the member. -/
def inlinedText : Text :=
  ("group g \x7b contact a; numfailures 5; send_pings 3; \x7d " ++
    "object s \x7b host h; send_pings 3; type ping; group g; contact a; numfailures 0; \x7d").toList

def groupTextAttrs : List Attr :=
  [⟨"contact".toList, 0, some "a".toList, []⟩, ⟨"numfailures".toList, 0, some "5".toList, []⟩,
    ⟨"send_pings".toList, 0, some "3".toList, []⟩]

def memberAttrs : List Attr :=
  [⟨"host".toList, 0, some "h".toList, []⟩, ⟨"type".toList, 0, some "ping".toList, []⟩,
    ⟨"group".toList, 0, some "g".toList, []⟩, ⟨"numfailures".toList, 0, some "0".toList, []⟩]

def memberInlined : List Attr :=
  [⟨"host".toList, 0, some "h".toList, []⟩, ⟨"send_pings".toList, 0, some "3".toList, []⟩,
    ⟨"type".toList, 0, some "ping".toList, []⟩, ⟨"group".toList, 0, some "g".toList, []⟩,
    ⟨"contact".toList, 0, some "a".toList, []⟩, ⟨"numfailures".toList, 0, some "0".toList, []⟩]

/-- The state behind the group. -/
def memberState : State :=
  { numfailures := 2, groups :=
      addSettings (strip (@expand Python.ascii [] "g".toList).1) (@groupSettings Python.ascii [] groupTextAttrs) [] }

theorem group_inlining_groupText : ∃ res res', @parse Python.ascii groupText 2 = .ok res ∧
    @parse Python.ascii inlinedText 2 = .ok res' ∧ res'.roots.node 0 = res.roots.node 0 ∧
    (res.roots.node 0).contact = "a".toList ∧ (res.roots.node 0).maxDown = 2 := by
  obtain ⟨ts, hts, hc⟩ := @exists_tokens groupText [.group "g".toList groupTextAttrs, .object "s".toList memberAttrs]
    (by decide +kernel)
  obtain ⟨ts', hts', hc'⟩ := @exists_tokens inlinedText
    [.group "g".toList groupTextAttrs, .object "s".toList memberInlined] (by decide +kernel)
  have hobj : (@interpret Python.ascii memberState (.object "s".toList memberAttrs)).toOption.map (fun st =>
      (st.objects.length, ((@finish Python.ascii st).roots.node 0).contact,
        ((@finish Python.ascii st).roots.node 0).maxDown)) = some (1, "a".toList, 2) := by decide +kernel
  obtain ⟨st, hst, heq⟩ := Option.map_eq_some_iff.mp hobj
  obtain ⟨hlen, hcontact, hdown⟩ : _ ∧ _ ∧ _ := by simpa only [Prod.mk.injEq] using heq
  have hacc : @AcceptedAt Python.ascii 2 [.group "g".toList groupTextAttrs] "s".toList memberAttrs 0 :=
    ⟨memberState, st, rfl, toOption_eq_some.mp hst, hlen, rfl⟩
  have hfin : [.group "g".toList groupTextAttrs, .object "s".toList memberAttrs].foldlM (@interpret Python.ascii)
      { numfailures := 2 } = .ok st := foldlM_cons_ok.mpr ⟨memberState, rfl, foldlM_cons_ok.mpr
        ⟨st, toOption_eq_some.mp hst, rfl⟩⟩
  obtain ⟨res, hres, hroots⟩ := @parse_of_ok Python.ascii _ _ _ _ hts (hc ▸ hfin)
  obtain ⟨res', hres', -, hsame, -⟩ := @group_inlining Python.ascii groupText inlinedText ts ts' 2 res hts hts' hres
    [.group "g".toList groupTextAttrs] [] [] [.object "s".toList memberAttrs] "s".toList "g".toList memberAttrs
    memberInlined groupTextAttrs 0 hc hacc hc (by decide +kernel) (by decide +kernel) (by decide +kernel)
    (by unfold FreeOfVariables; decide +kernel) hc' (by decide +kernel)
  exact ⟨res, res', hres, hres', hsame, hroots ▸ hcontact, hroots ▸ hdown⟩

end Psysmon.Modern
