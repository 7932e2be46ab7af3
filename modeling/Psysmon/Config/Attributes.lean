import Psysmon.Config.ModernSeed

/-!
# Psysmon.Config.Attributes — what the attributes of an object make of its node

The values of `_build_node`, `_apply_overrides` and `_resolve_group_defaults`, as functions of the attributes alone:
lines and names only reach the warnings.

* `val_applyOverrides`, `val_buildNode`, `val_withDefaults`: the three functions.
* `lookup_resolvedOf`, `valueIn_bodyAttrs`: of a repeated attribute the first counts.
-/

namespace Psysmon.Modern

open Lib Text Number

/-! ### Overrides -/

/-- The interval after `queuetime`. -/
def intervalFrom (raw : Text) (old : Option ℚ) : Option ℚ :=
  match numberFloat raw with
  | some q => if q ≤ 0 then old else some q
  | none => old

/-- The threshold after `numfailures`. -/
def maxDownFrom (raw : Text) (old : ℤ) : ℤ :=
  match numberInt raw with
  | some n => if n < 1 then old else n
  | none => old

/-- The transitions that page after `contact_on`. -/
def contactOnFrom (raw : Text) (old : Option ContactOn) : Option ContactOn := (contactOnOf raw).or old

/-- A ping count that is a number and at least 1. -/
def countFrom (raw : Option Text) : Option ℤ := (raw.bind numberInt).filter (1 ≤ ·)

/-- The two ping counts, dropped if more replies than echoes are asked for. -/
def orderedCounts : Option ℤ → Option ℤ → Option ℤ × Option ℤ
  | some send, some minp => if send < minp then (none, none) else (some send, some minp)
  | send, minp => (send, minp)

/-- The ping counts after `send_pings` and `min_pings`. -/
def countsFrom (send minp : Option Text) (old : Option ℤ × Option ℤ) : Option ℤ × Option ℤ :=
  let pair := orderedCounts (countFrom send) (countFrom minp)
  if (send.isSome ∧ pair.1 = none) ∨ (minp.isSome ∧ pair.2 = none) then old else (pair.1.or old.1, pair.2.or old.2)

section Overrides

variable (line : ℕ) (name : Text)

theorem val_ifGiven {f : Text → Node → Log Node} {g : Text → Node → Node}
    (hf : ∀ raw node, (f raw node).val = g raw node) (r : List (Text × Text)) (key : Text) (node : Node) :
    (ifGiven r key f node).val = (r.lookup key).elim node (g · node) := by
  unfold ifGiven
  cases r.lookup key with
  | none => rfl
  | some raw => exact hf raw node

theorem val_setQueuetime (raw : Text) (node : Node) :
    (setQueuetime line name raw node).val = { node with interval := intervalFrom raw node.interval } := by
  unfold setQueuetime number intervalFrom
  simp only [Log.val_bind, Log.val_pure]
  cases numberFloat raw with
  | none => rfl
  | some q =>
    dsimp only
    split <;> rfl

theorem val_setNumfailures (raw : Text) (node : Node) :
    (setNumfailures line name raw node).val = { node with maxDown := maxDownFrom raw node.maxDown } := by
  unfold setNumfailures number maxDownFrom
  simp only [Log.val_bind, Log.val_pure]
  cases numberInt raw with
  | none => rfl
  | some n =>
    dsimp only
    split <;> rfl

theorem val_setNodeContactOn (raw : Text) (node : Node) :
    (setNodeContactOn line name raw node).val = { node with contactOn := contactOnFrom raw node.contactOn } := by
  unfold setNodeContactOn contactOnFrom
  cases contactOnOf raw <;> rfl

theorem val_pingCount (r : List (Text × Text)) (key : Text) :
    (pingCount line name r key).val = (r.lookup key).bind numberInt := by
  unfold pingCount
  cases r.lookup key <;> rfl

theorem val_atLeastOne (key : Text) (n : Option ℤ) : (atLeastOne line name key n).val = n.filter (1 ≤ ·) := by
  cases n with
  | none => rfl
  | some n =>
    unfold atLeastOne
    dsimp only
    rw [Option.filter_some]
    by_cases h : n < 1
    · rw [if_pos h, if_neg (by simpa using h)]
      rfl
    · rw [if_neg h, if_pos (by simpa using h)]
      rfl

theorem val_ordered (send minp : Option ℤ) : (ordered line name send minp).val = orderedCounts send minp := by
  cases send with
  | none => rfl
  | some send =>
    cases minp with
    | none => rfl
    | some minp =>
      unfold ordered orderedCounts
      dsimp only
      split <;> rfl

theorem val_applyPingCounts (r : List (Text × Text)) (node : Node) :
    (applyPingCounts line name r node).val =
      let counts := countsFrom (r.lookup "send_pings".toList) (r.lookup "min_pings".toList)
        (node.sendPings, node.minPings)
      { node with sendPings := counts.1, minPings := counts.2 } := by
  unfold applyPingCounts
  simp only [Log.val_bind, val_pingCount, val_atLeastOne, val_ordered]
  unfold countsFrom countFrom
  dsimp only
  split <;> rfl

theorem val_port (line' : ℕ) (name' : Text) (raw : Option Text) :
    (port line name raw).map Log.val = (port line' name' raw).map Log.val := by
  unfold port
  cases raw with
  | none => rfl
  | some raw =>
    dsimp only
    split
    · cases int (strip raw) with
      | none => rfl
      | some p =>
        dsimp only [Except.map]
        split <;> rfl
    · rfl

theorem val_typeFields (line' : ℕ) (name' kw : Text) (r : List (Text × Text)) (node : Node) :
    (typeFields line name kw r node).map Log.val = (typeFields line' name' kw r node).map Log.val := by
  have hport (raw : Option Text) (f : Option ℤ → Option Node) :
      ((port line name raw).map (f <$> ·)).map Log.val = ((port line' name' raw).map (f <$> ·)).map Log.val := by
    have h := congrArg (Except.map f) (val_port line name line' name' raw)
    generalize port line name raw = x at h ⊢
    generalize port line' name' raw = y at h ⊢
    cases x <;> cases y <;> exact h
  cases hc : node.checkType <;> unfold typeFields <;> rw [hc] <;> dsimp only
  case tcp | udp => exact hport _ _
  case ping | ping6 | smtp | ssh | mysql | telnet =>
    cases r.lookup "port".toList with
    | none => rfl
    | some raw => exact hport _ _
  all_goals split <;> rfl

variable [Python]

theorem val_parseSource (line' : ℕ) (who who' raw : Text) :
    (parseSource line who raw).val = (parseSource line' who' raw).val := by
  unfold parseSource
  dsimp only
  split
  · rfl
  · split <;> rfl

/-- A canonical source address, if its family fits. -/
def familySource (ctype : CheckType) (src : Text) (old : Option Text) : Option Text :=
  if sourceFamilyOk ctype src then some src else old

/-- The source address after `source`. -/
def sourceFrom (ctype : CheckType) (raw : Text) (old : Option Text) : Option Text :=
  (parseSource 0 [] raw).val.elim old (familySource ctype · old)

theorem val_setSource (raw : Text) (node : Node) :
    (setSource line name raw node).val = { node with source := sourceFrom node.checkType raw node.source } := by
  unfold setSource sourceFrom
  simp only [Log.val_bind]
  rw [val_parseSource line 0 (who name) [] raw]
  cases (parseSource 0 [] raw).val with
  | none => rfl
  | some src =>
    dsimp only [Option.elim, familySource]
    split <;> rfl

/-- The node with the overrides among some attributes. -/
def overridden (r : List (Text × Text)) (node : Node) : Node :=
  let get := fun key : String => r.lookup key.toList
  let counts := countsFrom (get "send_pings") (get "min_pings") (node.sendPings, node.minPings)
  { node with
    interval := (get "queuetime").elim node.interval (intervalFrom · node.interval)
    maxDown := (get "numfailures").elim node.maxDown (maxDownFrom · node.maxDown)
    group := (get "group").elim node.group strip
    contactOn := (get "contact_on").elim node.contactOn (contactOnFrom · node.contactOn)
    source := (get "source").elim node.source (sourceFrom node.checkType · node.source)
    sendPings := counts.1
    minPings := counts.2 }

theorem val_applyOverrides (r : List (Text × Text)) (node : Node) :
    (applyOverrides line name r node).val = overridden r node := by
  have hqueue (n : Node) : (ifGiven r "queuetime".toList (setQueuetime line name) n).val =
      { n with interval := (r.lookup "queuetime".toList).elim n.interval (intervalFrom · n.interval) } := by
    rw [val_ifGiven (val_setQueuetime line name)]
    cases r.lookup "queuetime".toList <;> rfl
  have hfail (n : Node) : (ifGiven r "numfailures".toList (setNumfailures line name) n).val =
      { n with maxDown := (r.lookup "numfailures".toList).elim n.maxDown (maxDownFrom · n.maxDown) } := by
    rw [val_ifGiven (val_setNumfailures line name)]
    cases r.lookup "numfailures".toList <;> rfl
  have hgroup (n : Node) : (ifGiven r "group".toList (fun raw node => pure { node with group := strip raw }) n).val =
      { n with group := (r.lookup "group".toList).elim n.group strip } := by
    unfold ifGiven
    cases r.lookup "group".toList <;> rfl
  have hcontact (n : Node) : (ifGiven r "contact_on".toList (setNodeContactOn line name) n).val =
      { n with contactOn := (r.lookup "contact_on".toList).elim n.contactOn (contactOnFrom · n.contactOn) } := by
    rw [val_ifGiven (val_setNodeContactOn line name)]
    cases r.lookup "contact_on".toList <;> rfl
  have hsource (n : Node) : (ifGiven r "source".toList (setSource line name) n).val =
      { n with source := (r.lookup "source".toList).elim n.source (sourceFrom n.checkType · n.source) } := by
    rw [val_ifGiven (val_setSource line name)]
    cases r.lookup "source".toList <;> rfl
  unfold applyOverrides
  simp only [Log.val_bind, hqueue, hfail, hgroup, hcontact, hsource, val_applyPingCounts]
  rfl

end Overrides

/-! ### Objects -/

deriving instance DecidableEq for Attr

def Attr.unlined (a : Attr) : Attr := { a with line := 0 }

theorem filter_unlined (attrs : List Attr) (p : Text → Bool) :
    (attrs.map Attr.unlined).filter (fun a => p a.key) = (attrs.filter fun a => p a.key).map Attr.unlined := by
  rw [List.filter_map]
  rfl

/-- The value of the first attribute `key` in the body of a block. -/
def firstValue (key : Text) : List Token → Option (Option Text)
  | [] => none
  | t :: ts =>
    if _h : t.kind = .rbrace then none
    else if t.kind ≠ .word then firstValue key (collectAttr (t :: ts)).val.2
    else if t.value = key then some ((dropKind .equals (collectAttr ts).val.1).head?.map Token.value)
    else firstValue key (collectAttr ts).val.2
termination_by ts => ts.length
decreasing_by
  · have := length_collectAttr_cons ts ‹_›
    simp only [List.length_cons]
    omega
  · have := length_collectAttr ts
    simp only [List.length_cons]
    omega

/-- The value of an attribute of a list. -/
def valueIn (key : Text) (attrs : List Attr) : Option (Option Text) := (attrs.find? (·.key = key)).map Attr.value

theorem valueIn_append (key : Text) (a b : List Attr) : valueIn key (a ++ b) = (valueIn key a).or (valueIn key b) := by
  rw [valueIn, List.find?_append]
  cases ha : a.find? (·.key = key) with
  | none => simp [valueIn, ha]
  | some x => simp [valueIn, ha]

theorem valueIn_addAttr (kind : BlockKind) (name key : Text) (attrs : List Attr) (t : Token) (v : Option Text) :
    valueIn key (addAttr kind name attrs t v).val =
      (valueIn key attrs).or (if t.value = key then some v else none) := by
  unfold addAttr
  by_cases hany : attrs.any (·.key = t.value) = true
  · -- the key is there already: its first value stays
    have hsome (hk : t.value = key) : (valueIn key attrs).isSome = true := by
      subst hk
      rw [valueIn, Option.isSome_map, List.find?_isSome]
      simpa using hany
    have hor : (valueIn key attrs).or (if t.value = key then some v else none) = valueIn key attrs := by
      split
      · obtain ⟨x, hx⟩ := Option.isSome_iff_exists.mp (hsome ‹_›)
        rw [hx]
        rfl
      · exact Option.or_none
    rw [if_pos hany, hor]
    split
    · have hfind : (attrs.map fun a => if a.key = t.value then { a with more := a.more ++ [v] } else a).find?
          (·.key = key) = (attrs.find? (·.key = key)).map
            fun a => if a.key = t.value then { a with more := a.more ++ [v] } else a := by
        rw [List.find?_map]
        congr 2
        funext a
        dsimp only [Function.comp_apply]
        split <;> rfl
      rw [Log.val_pure, valueIn, hfind, Option.map_map, valueIn]
      congr 1
      funext a
      dsimp only [Function.comp_apply]
      split <;> rfl
    · rfl
  · rw [if_neg hany, Log.val_pure, valueIn_append]
    congr 1
    by_cases hk : t.value = key <;> simp [valueIn, hk]

theorem valueIn_collectBlockAttrs (kind : BlockKind) (name key : Text) (attrs : List Attr) (ts : List Token) :
    valueIn key (collectBlockAttrs kind name attrs ts).val.1 = (valueIn key attrs).or (firstValue key ts) := by
  fun_induction collectBlockAttrs kind name attrs ts with
  | case1 attrs => rw [firstValue, Option.or_none]; rfl
  | case2 attrs t ts h => rw [firstValue, dif_pos h, Option.or_none]; rfl
  | case3 attrs t ts h hw ih =>
    rw [firstValue, dif_neg h, if_pos hw]
    exact ih
  | case4 attrs t ts h hw r ih =>
    rw [firstValue, dif_neg h, if_neg hw]
    simp only [Log.val_bind]
    rw [ih, valueIn_addAttr, Option.or_assoc]
    congr 1
    split
    · rfl
    · exact Option.none_or

theorem lookup_map_key (key : Text) (f : Attr → Text) (attrs : List Attr) :
    (attrs.map fun a => (a.key, f a)).lookup key = (attrs.find? (·.key = key)).map f := by
  induction attrs with
  | nil => rfl
  | cons a attrs ih =>
    rw [List.map_cons, List.lookup_cons, List.find?_cons]
    by_cases hk : a.key = key
    · simp [hk]
    · have : (key == a.key) = false := by simpa using fun h => hk h.symm
      rw [this]
      simp [hk, ih]

variable [Python]

@[simp] theorem val_subst (vars : List (Text × Text)) (line : ℕ) (v : Text) :
    (subst vars line v).val = (expand vars v).1 := rfl

/-- The value of an attribute, variables replaced. -/
def Attr.expanded (vars : List (Text × Text)) (a : Attr) : Text := (a.value.map fun v => (expand vars v).1).getD []

theorem val_resolve (vars : List (Text × Text)) (attrs : List Attr) :
    (resolve vars attrs).val = attrs.map fun a => (a.key, a.expanded vars) := by
  induction attrs with
  | nil => rfl
  | cons a attrs ih =>
    rw [resolve, List.map_cons, ← ih, Attr.expanded]
    cases a.value <;> rfl

theorem val_resolve_unlined (vars : List (Text × Text)) (attrs : List Attr) :
    (resolve vars (attrs.map Attr.unlined)).val = (resolve vars attrs).val := by
  rw [val_resolve, val_resolve, List.map_map]
  rfl

theorem val_depNames (vars : List (Text × Text)) (line line' : ℕ) (edges : List (Option Text)) (names : List Text) :
    (depNames vars line edges names).val = (depNames vars line' edges names).val := by
  induction edges generalizing names with
  | nil => rfl
  | cons edge edges ih =>
    unfold depNames
    cases edge <;> exact ih _

theorem val_objectDeps_unlined (vars : List (Text × Text)) (attrs : List Attr) :
    (objectDeps vars (attrs.map Attr.unlined)).val = (objectDeps vars attrs).val := by
  have hfind : (attrs.map Attr.unlined).find? (·.key = "dep".toList) =
      (attrs.find? (·.key = "dep".toList)).map Attr.unlined := List.find?_map
  unfold objectDeps
  rw [hfind]
  cases attrs.find? (·.key = "dep".toList) with
  | none => rfl
  | some a => exact val_depNames vars _ _ _ _

/-- The values of an object's attributes, by key. -/
def resolvedOf (vars : List (Text × Text)) (attrs : List Attr) : List (Text × Text) :=
  (resolve vars (attrs.filter (·.key ≠ "dep".toList))).val

/-- The host of an object: `host`, or else its synonym `ip`. -/
def hostOf (r : List (Text × Text)) : Text :=
  if (r.lookup "host".toList).getD [] ≠ [] then (r.lookup "host".toList).getD [] else (r.lookup "ip".toList).getD []

/-- The check type of an object. -/
def typeOf (r : List (Text × Text)) : Option CheckType := (r.lookup "type".toList).bind (typeKeywords.lookup ·)

/-- The node that the fields of the type are put into. -/
def startNode (z : ℤ) (host : Text) (ctype : CheckType) : Node :=
  { hostname := host, checkType := ctype, maxDown := z, port := (defaultPort ctype).getD 0 }

/-- The node with the label and the contact of the object. -/
def described (r : List (Text × Text)) (node : Node) : Node :=
  { node with label := (r.lookup "desc".toList).getD node.label, contact := (r.lookup "contact".toList).getD node.contact }

/-- The value of `_build_node`. -/
theorem val_buildNode (z : ℤ) (vars : List (Text × Text)) (line : ℕ) (name : Text) (attrs : List Attr) :
    (buildNode z vars line name attrs).map Log.val =
      if hostOf (resolvedOf vars attrs) = [] then .ok none
      else match typeOf (resolvedOf vars attrs) with
        | none => .ok none
        | some ctype =>
          (typeFields 0 [] (((resolvedOf vars attrs).lookup "type".toList).getD []) (resolvedOf vars attrs)
            (startNode z (hostOf (resolvedOf vars attrs)) ctype)).map fun l => l.val.map fun node =>
              (overridden (resolvedOf vars attrs) (described (resolvedOf vars attrs) node), (objectDeps vars attrs).val) := by
  unfold buildNode
  change Except.map Log.val (if hostOf (resolvedOf vars attrs) = [] then _ else match typeOf (resolvedOf vars attrs) with
    | none => _
    | some ctype => (typeFields line name (((resolvedOf vars attrs).lookup "type".toList).getD []) (resolvedOf vars attrs)
        (startNode z (hostOf (resolvedOf vars attrs)) ctype)).map _) = _
  generalize hr : resolvedOf vars attrs = r
  split
  · rfl
  · cases typeOf r with
    | none => rfl
    | some ctype =>
      dsimp only
      have h := val_typeFields line name 0 [] ((r.lookup "type".toList).getD []) r (startNode z (hostOf r) ctype)
      generalize typeFields line name ((r.lookup "type".toList).getD []) r (startNode z (hostOf r) ctype) = x at h ⊢
      generalize typeFields 0 [] ((r.lookup "type".toList).getD []) r (startNode z (hostOf r) ctype) = y at h ⊢
      cases x with
      | error e =>
        cases y with
        | error e' => exact congrArg Except.error (Except.error.inj h)
        | ok y => cases h
      | ok x =>
        cases y with
        | error e' => cases h
        | ok y =>
          have hval : x.val = y.val := Except.ok.inj h
          simp only [Except.map, Log.val_bind, hval, Except.ok.injEq]
          cases y.val with
          | none => rfl
          | some node =>
            simp only [Log.val_bind, Log.val_pure, val_applyOverrides, Option.map_some, ← hr]
            rfl

/-- An object that is built has a host, a type and the fields of its type. -/
theorem buildNode_built {z : ℤ} {vars : List (Text × Text)} {line : ℕ} {name : Text} {attrs : List Attr}
    {l : Log (Option (Node × List Text))} {node : Node} {deps : List Text}
    (h : buildNode z vars line name attrs = .ok l) (hv : l.val = some (node, deps)) :
    let r := resolvedOf vars attrs
    hostOf r ≠ [] ∧ deps = (objectDeps vars attrs).val ∧ ∃ ctype fields base, typeOf r = some ctype ∧
      typeFields 0 [] ((r.lookup "type".toList).getD []) r (startNode z (hostOf r) ctype) = .ok fields ∧
      fields.val = some base ∧ node = overridden r (described r base) := by
  intro r
  have hval := val_buildNode z vars line name attrs
  rw [h] at hval
  change Except.ok l.val = if hostOf r = [] then Except.ok none else match typeOf r with
    | none => .ok none
    | some ctype => (typeFields 0 [] ((r.lookup "type".toList).getD []) r (startNode z (hostOf r) ctype)).map _ at hval
  rw [hv] at hval
  split at hval
  · cases hval
  · rename_i hhost
    cases ht : typeOf r with
    | none => rw [ht] at hval; cases hval
    | some ctype =>
      rw [ht] at hval
      dsimp only at hval
      cases hf : typeFields 0 [] ((r.lookup "type".toList).getD []) r (startNode z (hostOf r) ctype) with
      | error e => rw [hf] at hval; cases hval
      | ok fields =>
        rw [hf] at hval
        obtain ⟨base, hbase, hnode⟩ := Option.map_eq_some_iff.mp (Except.ok.inj hval).symm
        obtain ⟨rfl, rfl⟩ := Prod.mk.inj hnode
        exact ⟨hhost, rfl, ctype, fields, base, rfl, hf, hbase, rfl⟩

theorem val_buildNode_unlined (z : ℤ) (vars : List (Text × Text)) (line : ℕ) (name : Text) (attrs : List Attr) :
    (buildNode z vars 0 name (attrs.map Attr.unlined)).map Log.val = (buildNode z vars line name attrs).map Log.val := by
  have hres : resolvedOf vars (attrs.map Attr.unlined) = resolvedOf vars attrs := by
    rw [resolvedOf, filter_unlined attrs fun k => decide (k ≠ "dep".toList), val_resolve_unlined]
    rfl
  rw [val_buildNode, val_buildNode, hres, val_objectDeps_unlined]

/-- The value of an attribute that counts, variables replaced. -/
theorem lookup_resolvedOf (vars : List (Text × Text)) (attrs : List Attr) {key : Text} (hk : key ≠ "dep".toList) :
    (resolvedOf vars attrs).lookup key =
      (valueIn key attrs).map fun v => (v.map fun t => (expand vars t).1).getD [] := by
  have hfind : (attrs.filter (·.key ≠ "dep".toList)).find? (·.key = key) = attrs.find? (·.key = key) := by
    rw [List.find?_filter]
    congr 1
    funext a
    by_cases ha : a.key = key
    · have : decide (a.key ≠ "dep".toList) = true := decide_eq_true (ha ▸ hk)
      rw [this, decide_eq_true ha]
      rfl
    · rw [decide_eq_false ha]
      simp only [Bool.false_eq_true, and_false, decide_false]
  rw [resolvedOf, val_resolve, lookup_map_key, hfind, valueIn, Option.map_map]
  rfl

/-! ### Group defaults -/

/-- The node with what it takes over from its group. -/
def defaulted (inh : List (Text × Text)) (node : Node) : Node :=
  overridden (inh.filter fun d => d.1 ≠ "source".toList ∧ d.1 ≠ "contact".toList)
    { node with
      source := (inh.lookup "source".toList).elim node.source (familySource node.checkType · node.source)
      contact := (inh.lookup "contact".toList).getD node.contact }

theorem val_withDefaults (groups : List (Text × List (Text × Text))) (o : Obj) :
    (withDefaults groups o).val =
      if o.node.group = [] then o.node
      else (groups.lookup o.node.group).elim o.node fun defaults => defaulted (inherited o.keys defaults) o.node := by
  have hsrc (src : Text) (node : Node) : (inheritSource o src node).val =
      { node with source := familySource node.checkType src node.source } := by
    unfold inheritSource familySource
    split <;> rfl
  unfold withDefaults
  split
  · rfl
  · cases groups.lookup o.node.group with
    | none => rfl
    | some defaults =>
      simp only [Log.val_bind, val_applyOverrides, val_ifGiven hsrc, Option.elim_some, defaulted]
      congr 1
      unfold ifGiven
      cases (inherited o.keys defaults).lookup "source".toList <;>
        cases (inherited o.keys defaults).lookup "contact".toList <;> rfl

end Psysmon.Modern
