import Psysmon.Config.Modern

/-!
# Psysmon.Config.ModernSeed — what a modern config makes of the default threshold

`parse` takes the default threshold as an argument, the seed: an object's node starts with it, and `numfailures` of the
object or its group replaces it.  Nothing else looks at a threshold, so the parser commutes with a change of all
thresholds (`Node.mapMaxDown g`) that leaves the declared ones alone.

* `parse_eq`: a declared threshold is at least 1, so that a parse with seed 0 shows the threshold 0 at exactly the
  nodes that keep the seed; the parse with any other seed is read off it.
* `maxDown_of_undeclared`: an object that neither sets nor inherits `numfailures` keeps the seed.
-/

namespace Psysmon.Modern

open Lib Text Number

variable {g : ℤ → ℤ}

/-! ### The attributes of a node -/

/-- The update of a node does the same to the node with another threshold. -/
def Commutes (g : ℤ → ℤ) (f : Node → Log Node) : Prop := ∀ n, f (n.mapMaxDown g) = Node.mapMaxDown g <$> f n

section Commutes

variable {f f' : Node → Log Node}

theorem Commutes.pure {h : Node → Node} (hh : ∀ n, h (n.mapMaxDown g) = (h n).mapMaxDown g) :
    Commutes g fun n => pure (h n) :=
  fun n => (congrArg Pure.pure (hh n)).trans (map_pure _ _).symm

theorem Commutes.bind (hf : Commutes g f) (hf' : Commutes g f') : Commutes g fun n => f n >>= f' := by
  intro n
  calc f (n.mapMaxDown g) >>= f' = f n >>= fun m => f' (m.mapMaxDown g) := by rw [hf n, bind_map_left]
    _ = f n >>= fun m => Node.mapMaxDown g <$> f' m := by simp only [hf' _]
    _ = Node.mapMaxDown g <$> (f n >>= f') := (map_bind _ _ _).symm

/-- The value of an attribute is computed without a look at the node. -/
theorem Commutes.value {α : Type} (x : Log α) {k : α → Node → Log Node} (hk : ∀ a, Commutes g (k a)) :
    Commutes g fun n => x >>= fun a => k a n := by
  intro n
  simp only [map_bind, hk _ n]

theorem Commutes.warn {line : ℕ} {message : Text} : Commutes g fun n => do
    Log.warn line message
    return n :=
  .value _ fun _ => .pure fun _ => rfl

theorem Commutes.ite (c : Prop) [Decidable c] (hf : Commutes g f) (hf' : Commutes g f') :
    Commutes g fun n => if c then f n else f' n := by
  intro n
  split
  · exact hf n
  · exact hf' n

theorem Commutes.ifGiven (resolved : List (Text × Text)) (key : Text) {f : Text → Node → Log Node}
    (hf : ∀ raw, Commutes g (f raw)) : Commutes g (ifGiven resolved key f) := by
  intro n
  unfold Modern.ifGiven
  cases resolved.lookup key with
  | none => exact (map_pure _ _).symm
  | some raw => exact hf raw n

end Commutes

/-- A change of thresholds that does not touch the declared ones. -/
def FixesDeclared (g : ℤ → ℤ) : Prop := ∀ nf, 1 ≤ nf → g nf = nf

/-- The change of thresholds that puts `s` in the place of 0. -/
def seed (s z : ℤ) : ℤ := if z = 0 then s else z

theorem fixesDeclared_seed (s : ℤ) : FixesDeclared (seed s) := fun nf h => if_neg (by omega)

/-- Attributes through which no threshold gets in that `g` would change. -/
def Harmless (g : ℤ → ℤ) (resolved : List (Text × Text)) : Prop :=
  FixesDeclared g ∨ resolved.lookup "numfailures".toList = none

theorem Harmless.filter {resolved : List (Text × Text)} {p : Text × Text → Bool} (h : Harmless g resolved) :
    Harmless g (resolved.filter p) := by
  refine h.imp_right fun h => ?_
  rw [List.lookup_eq_none_iff] at h ⊢
  exact fun x hx => h x (List.mem_of_mem_filter hx)

theorem commutes_setQueuetime (line : ℕ) (name raw : Text) : Commutes g (setQueuetime line name raw) := by
  refine .value _ fun v => ?_
  cases v with
  | none => exact .pure fun _ => rfl
  | some interval => exact .ite _ .warn (.pure fun _ => rfl)

/-- The declared threshold takes the place of the old one. -/
theorem commutes_setNumfailures (hg : FixesDeclared g) (line : ℕ) (name raw : Text) :
    Commutes g (setNumfailures line name raw) := by
  refine .value _ fun v => ?_
  cases v with
  | none => exact .pure fun _ => rfl
  | some nf =>
    intro n
    dsimp only
    split
    · exact Commutes.warn n
    · rw [map_pure, Node.mapMaxDown, Node.mapMaxDown, hg nf (by omega)]

theorem commutes_setNodeContactOn (line : ℕ) (name raw : Text) : Commutes g (setNodeContactOn line name raw) := by
  intro n
  unfold setNodeContactOn
  cases contactOnOf raw with
  | none => exact Commutes.warn n
  | some c => rfl

theorem commutes_applyPingCounts (line : ℕ) (name : Text) (resolved : List (Text × Text)) :
    Commutes g (applyPingCounts line name resolved) := by
  refine .value _ fun send => .value _ fun minp => .value _ fun send' => .value _ fun minp' => .value _ fun pair => ?_
  exact .ite _ (.pure fun _ => rfl) (.pure fun _ => rfl)

/-- A port goes into the node without a look at its threshold. -/
theorem map_port {line : ℕ} {name : Text} (raw : Option Text) {k k' : Option ℤ → Option Node}
    (hk : ∀ p, k' p = (k p).map (Node.mapMaxDown g)) :
    ((port line name raw).map fun l => k' <$> l) =
      ((port line name raw).map fun l => k <$> l).map fun l => Option.map (Node.mapMaxDown g) <$> l := by
  obtain rfl : k' = fun p => (k p).map (Node.mapMaxDown g) := funext hk
  cases port line name raw with
  | error e => rfl
  | ok l => simp only [Except.map, Functor.map_map]

theorem typeFields_mapMaxDown (line : ℕ) (name kw : Text) (resolved : List (Text × Text)) (n : Node) :
    typeFields line name kw resolved (n.mapMaxDown g) =
      (typeFields line name kw resolved n).map fun l => Option.map (Node.mapMaxDown g) <$> l := by
  have hc : (n.mapMaxDown g).checkType = n.checkType := rfl
  unfold typeFields
  rw [hc]
  cases n.checkType <;> dsimp only
  case tcp | udp => exact map_port _ fun p => by cases p <;> rfl
  case http | https => split <;> rfl
  case pop3 | pop3s | imap | imaps | ftp | ftps =>
    split
    · rfl
    · simp only [Except.map, map_bind, map_pure, Option.map_some]
  case dns => split <;> rfl
  all_goals
    cases resolved.lookup "port".toList with
    | none => rfl
    | some raw => exact map_port _ fun p => rfl

/-! ### Edges -/

/-- The object with another threshold. -/
def Obj.mapMaxDown (g : ℤ → ℤ) (o : Obj) : Obj := { o with node := o.node.mapMaxDown g }

section Links

variable (objects : List Obj)

theorem linkDeps_mapMaxDown (o : Obj) (i : ℕ) (deps : List Text) (L : Links) :
    linkDeps (objects.map (Obj.mapMaxDown g)) (o.mapMaxDown g) i deps L = linkDeps objects o i deps L := by
  induction deps generalizing L with
  | nil => rfl
  | cons dep deps ih =>
    have hfind : (objects.map (Obj.mapMaxDown g)).findIdx? (·.name = dep) = objects.findIdx? (·.name = dep) := by
      rw [List.findIdx?_map]
      rfl
    simp only [linkDeps, hfind, List.length_map, ih]
    rfl

theorem linkAll_mapMaxDown (rest : List (Obj × ℕ)) (L : Links) :
    linkAll (objects.map (Obj.mapMaxDown g)) (rest.map (Prod.map (Obj.mapMaxDown g) id)) L =
      linkAll objects rest L := by
  induction rest generalizing L with
  | nil => rfl
  | cons x rest ih =>
    simp only [List.map_cons, Prod.map, linkAll, linkDeps_mapMaxDown, ih, id]
    rfl

/-- The edges do not depend on the thresholds. -/
theorem linked_mapMaxDown : linked (objects.map (Obj.mapMaxDown g)) = linked objects := by
  unfold linked
  rw [List.zipIdx_map]
  exact linkAll_mapMaxDown objects _ {}

theorem buildForest_mapMaxDown (rootName : Option Text) (rootLine : ℕ) :
    buildForest rootName rootLine (objects.map (Obj.mapMaxDown g)) =
      Forest.mapNodes (Node.mapMaxDown g) <$> buildForest rootName rootLine objects := by
  have hany (name : Text) : (objects.map (Obj.mapMaxDown g)).any (·.name = name) = objects.any (·.name = name) := by
    rw [List.any_map]
    rfl
  have hgraph (L : Links) : graph (objects.map (Obj.mapMaxDown g)) L =
      (graph objects L).map fun o => (o.1.mapMaxDown g, o.2) := by
    unfold graph
    rw [List.zipIdx_map, List.map_map, List.map_map]
    rfl
  refine Log.ext (Forest.ext_objs ?_ ?_) ?_
  · rw [objs_buildForest, linked_mapMaxDown, hgraph, ← objs_buildForest rootName rootLine]
    rfl
  · rw [roots_buildForest, linked_mapMaxDown, ← roots_buildForest rootName rootLine]
    rfl
  · rw [Log.log_map]
    unfold buildForest
    cases rootName with
    | none => simp only [Log.log_bind, Log.after, linked_mapMaxDown, Log.log_pure]
    | some name => simp only [hany, Log.log_bind, Log.after, linked_mapMaxDown, Log.log_pure]

end Links

variable [Python]

/-! ### Objects -/

theorem commutes_setSource (line : ℕ) (name raw : Text) : Commutes g (setSource line name raw) := by
  refine .value _ fun v => ?_
  cases v with
  | none => exact .pure fun _ => rfl
  | some src =>
    intro n
    dsimp only [Node.mapMaxDown]
    split
    · rfl
    · rfl

theorem commutes_applyOverrides (line : ℕ) (name : Text) {resolved : List (Text × Text)} (hg : Harmless g resolved) :
    Commutes g (applyOverrides line name resolved) := by
  have hnf : Commutes g (ifGiven resolved "numfailures".toList (setNumfailures line name)) := by
    rcases hg with hg | hg
    · exact .ifGiven _ _ (commutes_setNumfailures hg line name)
    · unfold ifGiven
      rw [hg]
      exact .pure fun _ => rfl
  have hgroup : Commutes g (ifGiven resolved "group".toList fun raw node => pure { node with group := strip raw }) :=
    .ifGiven _ _ fun _ => .pure fun _ => rfl
  have hcon := Commutes.ifGiven (g := g) resolved "contact_on".toList (commutes_setNodeContactOn line name)
  have hsrc := Commutes.ifGiven (g := g) resolved "source".toList (commutes_setSource line name)
  exact (Commutes.ifGiven resolved "queuetime".toList (commutes_setQueuetime line name)).bind <| hnf.bind <|
    hgroup.bind <| hcon.bind <| hsrc.bind (commutes_applyPingCounts line name resolved)

theorem buildNode_mapMaxDown (z : ℤ) (vars : List (Text × Text)) (line : ℕ) (name : Text) (attrs : List Attr)
    (hg : Harmless g (resolve vars (attrs.filter (·.key ≠ "dep".toList))).val) :
    buildNode (g z) vars line name attrs =
      (buildNode z vars line name attrs).map fun l => Option.map (Prod.map (Node.mapMaxDown g) id) <$> l := by
  unfold buildNode
  generalize resolve vars (attrs.filter (·.key ≠ "dep".toList)) = r at hg ⊢
  dsimp only
  generalize (if (r.val.lookup "host".toList).getD [] ≠ [] then (r.val.lookup "host".toList).getD []
    else (r.val.lookup "ip".toList).getD []) = host
  split
  · simp only [Except.map, map_bind, map_pure, Option.map_none]
  · cases (r.val.lookup "type".toList).bind (typeKeywords.lookup ·) with
    | none => simp only [Except.map, map_bind, map_pure, Option.map_none]
    | some ctype =>
      have hover := commutes_applyOverrides line name hg
      have hfields := typeFields_mapMaxDown (g := g) line name ((r.val.lookup "type".toList).getD []) r.val
        { hostname := host, checkType := ctype, maxDown := z, port := (defaultPort ctype).getD 0 }
      dsimp only [Node.mapMaxDown] at hfields ⊢
      rw [hfields]
      cases typeFields line name ((r.val.lookup "type".toList).getD []) r.val
          { hostname := host, checkType := ctype, maxDown := z, port := (defaultPort ctype).getD 0 } with
      | error e => rfl
      | ok fields =>
        simp only [Except.map, bind_map_left, map_bind, Except.ok.injEq]
        refine bind_congr fun _ => bind_congr fun o => ?_
        cases o with
        | none => rfl
        | some n =>
          have hn := hover { n with
            label := (r.val.lookup "desc".toList).getD n.label
            contact := (r.val.lookup "contact".toList).getD n.contact }
          dsimp only [Node.mapMaxDown, Option.map_some] at hn ⊢
          rw [hn]
          simp only [bind_map_left, map_bind, map_pure, Option.map_some, Prod.map, Node.mapMaxDown, id]

/-- The state with another seed and other objects. -/
def State.withObjects (st : State) (z : ℤ) (objects : List Obj) : State := { st with numfailures := z, objects }

/-- The state with other thresholds. -/
def State.mapMaxDown (g : ℤ → ℤ) (st : State) : State :=
  st.withObjects (g st.numfailures) (st.objects.map (Obj.mapMaxDown g))

theorem addObject_mapMaxDown (hg : FixesDeclared g) (line : ℕ) (name : Text) (attrs : List Attr) (st : State) :
    addObject line name attrs (st.mapMaxDown g) = (addObject line name attrs st).map (State.mapMaxDown g) := by
  unfold addObject
  rw [show (st.mapMaxDown g).numfailures = g st.numfailures from rfl, show (st.mapMaxDown g).vars = st.vars from rfl,
    buildNode_mapMaxDown st.numfailures _ _ _ _ (.inl hg)]
  cases buildNode st.numfailures st.vars line name attrs with
  | error e => rfl
  | ok l =>
    simp only [Except.map, Log.val_map, Log.log_map, Except.ok.injEq]
    cases l.val with
    | none => rfl
    | some r =>
      have hany : ((st.mapMaxDown g).logged l.log).objects.any (·.name = name) =
          (st.logged l.log).objects.any (·.name = name) := by
        simp only [State.logged, State.mapMaxDown, State.withObjects, List.any_map]
        rfl
      simp only [Option.map_some, Prod.map, hany]
      split
      · rfl
      · simp [State.mapMaxDown, State.withObjects, State.logged, Obj.mapMaxDown]

/-! ### Statements -/

section Frame

variable {z : ℤ} {objects : List Obj}

theorem configStatement_withObjects (line : ℕ) (st : State) (ts : List Token) :
    configStatement line (st.withObjects z objects) ts =
      (configStatement line st ts).map (·.withObjects z objects) id := by
  unfold configStatement
  dsimp only
  split
  · rfl
  · split <;> rfl

theorem setStatement_withObjects (line : ℕ) (st : State) (ts : List Token) :
    setStatement line (st.withObjects z objects) ts =
      (setStatement line st ts).map (·.withObjects z objects) id := by
  unfold setStatement
  dsimp only
  split
  · split
    · split <;> rfl
    · rfl
  · rfl

theorem rootStatement_withObjects (line : ℕ) (st : State) (ts : List Token) :
    rootStatement line (st.withObjects z objects) ts =
      (rootStatement line st ts).map (·.withObjects z objects) id := by
  unfold rootStatement
  dsimp only
  split
  · split <;> rfl
  · rfl

theorem addGroup_withObjects (line : ℕ) (name : Text) (attrs : List Attr) (st : State) :
    addGroup line name attrs (st.withObjects z objects) = (addGroup line name attrs st).withObjects z objects := by
  unfold addGroup
  split
  · rfl
  · dsimp only [State.logged, State.withObjects]
    split <;> rfl

theorem groupStatement_withObjects (line : ℕ) (st : State) (ts : List Token) :
    groupStatement line (st.withObjects z objects) ts =
      (groupStatement line st ts).map (·.withObjects z objects) id := by
  have hvars : (st.withObjects z objects).vars = st.vars := rfl
  unfold groupStatement
  match ts with
  | [] => rfl
  | n :: ts =>
    dsimp only
    rw [hvars]
    generalize subst st.vars line n.value = s
    split
    · match ts with
      | [] => rfl
      | b :: ts =>
        dsimp only
        generalize collectBlockAttrs .group (if strip s.val = [] then "?".toList else strip s.val) [] ts = r
        split
        · refine Prod.ext (Eq.trans ?_ (addGroup_withObjects line (strip s.val) r.val.1 _)) rfl
          dsimp only
          split <;> rfl
        · rfl
    · rfl

end Frame

/-- The state after a statement other than an object, under another seed and other objects. -/
theorem statement_withObjects {z : ℤ} {objects : List Obj} {st : State} {t : Token} (ts : List Token)
    (h : t.kind ≠ .word ∨ t.value ≠ "object".toList) :
    statement (st.withObjects z objects) t ts =
      (statement st t ts).map (Prod.map (·.withObjects z objects) id) := by
  unfold statement
  split
  · rfl
  rename_i hk
  have ho : t.value ≠ "object".toList := h.resolve_left hk
  rw [if_neg ho, if_neg ho]
  split
  · rw [configStatement_withObjects]; rfl
  split
  · rw [setStatement_withObjects]; rfl
  split
  · rw [rootStatement_withObjects]; rfl
  split
  · rw [groupStatement_withObjects]; rfl
  split
  · rfl
  · rfl

/-- Only an object changes the objects; nothing changes the seed. -/
theorem statement_frame {st st' : State} {t : Token} {ts rest : List Token}
    (h : t.kind ≠ .word ∨ t.value ≠ "object".toList) (hs : statement st t ts = .ok (st', rest)) :
    st'.numfailures = st.numfailures ∧ st'.objects = st.objects := by
  have : statement st t ts = (statement st t ts).map (Prod.map (·.withObjects st.numfailures st.objects) id) :=
    statement_withObjects ts h
  rw [hs] at this
  have := (Prod.mk.inj (Except.ok.inj this)).1
  rw [this]
  exact ⟨rfl, rfl⟩

theorem statement_object {st : State} {t : Token} (ts : List Token) (hk : t.kind = .word)
    (ht : t.value = "object".toList) : statement st t ts = objectStatement t.line st ts := by
  unfold statement
  rw [if_neg (not_not.mpr hk), ht, if_neg (by decide), if_neg (by decide), if_neg (by decide), if_pos rfl]

theorem objectStatement_mapMaxDown (hg : FixesDeclared g) (line : ℕ) (st : State) (ts : List Token) :
    objectStatement line (st.mapMaxDown g) ts =
      (objectStatement line st ts).map (Prod.map (State.mapMaxDown g) id) := by
  unfold objectStatement
  match ts with
  | [] => rfl
  | n :: ts =>
    dsimp only
    split
    · match ts with
      | [] => rfl
      | b :: ts =>
        dsimp only
        split
        · generalize collectBlockAttrs .object n.value [] ts = r
          have hst : (if r.val.2.1 = true then (st.mapMaxDown g).logged r.log
              else ((st.mapMaxDown g).logged r.log).warn line
                (who n.value ++ " is missing its closing '\x7d' (reached end of file)".toList)) =
              (if r.val.2.1 = true then st.logged r.log else (st.logged r.log).warn line
                (who n.value ++ " is missing its closing '\x7d' (reached end of file)".toList)).mapMaxDown g := by
            split <;> rfl
          rw [hst, addObject_mapMaxDown hg]
          cases addObject line n.value r.val.1 _ <;> rfl
        · rfl
    · rfl

theorem statement_mapMaxDown (hg : FixesDeclared g) (st : State) (t : Token) (ts : List Token) :
    statement (st.mapMaxDown g) t ts = (statement st t ts).map (Prod.map (State.mapMaxDown g) id) := by
  by_cases ht : t.kind = .word ∧ t.value = "object".toList
  · rw [statement_object ts ht.1 ht.2, statement_object ts ht.1 ht.2]
    exact objectStatement_mapMaxDown hg t.line st ts
  · have ht : t.kind ≠ .word ∨ t.value ≠ "object".toList := not_and_or.mp ht
    rw [State.mapMaxDown, statement_withObjects ts ht]
    cases hs : statement st t ts with
    | error e => rfl
    | ok r =>
      obtain ⟨hz, ho⟩ := statement_frame ht hs
      simp only [Except.map, Prod.map, State.mapMaxDown, hz, ho]

theorem statements_cons (st : State) (t : Token) (ts : List Token) :
    statements st (t :: ts) = (statement st t ts).bind fun r => statements r.1 r.2 := by
  rw [statements]
  split
  · rename_i h
    rw [h]
    rfl
  · rename_i h
    rw [h]
    rfl


theorem statements_mapMaxDown (hg : FixesDeclared g) (st : State) (ts : List Token) :
    statements (st.mapMaxDown g) ts = (statements st ts).map (State.mapMaxDown g) := by
  fun_induction statements st ts with
  | case1 st => rw [statements]; rfl
  | case2 st t ts e h =>
    rw [statements_cons, statement_mapMaxDown hg, h]
    rfl
  | case3 st t ts st' rest h ih =>
    rw [statements_cons, statement_mapMaxDown hg, h]
    exact ih

/-! ### Groups -/

theorem withDefaults_mapMaxDown (groups : List (Text × List (Text × Text))) (o : Obj)
    (hg : ∀ defaults, groups.lookup o.node.group = some defaults → Harmless g (inherited o.keys defaults)) :
    withDefaults groups (o.mapMaxDown g) = Node.mapMaxDown g <$> withDefaults groups o := by
  have hgroup : (o.mapMaxDown g).node.group = o.node.group := rfl
  unfold withDefaults
  rw [hgroup]
  split
  · exact (map_pure _ _).symm
  · cases hl : groups.lookup o.node.group with
    | none => exact (map_pure _ _).symm
    | some defaults =>
      have hsrc (src : Text) : Commutes g (inheritSource o src) := by
        intro n
        unfold inheritSource
        have hc : (n.mapMaxDown g).checkType = n.checkType := rfl
        rw [hc]
        split <;> rfl
      have hcon : Commutes g (ifGiven (inherited o.keys defaults) "contact".toList
          fun c node => pure { node with contact := c }) := .ifGiven _ _ fun _ => .pure fun _ => rfl
      exact ((Commutes.ifGiven _ _ hsrc).bind
        (hcon.bind (commutes_applyOverrides o.line o.name (hg defaults hl).filter))) o.node

theorem resolveGroupDefaults_mapMaxDown (hg : FixesDeclared g) (groups : List (Text × List (Text × Text)))
    (objects : List Obj) : resolveGroupDefaults groups (objects.map (Obj.mapMaxDown g)) =
      List.map (Obj.mapMaxDown g) <$> resolveGroupDefaults groups objects := by
  induction objects with
  | nil => rfl
  | cons o objects ih =>
    simp only [List.map_cons, resolveGroupDefaults, withDefaults_mapMaxDown groups o fun _ _ => .inl hg, ih,
      bind_map_left, map_bind, map_pure]
    rfl

theorem finish_mapMaxDown (hg : FixesDeclared g) (st : State) : finish (st.mapMaxDown g) =
    { finish st with roots := (finish st).roots.mapNodes (Node.mapMaxDown g) } := by
  have hobj := resolveGroupDefaults_mapMaxDown hg st.groups st.objects
  unfold finish
  dsimp only [State.mapMaxDown, State.withObjects]
  simp only [hobj, Log.val_map, Log.log_map, buildForest_mapMaxDown]

/-- **A parse with seed `s` is a parse with seed 0 in which `s` is put where a threshold is 0.** -/
theorem parse_eq (text : Text) (s : ℤ) : parse text s =
    (parse text 0).map fun r => { r with roots := r.roots.mapNodes (Node.mapMaxDown (seed s)) } := by
  have hst : ({ numfailures := s } : State) = State.mapMaxDown (seed s) { numfailures := 0 } := rfl
  unfold parse
  cases tokenize text with
  | error e => rfl
  | ok ts =>
    dsimp only
    rw [hst, statements_mapMaxDown (fixesDeclared_seed s)]
    cases statements { numfailures := 0 } ts with
    | error e => rfl
    | ok st => exact congrArg Except.ok (finish_mapMaxDown (fixesDeclared_seed s) st)

/-- Some node of the parsed forest keeps the seed. -/
def TakesSeed (text : Text) : Prop := ∃ r, parse text 0 = .ok r ∧ ∃ o ∈ r.roots.objs, o.1.maxDown = 0

/-- Two parses of a text differ exactly in the thresholds of the nodes that keep the seed. -/
theorem parse_roots_iff {text : Text} {s : ℤ} (s' : ℤ) {r : ParseResult Forest} (h : parse text s = .ok r) :
    ∃ r', parse text s' = .ok r' ∧ r'.overrides = r.overrides ∧
      (r'.roots = r.roots ↔ s' = s ∨ ¬ TakesSeed text) := by
  rw [parse_eq] at h
  rw [parse_eq text s']
  cases h0 : parse text 0 with
  | error e => rw [h0] at h; cases h
  | ok r₀ =>
    rw [h0] at h
    obtain rfl := Except.ok.inj h
    refine ⟨_, rfl, rfl, fun heq => ?_, fun hor => ?_⟩
    · refine or_iff_not_imp_right.mpr fun ht => ?_
      obtain ⟨r₁, hr₁, o, ho, hzero⟩ := not_not.mp ht
      obtain rfl := Except.ok.inj (h0.symm.trans hr₁)
      have hobjs : r₀.roots.objs.map (fun o => (o.1.mapMaxDown (seed s'), o.2)) =
          r₀.roots.objs.map fun o => (o.1.mapMaxDown (seed s), o.2) := congrArg Forest.objs heq
      have := congrArg (fun p => p.1.maxDown) (List.map_inj_left.mp hobjs o ho)
      simpa [Node.mapMaxDown, seed, hzero] using this
    · rcases hor with rfl | ht
      · rfl
      · refine Forest.ext_objs (List.map_inj_left.mpr fun o ho => ?_) rfl
        have hne : o.1.maxDown ≠ 0 := fun hz => ht ⟨r₀, h0, o, ho, hz⟩
        simp [Node.mapMaxDown, seed, hne]

/-! ### Objects without a threshold of their own -/

/-- The object is what `buildNode` makes of some attributes, under the seed `z`. -/
def Obj.BuiltFrom (o : Obj) (z : ℤ) : Prop :=
  ∃ vars attrs l, buildNode z vars o.line o.name attrs = .ok l ∧ l.val = some (o.node, o.deps) ∧
    o.keys = attrs.map Attr.key

theorem addObject_inv {line : ℕ} {name : Text} {attrs : List Attr} {st st' : State}
    (h : addObject line name attrs st = .ok st') :
    st'.numfailures = st.numfailures ∧ ∀ o ∈ st'.objects, o ∈ st.objects ∨ o.BuiltFrom st.numfailures := by
  unfold addObject at h
  cases hb : buildNode st.numfailures st.vars line name attrs with
  | error e => rw [hb] at h; cases h
  | ok l =>
    rw [hb] at h
    obtain rfl := Except.ok.inj h
    dsimp only
    cases hv : l.val with
    | none => exact ⟨rfl, fun o ho => .inl ho⟩
    | some r =>
      dsimp only
      split
      · exact ⟨rfl, fun o ho => .inl ho⟩
      · refine ⟨rfl, fun o ho => ?_⟩
        rcases List.mem_append.mp ho with ho | ho
        · exact .inl ho
        · obtain rfl := List.mem_singleton.mp ho
          exact .inr ⟨st.vars, attrs, l, hb, hv, rfl⟩

theorem objectStatement_inv {line : ℕ} {st st' : State} {ts rest : List Token}
    (h : objectStatement line st ts = .ok (st', rest)) :
    st'.numfailures = st.numfailures ∧ ∀ o ∈ st'.objects, o ∈ st.objects ∨ o.BuiltFrom st.numfailures := by
  have hsame {st'' : State} {rest' : List Token} (hs : Except.ok (st'', rest') = (.ok (st', rest) : Except Failure _))
      (hz : st''.numfailures = st.numfailures) (ho : st''.objects = st.objects) :
      st'.numfailures = st.numfailures ∧ ∀ o ∈ st'.objects, o ∈ st.objects ∨ o.BuiltFrom st.numfailures := by
    obtain ⟨rfl, -⟩ := Prod.mk.inj (Except.ok.inj hs)
    exact ⟨hz, fun o h => .inl (ho ▸ h)⟩
  unfold objectStatement at h
  match ts with
  | [] => exact hsame h rfl rfl
  | n :: ts =>
    dsimp only at h
    split at h
    · match ts with
      | [] => exact hsame h rfl rfl
      | b :: ts =>
        dsimp only at h
        split at h
        · cases ha : addObject line n.value (collectBlockAttrs .object n.value [] ts).val.1 _ with
          | error e => rw [ha] at h; cases h
          | ok st₁ =>
            rw [ha] at h
            obtain ⟨rfl, -⟩ := Prod.mk.inj (Except.ok.inj h)
            have := addObject_inv ha
            split at this <;> exact this
        · exact hsame h rfl rfl
    · exact hsame h rfl rfl

/-- The objects of a text are built with the seed. -/
theorem statements_inv {st st' : State} {ts : List Token} (h : statements st ts = .ok st') :
    st'.numfailures = st.numfailures ∧ ∀ o ∈ st'.objects, o ∈ st.objects ∨ o.BuiltFrom st.numfailures := by
  fun_induction statements st ts with
  | case1 st =>
    obtain rfl := Except.ok.inj h
    exact ⟨rfl, fun o ho => .inl ho⟩
  | case2 st t ts e hs => cases h
  | case3 st t ts st₁ rest hs ih =>
    have hstep : st₁.numfailures = st.numfailures ∧
        ∀ o ∈ st₁.objects, o ∈ st.objects ∨ o.BuiltFrom st.numfailures := by
      by_cases ht : t.kind = .word ∧ t.value = "object".toList
      · exact objectStatement_inv ((statement_object ts ht.1 ht.2).symm.trans hs)
      · obtain ⟨hz, ho⟩ := statement_frame (not_and_or.mp ht) hs
        exact ⟨hz, fun o h => .inl (ho ▸ h)⟩
    obtain ⟨hz, ho⟩ := ih h
    exact ⟨hz.trans hstep.1, fun o h => (ho o h).elim (hstep.2 o) fun hb => .inr (hstep.1 ▸ hb)⟩

theorem keys_resolve (vars : List (Text × Text)) (attrs : List Attr) :
    (resolve vars attrs).val.map Prod.fst = attrs.map Attr.key := by
  induction attrs with
  | nil => rfl
  | cons a attrs ih =>
    rw [resolve]
    cases a.value <;> exact congrArg (a.key :: ·) ih

/-- An object that declares no threshold starts with the seed. -/
theorem Obj.BuiltFrom.maxDown {o : Obj} {z : ℤ} (h : o.BuiltFrom z) (hk : "numfailures".toList ∉ o.keys) :
    o.node.maxDown = z := by
  obtain ⟨vars, attrs, l, hb, hv, hkeys⟩ := h
  have hharm : Harmless (fun _ => z) (resolve vars (attrs.filter (·.key ≠ "dep".toList))).val := by
    refine .inr (List.lookup_eq_none_iff.mpr fun x hx => ?_)
    have hmem : x.1 ∈ attrs.map Attr.key := by
      have := List.mem_map_of_mem (f := Prod.fst) hx
      rw [keys_resolve] at this
      obtain ⟨a, ha, hax⟩ := List.mem_map.mp this
      exact List.mem_map.mpr ⟨a, List.mem_of_mem_filter ha, hax⟩
    have hne : "numfailures".toList ≠ x.1 := fun e => hk (hkeys ▸ e ▸ hmem)
    simpa using hne
  -- the parse does not change if all thresholds are replaced by the seed
  have := buildNode_mapMaxDown z vars o.line o.name attrs hharm
  rw [hb] at this
  have := congrArg Log.val (Except.ok.inj this)
  rw [Log.val_map, hv, Option.map_some, Option.some.injEq] at this
  exact congrArg (fun r => r.1.maxDown) this

/-- The object neither declares a threshold nor inherits one from its group. -/
def Undeclared (groups : List (Text × List (Text × Text))) (o : Obj) : Prop :=
  "numfailures".toList ∉ o.keys ∧ ∀ defaults, groups.lookup o.node.group = some defaults →
    (inherited o.keys defaults).lookup "numfailures".toList = none

theorem maxDown_withDefaults {groups : List (Text × List (Text × Text))} {o : Obj} {z : ℤ} (h : o.BuiltFrom z)
    (hu : Undeclared groups o) : (withDefaults groups o).val.maxDown = z := by
  have hz : o.mapMaxDown (fun _ => z) = o := by
    rw [Obj.mapMaxDown, Node.mapMaxDown, ← h.maxDown hu.1]
  have := withDefaults_mapMaxDown (g := fun _ => z) groups o fun defaults hd => .inr (hu.2 defaults hd)
  rw [hz] at this
  rw [this, Log.val_map]
  rfl

theorem val_resolveGroupDefaults (groups : List (Text × List (Text × Text))) (objects : List Obj) :
    (resolveGroupDefaults groups objects).val = objects.map fun o => { o with node := (withDefaults groups o).val } := by
  induction objects with
  | nil => rfl
  | cons o objects ih =>
    rw [List.map_cons, ← ih]
    rfl

/-- The node of the `i`-th object. -/
theorem node_finish {st : State} {i : ℕ} {o : Obj} (h : st.objects[i]? = some o) :
    (finish st).roots.node i = (withDefaults st.groups o).val := by
  unfold Forest.node finish
  dsimp only
  rw [objs_buildForest, val_resolveGroupDefaults, graph]
  simp [h]

/-- **An object that neither declares nor inherits a threshold has the seed.** -/
theorem maxDown_of_undeclared {ts : List Token} {z : ℤ} {st : State}
    (h : statements { numfailures := z } ts = .ok st) {i : ℕ} {o : Obj} (ho : st.objects[i]? = some o)
    (hu : Undeclared st.groups o) : ((finish st).roots.node i).maxDown = z := by
  rw [node_finish ho]
  have hb := (statements_inv h).2 o (List.mem_of_getElem? ho)
  exact maxDown_withDefaults (hb.resolve_left (by simp)) hu

end Psysmon.Modern
