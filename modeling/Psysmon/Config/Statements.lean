import Psysmon.Config.Attributes
import Psysmon.Lib.Fold

/-!
# Psysmon.Config.Statements — a modern config as a list of statements

The parser mixes reading and interpreting: each round of `parse_top` takes the tokens of one statement and carries it
out at once.  What it takes does not depend on what it has done so far (`after`), so a token list has a list of
statements (`clauses`), and a parse is their interpretation one by one (`interpret`).  Lines and warnings are left out here:
they never decide anything.

* `core_statement`, `core_statements`: one round and the whole loop.
* `parse_clauses`: a parse in these terms.
-/

namespace Psysmon.Modern

open Lib Text Number

/-! ### The statements of a token list -/

/-- A statement as it is written, without lines. -/
inductive Clause
  | config (name : Text) (values : List Token)
  | set (name value : Text)
  | root (name : Text)
  | object (name : Text) (attrs : List Attr)
  | group (name : Text) (attrs : List Attr)
  | includes (line : ℕ)
  | skipped
  deriving DecidableEq

def Token.unlined (t : Token) : Token := { t with line := 0 }

/-- The arguments of `config`. -/
def configClause : List Token → Clause
  | name :: values => if name.kind = .word then .config name.value (values.map Token.unlined) else .skipped
  | [] => .skipped

/-- The arguments of `set`. -/
def setClause : List Token → Clause
  | name :: eq :: value :: _ =>
    if name.kind = .word ∧ eq.kind = .equals ∧ (value.kind = .string ∨ value.kind = .word) then
      .set name.value value.value
    else .skipped
  | _ => .skipped

/-- The arguments of `root`. -/
def rootClause : List Token → Clause
  | eq :: name :: _ => if eq.kind = .equals ∧ name.kind = .string then .root name.value else .skipped
  | _ => .skipped

/-- The attributes in the body of a block. -/
def bodyAttrs (kind : BlockKind) (body : List Token) : List Attr :=
  (collectBlockAttrs kind [] [] body).val.1.map Attr.unlined

/-- What follows the body of a block. -/
def afterBody (body : List Token) : List Token := (collectBlockAttrs .object [] [] body).val.2.2

/-- What follows `object` or `group`; a name passes the test `named`. -/
def blockClause (kind : BlockKind) (named : TokenKind → Bool) : List Token → Clause
  | n :: b :: body =>
    if named n.kind ∧ b.kind = .lbrace then
      match kind with
      | .object => .object n.value (bodyAttrs .object body)
      | .group => .group n.value (bodyAttrs .group body)
    else .skipped
  | _ => .skipped

/-- The tokens after a block. -/
def afterBlock (named : TokenKind → Bool) : List Token → List Token
  | [] => []
  | n :: ts =>
    if named n.kind then
      match ts with
      | [] => []
      | b :: body => if b.kind = .lbrace then afterBody body else (collectToSemi (b :: body)).2.2
    else skipBlockOrSemi (n :: ts)

/-- The tokens that may name an object. -/
def namesObject (k : TokenKind) : Bool := k = .word

/-- The tokens that may name a group. -/
def namesGroup (k : TokenKind) : Bool := k = .word ∨ k = .string

/-- The statement that starts with token `t`. -/
def clause (t : Token) (ts : List Token) : Clause :=
  if t.kind ≠ .word then .skipped
  else if t.value = "config".toList then configClause (collectToSemi ts).1
  else if t.value = "set".toList then setClause (collectToSemi ts).1
  else if t.value = "root".toList then rootClause (collectToSemi ts).1
  else if t.value = "object".toList then blockClause .object namesObject ts
  else if t.value = "group".toList then blockClause .group namesGroup ts
  else if t.value = "include".toList then .includes t.line
  else .skipped

/-- The tokens after the statement that starts with token `t`. -/
def after (t : Token) (ts : List Token) : List Token :=
  if t.kind ≠ .word then (collectToSemi (t :: ts)).2.2
  else if t.value = "config".toList ∨ t.value = "set".toList ∨ t.value = "root".toList then (collectToSemi ts).2.2
  else if t.value = "object".toList then afterBlock namesObject ts
  else if t.value = "group".toList then afterBlock namesGroup ts
  else (collectToSemi (t :: ts)).2.2

theorem length_afterBlock (named : TokenKind → Bool) (ts : List Token) :
    (afterBlock named ts).length ≤ ts.length := by
  match ts with
  | [] => rfl
  | n :: ts =>
    unfold afterBlock
    dsimp only
    split
    · match ts with
      | [] => simp
      | b :: body =>
        dsimp only
        split
        · exact (length_collectBlockAttrs _ _ _ body).trans (by simp; omega)
        · exact (length_collectToSemi _).trans (Nat.le_succ _)
    · exact length_skipBlockOrSemi _

theorem length_after (t : Token) (ts : List Token) : (after t ts).length ≤ ts.length := by
  unfold after
  split
  · exact length_collectToSemi_cons t ts
  split
  · exact length_collectToSemi ts
  split
  · exact length_afterBlock _ ts
  split
  · exact length_afterBlock _ ts
  · exact length_collectToSemi_cons t ts

/-- The statements of a token list. -/
def clauses : List Token → List Clause
  | [] => []
  | t :: ts => clause t ts :: clauses (after t ts)
termination_by ts => ts.length
decreasing_by
  have := length_after t ts
  simp only [List.length_cons]
  omega

/-- What a block is called and how often an attribute is repeated there only matters for warnings. -/
theorem collectBlockAttrs_name (kind : BlockKind) (name name' : Text) (attrs : List Attr) (ts : List Token) :
    (collectBlockAttrs kind name attrs ts).val = (collectBlockAttrs kind name' attrs ts).val := by
  fun_induction collectBlockAttrs kind name attrs ts with
  | case1 attrs => rw [collectBlockAttrs]
  | case2 attrs t ts h => rw [collectBlockAttrs, dif_pos h]
  | case3 attrs t ts h hw ih =>
    rw [collectBlockAttrs, dif_neg h, if_pos hw]
    exact ih
  | case4 attrs t ts h hw r ih =>
    have hadd : (addAttr kind name attrs t ((dropKind .equals (collectAttr ts).val.1).head?.map Token.value)).val =
        (addAttr kind name' attrs t ((dropKind .equals (collectAttr ts).val.1).head?.map Token.value)).val := by
      unfold addAttr
      split
      · split <;> rfl
      · rfl
    rw [collectBlockAttrs, dif_neg h, if_neg hw]
    simp only [Log.val_bind]
    rw [← hadd]
    exact ih _

/-- How much a body takes is the same for every block. -/
theorem collectBlockAttrs_rest (kind kind' : BlockKind) (name name' : Text) (attrs attrs' : List Attr) (ts : List Token) :
    (collectBlockAttrs kind name attrs ts).val.2 = (collectBlockAttrs kind' name' attrs' ts).val.2 := by
  fun_induction collectBlockAttrs kind name attrs ts generalizing attrs' with
  | case1 attrs => rw [collectBlockAttrs]; rfl
  | case2 attrs t ts h => rw [collectBlockAttrs, dif_pos h]; rfl
  | case3 attrs t ts h hw ih =>
    rw [collectBlockAttrs, dif_neg h, if_pos hw]
    exact ih attrs'
  | case4 attrs t ts h hw r ih =>
    rw [collectBlockAttrs, dif_neg h, if_neg hw]
    exact ih _ _

theorem rest_collectBlockAttrs (kind : BlockKind) (name : Text) (body : List Token) :
    (collectBlockAttrs kind name [] body).val.2.2 = afterBody body :=
  congrArg Prod.snd (collectBlockAttrs_rest kind .object name [] [] [] body)

theorem attrs_collectBlockAttrs (kind : BlockKind) (name : Text) (body : List Token) :
    (collectBlockAttrs kind name [] body).val.1.map Attr.unlined = bodyAttrs kind body :=
  congrArg (fun r => r.1.map Attr.unlined) (collectBlockAttrs_name kind name [] [] body)

/-- Of a repeated attribute the first counts. -/
theorem valueIn_bodyAttrs (kind : BlockKind) (key : Text) (body : List Token) :
    valueIn key (bodyAttrs kind body) = firstValue key body := by
  have hun (attrs : List Attr) : valueIn key (attrs.map Attr.unlined) = valueIn key attrs := by
    rw [valueIn, List.find?_map, Option.map_map]
    rfl
  rw [bodyAttrs, hun, valueIn_collectBlockAttrs]
  exact Option.none_or

/-! ### Lines and names only reach the warnings -/

theorem map_val_map {α β : Type} {x y : Except Failure (Log α)} (h : x.map Log.val = y.map Log.val) (f : α → β) :
    x.map (fun r => f r.val) = y.map fun r => f r.val := by
  have := congrArg (Except.map f) h
  cases x <;> cases y <;> exact this

def Obj.unlined (o : Obj) : Obj := { o with line := 0 }

theorem val_linkDeps_unlined (objects : List Obj) (o : Obj) (i : ℕ) (deps : List Text) (L : Links) :
    (linkDeps (objects.map Obj.unlined) o.unlined i deps L).val = (linkDeps objects o i deps L).val := by
  induction deps generalizing L with
  | nil => rfl
  | cons dep deps ih =>
    have hfind : (objects.map Obj.unlined).findIdx? (·.name = dep) = objects.findIdx? (·.name = dep) := by
      rw [List.findIdx?_map]
      rfl
    rw [linkDeps, linkDeps, hfind, List.length_map]
    cases objects.findIdx? (·.name = dep) with
    | none => exact ih L
    | some p =>
      dsimp only
      split
      · exact ih L
      · exact congrArg (fun r : Links × Bool => (r.1, true)) (ih (L.link p i))

theorem val_linked_unlined (objects : List Obj) : (linked (objects.map Obj.unlined)).val = (linked objects).val := by
  have hall (rest : List (Obj × ℕ)) (L : Links) :
      (linkAll (objects.map Obj.unlined) (rest.map (Prod.map Obj.unlined id)) L).val =
        (linkAll objects rest L).val := by
    induction rest generalizing L with
    | nil => rfl
    | cons x rest ih =>
      have hd := val_linkDeps_unlined objects x.1 x.2 x.1.deps L
      simp only [List.map_cons, Prod.map, linkAll, Log.val_bind, id]
      rw [show x.1.unlined.deps = x.1.deps from rfl, hd]
      exact ih _
  unfold linked
  rw [List.zipIdx_map]
  exact hall _ {}

theorem buildForest_unlined (rootName : Option Text) (rootLine : ℕ) (objects : List Obj) :
    (buildForest rootName 0 (objects.map Obj.unlined)).val = (buildForest rootName rootLine objects).val := by
  have hgraph (L : Links) : graph (objects.map Obj.unlined) L = graph objects L := by
    unfold graph
    rw [List.zipIdx_map, List.map_map]
    rfl
  refine Forest.ext_objs ?_ ?_
  · rw [objs_buildForest, objs_buildForest, val_linked_unlined, hgraph]
  · rw [roots_buildForest, roots_buildForest, val_linked_unlined]

variable [Python]

/-! ### Interpreting a statement -/

/-- The state without lines and warnings. -/
def State.core (st : State) : State :=
  { st with warnings := [], rootLine := 0, objects := st.objects.map Obj.unlined }

/-- The objects with one more, unless it was skipped or its name is taken. -/
def addBuilt (name : Text) (keys : List Text) (objects : List Obj) : Option (Node × List Text) → List Obj
  | none => objects
  | some built =>
    if objects.any (·.name = name) then objects else objects ++ [⟨name, built.1, built.2, 0, keys⟩]

/-- The settings of a group: the first of each kind, a `source` in its canonical form. -/
def groupSettings (vars : List (Text × Text)) (attrs : List Attr) : List (Text × Text) :=
  let settings := (resolve vars attrs).val.filter (·.1 ∈ groupAttrs)
  match settings.lookup "source".toList with
  | none => settings
  | some raw =>
    match (parseSource 0 [] raw).val with
    | none => settings.filter (·.1 ≠ "source".toList)
    | some src => settings.map fun s => if s.1 = "source".toList then (s.1, src) else s

/-- The groups with one more, unless its name is empty or taken. -/
def addSettings (name : Text) (settings : List (Text × Text)) (groups : List (Text × List (Text × Text))) :
    List (Text × List (Text × Text)) :=
  if name = [] ∨ (groups.lookup name).isSome then groups else groups ++ [(name, settings)]

/-- What a statement does to the state. -/
def interpret (st : State) : Clause → Except Failure State
  | .config name values => .ok { st with overrides := (applyConfig st.vars 0 name values st.overrides).val }
  | .set name value => .ok { st with vars := (name, (expand st.vars value).1) :: st.vars }
  | .root name => .ok { st with rootName := some (expand st.vars name).1 }
  | .object name attrs =>
    (buildNode st.numfailures st.vars 0 name attrs).map fun r =>
      { st with objects := addBuilt name (attrs.map Attr.key) st.objects r.val }
  | .group name attrs =>
    .ok { st with groups := addSettings (strip (expand st.vars name).1) (groupSettings st.vars attrs) st.groups }
  | .includes line =>
    .error (.error ⟨warning line "`include` isn't supported yet (a follow-up milestone, #3)".toList⟩)
  | .skipped => .ok st

theorem interpret_object_ok {st st' : State} {name : Text} {attrs : List Attr}
    (h : interpret st (.object name attrs) = .ok st') :
    ∃ r, buildNode st.numfailures st.vars 0 name attrs = .ok r ∧
      st' = { st with objects := addBuilt name (attrs.map Attr.key) st.objects r.val } := by
  dsimp only [interpret] at h
  cases hb : buildNode st.numfailures st.vars 0 name attrs with
  | error e => rw [hb] at h; cases h
  | ok r =>
    rw [hb] at h
    exact ⟨r, rfl, (Except.ok.inj h).symm⟩

theorem core_addObject (line : ℕ) (name : Text) (attrs : List Attr) (st : State) :
    (addObject line name attrs st).map State.core =
      interpret st.core (.object name (attrs.map Attr.unlined)) := by
  have hkeys : (attrs.map Attr.unlined).map Attr.key = attrs.map Attr.key := List.map_map
  have hany : st.core.objects.any (·.name = name) = st.objects.any (·.name = name) := List.any_map
  have h := map_val_map (val_buildNode_unlined st.numfailures st.vars line name attrs)
    fun b => ({ st.core with objects := addBuilt name (attrs.map Attr.key) st.core.objects b } : State)
  dsimp only [interpret]
  rw [hkeys]
  refine Eq.trans ?_ h.symm
  unfold addObject
  cases buildNode st.numfailures st.vars line name attrs with
  | error e => rfl
  | ok l =>
    dsimp only [Except.map]
    refine congrArg Except.ok ?_
    cases l.val with
    | none => rfl
    | some built =>
      dsimp only [addBuilt]
      by_cases hd : st.objects.any (·.name = name) = true
      · rw [if_pos (hany.trans hd), if_pos (show (st.logged l.log).objects.any _ = true from hd)]
        rfl
      · have hd' : ¬ st.core.objects.any (·.name = name) = true := hany.symm ▸ hd
        rw [if_neg hd', if_neg (show ¬ (st.logged l.log).objects.any _ = true from hd)]
        simp only [State.core, State.logged, List.map_append]
        rfl

theorem core_addGroup (line : ℕ) (name : Text) (attrs : List Attr) (st : State) :
    (addGroup line name attrs st).core =
      { st.core with groups := addSettings name (groupSettings st.vars attrs) st.groups } := by
  unfold addGroup addSettings
  by_cases hn : name = []
  · rw [if_pos hn, if_pos (.inl hn)]
    rfl
  rw [if_neg hn]
  dsimp only [State.logged]
  by_cases hl : (st.groups.lookup name).isSome = true
  · rw [if_pos hl, if_pos (.inr hl)]
    rfl
  rw [if_neg hl, if_neg (not_or.mpr ⟨hn, hl⟩)]
  refine congrArg (fun s => ({ st.core with groups := st.groups ++ [(name, s)] } : State)) ?_
  unfold groupSettings
  dsimp only [Log.val_bind]
  generalize (resolve st.vars attrs).val.filter (·.1 ∈ groupAttrs) = settings
  cases settings.lookup "source".toList with
  | none => rfl
  | some raw =>
    dsimp only [Log.val_bind]
    rw [val_parseSource line 0 ("group '".toList ++ name ++ "'".toList) [] raw]
    cases (parseSource 0 [] raw).val <;> rfl

theorem groupSettings_unlined (vars : List (Text × Text)) (attrs : List Attr) :
    groupSettings vars (attrs.map Attr.unlined) = groupSettings vars attrs := by
  rw [groupSettings, val_resolve_unlined]
  rfl

theorem val_withValue (vars : List (Text × Text)) (line : ℕ) (name : Text) (values : List Token) (o : Overrides)
    {k : Text → Log Overrides} : (withValue vars line name values o k).val =
      match values.head? with
      | none => o
      | some v => (k (expand vars v.value).1).val := by
  cases values <;> rfl

theorem val_applyConfig (vars : List (Text × Text)) (line : ℕ) (name : Text) (values : List Token) (o : Overrides) :
    (applyConfig vars line name values o).val = (applyConfig vars 0 name (values.map Token.unlined) o).val := by
  have hset {k k' : Text → Log Overrides} (hk : ∀ raw, (k raw).val = (k' raw).val) (n n' : Text) :
      (withValue vars line n values o k).val = (withValue vars 0 n' (values.map Token.unlined) o k').val := by
    rw [val_withValue, val_withValue, List.head?_map]
    cases values.head? with
    | none => rfl
    | some v => exact hk _
  unfold applyConfig
  split
  · refine hset (fun raw => ?_) _ _
    cases int raw <;> rfl
  · refine hset (fun raw => ?_) _ _
    cases Number.float raw <;> rfl
  · exact hset (fun raw => rfl) _ _
  · rfl
  · split
    · refine hset (fun raw => ?_) _ _
      cases logLevelOf (Python.lower raw) <;> rfl
    split
    · refine hset (fun raw => ?_) _ _
      split
      · rfl
      · split <;> rfl
    split
    · refine hset (fun raw => ?_) _ _
      cases contactOnOf raw <;> rfl
    split
    · match values with
      | [] => rfl
      | [_] => rfl
      | [fmt, path] =>
        simp only [setStatusfile, List.map_cons, List.map_nil, Token.unlined]
        split
        · rfl
        · split <;> rfl
      | _ :: _ :: _ :: _ => rfl
    split <;> rfl

/-! ### The loop of statements -/

theorem core_configStatement (line : ℕ) (st : State) (ts : List Token) :
    (.ok ((configStatement line st ts).1.core, (configStatement line st ts).2) : Except Failure _) =
      (interpret st.core (configClause (collectToSemi ts).1)).map (·, (collectToSemi ts).2.2) := by
  unfold configStatement
  dsimp only [statementArgs_val]
  cases (collectToSemi ts).1 with
  | nil => rfl
  | cons name values =>
    dsimp only [configClause]
    split
    · simp only [interpret, Except.map, ← val_applyConfig st.core.vars line]
      rfl
    · rfl

theorem core_setStatement (line : ℕ) (st : State) (ts : List Token) :
    (.ok ((setStatement line st ts).1.core, (setStatement line st ts).2) : Except Failure _) =
      (interpret st.core (setClause (collectToSemi ts).1)).map (·, (collectToSemi ts).2.2) := by
  unfold setStatement
  dsimp only [statementArgs_val]
  match (collectToSemi ts).1 with
  | [] | [_] | [_, _] => rfl
  | name :: eq :: value :: more =>
    dsimp only [setClause]
    split
    · split <;> rfl
    · rfl

theorem core_rootStatement (line : ℕ) (st : State) (ts : List Token) :
    (.ok ((rootStatement line st ts).1.core, (rootStatement line st ts).2) : Except Failure _) =
      (interpret st.core (rootClause (collectToSemi ts).1)).map (·, (collectToSemi ts).2.2) := by
  unfold rootStatement
  dsimp only [statementArgs_val]
  match (collectToSemi ts).1 with
  | [] | [_] => rfl
  | eq :: name :: more =>
    dsimp only [rootClause]
    split <;> rfl

theorem core_objectStatement (line : ℕ) (st : State) (ts : List Token) :
    (objectStatement line st ts).map (Prod.map State.core id) =
      (interpret st.core (blockClause .object namesObject ts)).map (·, afterBlock namesObject ts) := by
  unfold objectStatement blockClause afterBlock
  match ts with
  | [] => rfl
  | [n] =>
    dsimp only
    by_cases hn : n.kind = .word
    · rw [if_pos hn, if_pos (by simpa [namesObject] using hn)]
      rfl
    · rw [if_neg hn, if_neg (by simpa [namesObject] using hn)]
      rfl
  | n :: b :: body =>
    dsimp only
    by_cases hn : n.kind = .word
    · have hn' : namesObject n.kind = true := by simpa [namesObject] using hn
      rw [if_pos hn, if_pos hn']
      by_cases hb : b.kind = .lbrace
      · rw [if_pos hb, if_pos (And.intro hn' hb), if_pos hb, rest_collectBlockAttrs, ← attrs_collectBlockAttrs .object n.value]
        generalize collectBlockAttrs .object n.value [] body = r
        have hst : (if r.val.2.1 = true then st.logged r.log else (st.logged r.log).warn line
            (who n.value ++ " is missing its closing '\x7d' (reached end of file)".toList)).core = st.core := by
          split <;> rfl
        rw [← hst, ← core_addObject line]
        cases addObject line n.value r.val.1 _ <;> rfl
      · rw [if_neg hb, if_neg (not_and_of_not_right _ hb), if_neg hb]
        rfl
    · have hn' : ¬ namesObject n.kind = true := by simpa [namesObject] using hn
      rw [if_neg hn, if_neg hn', if_neg (not_and_of_not_left _ hn')]
      rfl

theorem core_groupStatement (line : ℕ) (st : State) (ts : List Token) :
    (.ok ((groupStatement line st ts).1.core, (groupStatement line st ts).2) : Except Failure _) =
      (interpret st.core (blockClause .group namesGroup ts)).map (·, afterBlock namesGroup ts) := by
  unfold groupStatement blockClause afterBlock
  match ts with
  | [] => rfl
  | [n] =>
    dsimp only
    by_cases hn : n.kind = .word ∨ n.kind = .string
    · rw [if_pos hn, if_pos (by simpa [namesGroup] using hn)]
      rfl
    · rw [if_neg hn, if_neg (by simpa [namesGroup] using hn)]
      rfl
  | n :: b :: body =>
    dsimp only
    by_cases hn : n.kind = .word ∨ n.kind = .string
    · have hn' : namesGroup n.kind = true := by simpa [namesGroup] using hn
      rw [if_pos hn, if_pos hn']
      by_cases hb : b.kind = .lbrace
      · rw [if_pos hb, if_pos (And.intro hn' hb), if_pos hb, rest_collectBlockAttrs,
          ← attrs_collectBlockAttrs .group (if strip (subst st.vars line n.value).val = [] then "?".toList
            else strip (subst st.vars line n.value).val)]
        generalize collectBlockAttrs .group (if strip (subst st.vars line n.value).val = [] then "?".toList
          else strip (subst st.vars line n.value).val) [] body = r
        dsimp only [interpret, Except.map]
        rw [groupSettings_unlined, core_addGroup]
        split <;> rfl
      · rw [if_neg hb, if_neg (not_and_of_not_right _ hb), if_neg hb]
        rfl
    · have hn' : ¬ namesGroup n.kind = true := by simpa [namesGroup] using hn
      rw [if_neg hn, if_neg hn', if_neg (not_and_of_not_left _ hn')]
      rfl

/-- **One round of the loop**: it takes the tokens of a statement and carries it out. -/
theorem core_statement (st : State) (t : Token) (ts : List Token) :
    (statement st t ts).map (Prod.map State.core id) = (interpret st.core (clause t ts)).map (·, after t ts) := by
  unfold statement clause after
  split
  · rfl
  split
  · rename_i ht
    rw [if_pos (.inl ht)]
    exact core_configStatement t.line st ts
  split
  · rename_i ht
    rw [if_pos (.inr (.inl ht))]
    exact core_setStatement t.line st ts
  split
  · rename_i ht
    rw [if_pos (.inr (.inr ht))]
    exact core_rootStatement t.line st ts
  rename_i hconfig hset hroot
  rw [if_neg (not_or.mpr ⟨hconfig, not_or.mpr ⟨hset, hroot⟩⟩ :
    ¬ (t.value = "config".toList ∨ t.value = "set".toList ∨ t.value = "root".toList))]
  split
  · exact core_objectStatement t.line st ts
  split
  · exact core_groupStatement t.line st ts
  split
  · rfl
  · rfl

/-- **The loop of `parse_top`** carries out the statements of the token list one by one. -/
theorem core_statements (st : State) (ts : List Token) :
    (statements st ts).map State.core = (clauses ts).foldlM interpret st.core := by
  fun_induction statements st ts with
  | case1 st =>
    rw [clauses]
    rfl
  | case2 st t ts e h =>
    have hstep := core_statement st t ts
    rw [h] at hstep
    rw [clauses, List.foldlM_cons]
    cases hx : interpret st.core (clause t ts) with
    | error e' => exact congrArg Except.error (Except.error.inj (hx ▸ hstep))
    | ok st' => rw [hx] at hstep; cases hstep
  | case3 st t ts st' rest h ih =>
    have hstep := core_statement st t ts
    rw [h] at hstep
    rw [clauses, List.foldlM_cons]
    cases hx : interpret st.core (clause t ts) with
    | error e' => rw [hx] at hstep; cases hstep
    | ok st₁ =>
      rw [hx] at hstep
      obtain ⟨hst, hrest⟩ := Prod.mk.inj (Except.ok.inj hstep)
      rw [ih]
      dsimp only [id] at hrest
      rw [hst, hrest]
      rfl

/-! ### After the loop -/

theorem val_withDefaults_unlined (groups : List (Text × List (Text × Text))) (o : Obj) :
    (withDefaults groups o.unlined).val = (withDefaults groups o).val := by
  rw [val_withDefaults, val_withDefaults]
  rfl

theorem finish_core (st : State) :
    (finish st.core).roots = (finish st).roots ∧ (finish st.core).overrides = (finish st).overrides := by
  have hobjs : (resolveGroupDefaults st.groups (st.objects.map Obj.unlined)).val =
      (resolveGroupDefaults st.groups st.objects).val.map Obj.unlined := by
    rw [val_resolveGroupDefaults, val_resolveGroupDefaults, List.map_map, List.map_map]
    refine List.map_congr_left fun o _ => ?_
    simp only [Function.comp_apply, val_withDefaults_unlined]
    rfl
  refine ⟨?_, rfl⟩
  change (buildForest st.rootName 0 (resolveGroupDefaults st.groups (st.objects.map Obj.unlined)).val).val = _
  rw [hobjs]
  exact buildForest_unlined ..

/-- **A parse** carries out the statements of the text and links what they declared. -/
theorem parse_clauses {text : Text} {ts : List Token} (h : tokenize text = .ok ts) (z : ℤ) :
    (parse text z).map (fun r => (r.roots, r.overrides)) =
      ((clauses ts).foldlM interpret { numfailures := z }).map fun st => ((finish st).roots, (finish st).overrides) := by
  have hcore := core_statements { numfailures := z } ts
  rw [show ({ numfailures := z } : State).core = { numfailures := z } from rfl] at hcore
  rw [← hcore]
  unfold parse
  rw [h]
  dsimp only
  cases statements { numfailures := z } ts with
  | error e => rfl
  | ok st =>
    obtain ⟨hroots, hover⟩ := finish_core st
    dsimp only [Except.map]
    rw [hroots, hover]

end Psysmon.Modern
