import Psysmon.Config.Statements
import Psysmon.Lib.Run

/-!
# Psysmon.Config.Raises — what escapes from the modern parser

`parse_top` goes from statement to statement (`Next`) and recovers from everything it finds malformed, but for two
things: an `include`, and a port made of digits that `int` does not take (`PortRaises`).

* `typeFields_error_iff`, `buildNode_error_iff`: one object.
* `statement_recovers`: a statement that does nothing leaves a warning.
* `parseTop_recovers_iff`: the whole run.
-/

namespace Psysmon.Modern

open Lib Text Number Relation

/-! ### One object -/

/-- The check types whose branch of `_build_node` looks at `port`. -/
def readsPort : CheckType → Bool
  | .tcp | .udp | .ping | .ping6 | .smtp | .ssh | .mysql | .telnet => true
  | .http | .https | .pop3 | .pop3s | .imap | .imaps | .ftp | .ftps | .dns => false

/-- Digits, by `str.isdigit`, that `int` rejects. -/
def DigitsRejected (raw : Text) : Prop := isdigit (strip raw) = true ∧ int (strip raw) = none

theorem port_error_iff {line : ℕ} {name : Text} {raw : Option Text} {e : Failure} :
    port line name raw = .error e ↔ e = .valueError ∧ ∃ t, raw = some t ∧ DigitsRejected t := by
  unfold port DigitsRejected
  cases raw with
  | none => simp
  | some t =>
    cases hd : isdigit (strip t) with
    | false => simp [hd]
    | true =>
      cases hi : int (strip t) with
      | none => simpa [hd, hi] using eq_comm
      | some p => simp [hd, hi]

theorem map_error_iff {α β : Type} {x : Except Failure α} {f : α → β} {e : Failure} :
    x.map f = .error e ↔ x = .error e := by
  cases x <;> simp [Except.map]

theorem typeFields_error_iff {line : ℕ} {name kw : Text} {resolved : List (Text × Text)} {node : Node} {e : Failure} :
    typeFields line name kw resolved node = .error e ↔ e = .valueError ∧ readsPort node.checkType = true ∧
      ∃ t, resolved.lookup "port".toList = some t ∧ DigitsRejected t := by
  have hok {x : Log (Option Node)} : (Except.ok x : Except Failure _) = .error e ↔ e = .valueError ∧ false = true ∧
      ∃ t, resolved.lookup "port".toList = some t ∧ DigitsRejected t := by simp
  cases hc : node.checkType <;> unfold typeFields <;> rw [hc] <;> dsimp only [readsPort]
  case tcp | udp => rw [map_error_iff, port_error_iff]; simp
  case ping | ping6 | smtp | ssh | mysql | telnet =>
    cases hp : resolved.lookup "port".toList with
    | none => simp
    | some raw =>
      dsimp only
      rw [map_error_iff, port_error_iff]
      simp
  all_goals split <;> exact hok

section

variable [Python]

/-- The object has a host and a type that looks at `port`, and its port is made of digits that `int` rejects. -/
def PortRaises (vars : List (Text × Text)) (attrs : List Attr) : Prop :=
  hostOf (resolvedOf vars attrs) ≠ [] ∧
    (∃ ctype, typeOf (resolvedOf vars attrs) = some ctype ∧ readsPort ctype = true) ∧
    ∃ t, (resolvedOf vars attrs).lookup "port".toList = some t ∧ DigitsRejected t

theorem buildNode_error_iff {z : ℤ} {vars : List (Text × Text)} {line : ℕ} {name : Text} {attrs : List Attr}
    {e : Failure} : buildNode z vars line name attrs = .error e ↔ e = .valueError ∧ PortRaises vars attrs := by
  rw [← map_error_iff (f := Log.val), val_buildNode]
  unfold PortRaises
  split
  · rename_i h
    simp [h]
  · rename_i h
    cases ht : typeOf (resolvedOf vars attrs) with
    | none => simp
    | some ctype =>
      dsimp only
      rw [map_error_iff, typeFields_error_iff]
      simp [startNode, h]

end

/-! ### Malformed statements -/

/-- One or two settings are set. -/
def Sets (o o' : Overrides) : Prop :=
  ∃ f v, o' = o.set f v ∨ ∃ g w, o' = (o.set f v).set g w

/-- What a statement is for. -/
inductive Effect (t : Token) (st : State) : State → Prop
  | config {o : Overrides} (ht : t.value = "config".toList) (h : Sets st.overrides o) :
    Effect t st { st with overrides := o }
  | set (ht : t.value = "set".toList) (name value : Text) : Effect t st { st with vars := (name, value) :: st.vars }
  | root (ht : t.value = "root".toList) (name : Text) :
    Effect t st { st with rootName := some name, rootLine := t.line }
  | object (ht : t.value = "object".toList) (o : Obj) : Effect t st { st with objects := st.objects ++ [o] }
  | group (ht : t.value = "group".toList) (name : Text) (settings : List (Text × Text)) :
    Effect t st { st with groups := st.groups ++ [(name, settings)] }

/-- The statement did what it is for, or it was skipped with a warning. -/
def Recovered (t : Token) (st st' : State) : Prop :=
  ∃ w, (∃ st₁, Effect t st st₁ ∧ st' = st₁.logged w) ∨ w ≠ [] ∧ st' = st.logged w

@[simp] theorem State.logged_logged (st : State) (w w' : List Text) : (st.logged w).logged w' = st.logged (w ++ w') := by
  simp [State.logged, List.append_assoc]

theorem port_none {line : ℕ} {name : Text} {raw : Option Text} {l : Log (Option ℤ)} (h : port line name raw = .ok l)
    (hn : l.val = none) : l.log ≠ [] := by
  unfold port at h
  cases raw with
  | none =>
    obtain rfl := Except.ok.inj h
    exact List.cons_ne_nil _ _
  | some raw =>
    dsimp only at h
    split at h
    · cases hi : int (strip raw) with
      | none => rw [hi] at h; cases h
      | some p =>
        rw [hi] at h
        obtain rfl := Except.ok.inj h
        split at hn
        · cases hn
        · rw [if_neg ‹_›]
          exact List.cons_ne_nil _ _
    · obtain rfl := Except.ok.inj h
      exact List.cons_ne_nil _ _

theorem typeFields_none {line : ℕ} {name kw : Text} {resolved : List (Text × Text)} {node : Node}
    {l : Log (Option Node)} (h : typeFields line name kw resolved node = .ok l) (hn : l.val = none) : l.log ≠ [] := by
  have hmap {x : Except Failure (Log (Option ℤ))} {f : Option ℤ → Option Node} (hx : x.map (f <$> ·) = .ok l) :
      ∃ l', x = .ok l' ∧ l = f <$> l' := by
    cases x with
    | error e => cases hx
    | ok l' => exact ⟨l', rfl, (Except.ok.inj hx).symm⟩
  cases hc : node.checkType <;> unfold typeFields at h <;> rw [hc] at h <;> dsimp only at h
  case tcp | udp =>
    obtain ⟨l', hp, rfl⟩ := hmap h
    rw [Log.log_map]
    exact port_none hp (by simpa using hn)
  case ping | ping6 | smtp | ssh | mysql | telnet =>
    cases hp : resolved.lookup "port".toList with
    | none =>
      rw [hp] at h
      obtain rfl := Except.ok.inj h
      cases hn
    | some raw =>
      rw [hp] at h
      obtain ⟨l', -, rfl⟩ := hmap h
      cases hn
  all_goals
    split at h
    · obtain rfl := Except.ok.inj h
      first
        | exact List.cons_ne_nil _ _
        | cases hn
    · obtain rfl := Except.ok.inj h
      cases hn

section Recovered

variable {t : Token} {st : State}

theorem Recovered.warned (w : List Text) (line : ℕ) (m : Text) : Recovered t st ((st.logged w).warn line m) :=
  ⟨w ++ [warning line m], .inr ⟨by simp, st.logged_logged w _⟩⟩

/-- Warnings before a statement is carried out change nothing. -/
theorem Recovered.of_logged {st' : State} {w : List Text} (h : Recovered t (st.logged w) st') : Recovered t st st' := by
  obtain ⟨w', ⟨st₁, he, rfl⟩ | ⟨hw', rfl⟩⟩ := h
  · refine ⟨w ++ w', .inl ?_⟩
    cases he with
    | config ht h => exact ⟨_, .config ht h, by simp [State.logged]⟩
    | set ht name value => exact ⟨_, .set ht name value, by simp [State.logged]⟩
    | root ht name => exact ⟨_, .root ht name, by simp [State.logged]⟩
    | object ht o => exact ⟨_, .object ht o, by simp [State.logged]⟩
    | group ht name settings => exact ⟨_, .group ht name settings, by simp [State.logged]⟩
  · exact ⟨w ++ w', .inr ⟨by simp [hw'], st.logged_logged w w'⟩⟩

variable [Python]

/-- A directive sets something, or it leaves the settings as they are and warns. -/
def SetsOrWarns (o : Overrides) (c : Log Overrides) : Prop := Sets o c.val ∨ c.val = o ∧ c.log ≠ []

theorem setsOrWarns_withValue {vars : List (Text × Text)} {line : ℕ} {name : Text} {o : Overrides}
    {k : Text → Log Overrides} (hk : ∀ raw, SetsOrWarns o (k raw)) (values : List Token) :
    SetsOrWarns o (withValue vars line name values o k) := by
  cases values with
  | nil => exact .inr ⟨rfl, List.cons_ne_nil _ _⟩
  | cons v more =>
    rcases hk (expand vars v.value).1 with h | ⟨hval, hlog⟩
    · exact .inl h
    · refine .inr ⟨hval, ?_⟩
      exact List.append_ne_nil_of_right_ne_nil _ hlog

theorem setsOrWarns_applyConfig (vars : List (Text × Text)) (line : ℕ) (name : Text) (values : List Token)
    (o : Overrides) : SetsOrWarns o (applyConfig vars line name values o) := by
  have hset (f : Field) (v : f.Val) (c : Log Overrides) (hc : c.val = o.set f v) : SetsOrWarns o c :=
    .inl ⟨f, v, .inl hc⟩
  have hwarn (m : Text) : SetsOrWarns o (do Log.warn line m; return o) := .inr ⟨rfl, List.cons_ne_nil _ _⟩
  unfold applyConfig
  split
  · refine setsOrWarns_withValue (fun raw => ?_) values
    cases int raw with
    | none => exact hwarn _
    | some v => exact hset _ _ _ rfl
  · refine setsOrWarns_withValue (fun raw => ?_) values
    cases Number.float raw with
    | none => exact hwarn _
    | some v => exact hset _ _ _ rfl
  · exact setsOrWarns_withValue (fun raw => hset _ _ _ rfl) values
  · exact hset _ _ _ rfl
  · split
    · refine setsOrWarns_withValue (fun raw => ?_) values
      cases logLevelOf (Python.lower raw) with
      | none => exact hset .logLevel _ _ rfl
      | some v => exact hset .logLevel _ _ rfl
    split
    · refine setsOrWarns_withValue (fun raw => ?_) values
      split
      · exact hset .syslogFacility _ _ rfl
      · split <;> exact hset .syslogFacility _ _ rfl
    split
    · refine setsOrWarns_withValue (fun raw => ?_) values
      cases contactOnOf raw with
      | none => exact hset .contactOn _ _ rfl
      | some v => exact hset .contactOn _ _ rfl
    split
    · match values with
      | [] | [_] | _ :: _ :: _ :: _ => exact hwarn _
      | [fmt, path] =>
        unfold setStatusfile
        dsimp only
        split
        · exact .inl ⟨_, _, .inr ⟨_, _, rfl⟩⟩
        · split
          · exact .inl ⟨_, _, .inr ⟨_, _, rfl⟩⟩
          · exact hwarn _
    split <;> exact hwarn _

theorem recovered_configStatement (ht : t.value = "config".toList) (ts : List Token) :
    Recovered t st (configStatement t.line st ts).1 := by
  refine .of_logged (w := (statementArgs t.line ts).log) ?_
  unfold configStatement
  dsimp only
  generalize st.logged (statementArgs t.line ts).log = st
  cases (statementArgs t.line ts).val.1 with
  | nil => exact ⟨_, .inr ⟨List.cons_ne_nil _ _, rfl⟩⟩
  | cons name values =>
    dsimp only
    split
    · refine ⟨(applyConfig st.vars t.line name.value values st.overrides).log, ?_⟩
      rcases setsOrWarns_applyConfig st.vars t.line name.value values st.overrides with h | ⟨hval, hlog⟩
      · exact .inl ⟨_, .config ht h, rfl⟩
      · refine .inr ⟨hlog, ?_⟩
        rw [hval]
        rfl
    · exact ⟨_, .inr ⟨List.cons_ne_nil _ _, rfl⟩⟩

theorem recovered_setStatement (ht : t.value = "set".toList) (ts : List Token) :
    Recovered t st (setStatement t.line st ts).1 := by
  refine .of_logged (w := (statementArgs t.line ts).log) ?_
  unfold setStatement
  dsimp only
  generalize st.logged (statementArgs t.line ts).log = st
  match (statementArgs t.line ts).val.1 with
  | [] | [_] | [_, _] => exact ⟨_, .inr ⟨List.cons_ne_nil _ _, rfl⟩⟩
  | name :: eq :: value :: more =>
    dsimp only
    split
    · split
      · exact .of_logged ⟨_, .inl ⟨_, .set ht _ _, rfl⟩⟩
      · exact ⟨_, .inl ⟨_, .set ht _ _, rfl⟩⟩
    · exact ⟨_, .inr ⟨List.cons_ne_nil _ _, rfl⟩⟩

theorem recovered_rootStatement (ht : t.value = "root".toList) (ts : List Token) :
    Recovered t st (rootStatement t.line st ts).1 := by
  refine .of_logged (w := (statementArgs t.line ts).log) ?_
  unfold rootStatement
  dsimp only
  generalize st.logged (statementArgs t.line ts).log = st
  match (statementArgs t.line ts).val.1 with
  | [] | [_] => exact ⟨_, .inr ⟨List.cons_ne_nil _ _, rfl⟩⟩
  | eq :: name :: more =>
    dsimp only
    split
    · exact ⟨_, .inl ⟨_, .root ht _, rfl⟩⟩
    · exact ⟨_, .inr ⟨List.cons_ne_nil _ _, rfl⟩⟩

/-- An object that is skipped is warned about. -/
theorem buildNode_none {z : ℤ} {vars : List (Text × Text)} {line : ℕ} {name : Text} {attrs : List Attr}
    {l : Log (Option (Node × List Text))} (h : buildNode z vars line name attrs = .ok l) (hn : l.val = none) :
    l.log ≠ [] := by
  have hwarn {x : Log Unit} {m : Text} :
      (do x; Log.warn line m; return none : Log (Option (Node × List Text))).log ≠ [] :=
    List.append_ne_nil_of_right_ne_nil _ (List.cons_ne_nil _ _)
  unfold buildNode at h
  dsimp only at h
  generalize (if (List.lookup "host".toList _).getD [] ≠ [] then _ else _) = host at h
  split at h
  · obtain rfl := Except.ok.inj h
    exact hwarn
  · generalize (resolve vars (attrs.filter (·.key ≠ "dep".toList))) = r at h
    cases ht : (r.val.lookup "type".toList).bind (typeKeywords.lookup ·) with
    | none =>
      rw [ht] at h
      obtain rfl := Except.ok.inj h
      exact hwarn
    | some ctype =>
      rw [ht] at h
      dsimp only at h
      generalize hx : typeFields line name ((r.val.lookup "type".toList).getD []) r.val _ = x at h
      cases x with
      | error e => cases h
      | ok fields =>
        obtain rfl := Except.ok.inj h
        cases hv : fields.val with
        | none =>
          refine List.append_ne_nil_of_right_ne_nil _ ?_
          exact List.append_ne_nil_of_left_ne_nil (typeFields_none hx hv) _
        | some node =>
          rw [Log.val_bind, Log.val_bind, hv] at hn
          cases hn

theorem recovered_addObject (ht : t.value = "object".toList) {name : Text} {attrs : List Attr} {st' : State}
    (h : addObject t.line name attrs st = .ok st') : Recovered t st st' := by
  unfold addObject at h
  cases hb : buildNode st.numfailures st.vars t.line name attrs with
  | error e => rw [hb] at h; cases h
  | ok l =>
    rw [hb] at h
    obtain rfl := Except.ok.inj h
    dsimp only
    cases hv : l.val with
    | none => exact ⟨l.log, .inr ⟨buildNode_none hb hv, rfl⟩⟩
    | some built =>
      dsimp only
      split
      · exact .warned l.log _ _
      · exact ⟨l.log, .inl ⟨_, .object ht _, rfl⟩⟩

theorem recovered_objectStatement (ht : t.value = "object".toList) {ts rest : List Token} {st' : State}
    (h : objectStatement t.line st ts = .ok (st', rest)) : Recovered t st st' := by
  have hwarn {m : Text} {ts' : List Token}
      (hw : Except.ok (st.warn t.line m, ts') = (.ok (st', rest) : Except Failure _)) : Recovered t st st' := by
    obtain ⟨rfl, -⟩ := Prod.mk.inj (Except.ok.inj hw)
    exact ⟨_, .inr ⟨List.cons_ne_nil _ _, rfl⟩⟩
  unfold objectStatement at h
  match ts with
  | [] => exact hwarn h
  | n :: ts =>
    dsimp only at h
    split at h
    · match ts with
      | [] => exact hwarn h
      | b :: ts =>
        dsimp only at h
        split at h
        · cases ha : addObject t.line n.value (collectBlockAttrs .object n.value [] ts).val.1 _ with
          | error e => rw [ha] at h; cases h
          | ok st₁ =>
            rw [ha] at h
            obtain ⟨rfl, -⟩ := Prod.mk.inj (Except.ok.inj h)
            have := recovered_addObject ht ha
            split at this
            · exact .of_logged this
            · exact .of_logged (.of_logged this)
        · exact hwarn h
    · exact hwarn h

theorem recovered_groupStatement (ht : t.value = "group".toList) (ts : List Token) :
    Recovered t st (groupStatement t.line st ts).1 := by
  have hadd (st : State) (name : Text) (attrs : List Attr) : Recovered t st (addGroup t.line name attrs st) := by
    unfold addGroup
    split
    · exact ⟨_, .inr ⟨List.cons_ne_nil _ _, rfl⟩⟩
    · dsimp only
      split
      · exact .warned _ _ _
      · exact ⟨_, .inl ⟨_, .group ht _ _, rfl⟩⟩
  unfold groupStatement
  match ts with
  | [] => exact ⟨_, .inr ⟨List.cons_ne_nil _ _, rfl⟩⟩
  | n :: ts =>
    dsimp only
    split
    · match ts with
      | [] => exact .warned _ _ _
      | b :: ts =>
        dsimp only
        generalize collectBlockAttrs .group (if strip (subst st.vars t.line n.value).val = [] then "?".toList
          else strip (subst st.vars t.line n.value).val) [] ts = r
        split
        · dsimp only
          split
          · exact .of_logged (.of_logged (hadd _ _ _))
          · exact .of_logged (.of_logged (.of_logged (hadd _ _ _)))
        · exact .warned _ _ _
    · exact ⟨_, .inr ⟨List.cons_ne_nil _ _, rfl⟩⟩

/-- **A statement that is carried out did what it is for, or was skipped with a warning.** -/
theorem statement_recovers {ts rest : List Token} {st' : State} (h : statement st t ts = .ok (st', rest)) :
    Recovered t st st' := by
  have hof {r : State × List Token} (hr : Recovered t st r.1) (hs : .ok r = (.ok (st', rest) : Except Failure _)) :
      Recovered t st st' := by
    obtain rfl := Except.ok.inj hs
    exact hr
  have hwarn {m : Text} {ts' : List Token}
      (hw : .ok (st.warn t.line m, ts') = (.ok (st', rest) : Except Failure _)) : Recovered t st st' :=
    hof ⟨_, .inr ⟨List.cons_ne_nil _ _, rfl⟩⟩ hw
  unfold statement at h
  split at h
  · exact hwarn h
  split at h
  · exact hof (recovered_configStatement ‹_› ts) h
  split at h
  · exact hof (recovered_setStatement ‹_› ts) h
  split at h
  · exact hof (recovered_rootStatement ‹_› ts) h
  split at h
  · exact recovered_objectStatement ‹_› h
  split at h
  · exact hof (recovered_groupStatement ‹_› ts) h
  split at h
  · cases h
  · exact hwarn h

end Recovered

/-! ### The run -/

theorem clause_includes {t : Token} {ts : List Token} {line : ℕ} (h : clause t ts = .includes line) :
    t.kind = .word ∧ t.value = "include".toList := by
  unfold clause at h
  split at h
  · cases h
  rename_i hk
  split at h
  · unfold configClause at h
    split at h
    · split at h <;> cases h
    · cases h
  split at h
  · unfold setClause at h
    split at h
    · split at h <;> cases h
    · cases h
  split at h
  · unfold rootClause at h
    split at h
    · split at h <;> cases h
    · cases h
  split at h
  · unfold blockClause at h
    split at h
    · split at h <;> cases h
    · cases h
  split at h
  · unfold blockClause at h
    split at h
    · split at h <;> cases h
    · cases h
  split at h
  · exact ⟨not_not.mp hk, ‹_›⟩
  · cases h

section Run

variable [Python]

/-- One round of `parse_top`: the state and the tokens that are left. -/
def Next (x y : State × List Token) : Prop := ∃ t ts, x.2 = t :: ts ∧ statement x.1 t ts = .ok y

/-- The parser gets to this state with these tokens left. -/
def Reached (z : ℤ) (ts : List Token) (st : State) (rest : List Token) : Prop :=
  ReflTransGen Next ({ numfailures := z }, ts) (st, rest)

/-- A run that fails reaches a statement that fails. -/
theorem statements_error {st : State} {ts : List Token} {e : Failure} (h : statements st ts = .error e) :
    ∃ st' t rest, ReflTransGen Next (st, ts) (st', t :: rest) ∧ statement st' t rest = .error e := by
  fun_induction statements st ts with
  | case1 st => cases h
  | case2 st t ts e' hs =>
    obtain rfl := Except.error.inj h
    exact ⟨st, t, ts, .refl, hs⟩
  | case3 st t ts st₁ rest₁ hs ih =>
    obtain ⟨st', t', rest', hreach, herr⟩ := ih h
    exact ⟨st', t', rest', .head ⟨t, ts, rfl, hs⟩ hreach, herr⟩

/-- The variable a statement binds, with those before it. -/
def bindClause (vars : List (Text × Text)) : Clause → List (Text × Text)
  | .set name value => (name, (expand vars value).1) :: vars
  | _ => vars

/-- The variables after some statements. -/
def varsOf (pre : List Clause) : List (Text × Text) := pre.foldl bindClause []

theorem vars_interpret {st st' : State} {c : Clause} (h : interpret st c = .ok st') :
    st'.vars = bindClause st.vars c ∧ st'.numfailures = st.numfailures := by
  cases c with
  | config name values | set name value | root name | skipped | group name attrs =>
    obtain rfl := Except.ok.inj h
    exact ⟨rfl, rfl⟩
  | includes line => cases h
  | object name attrs =>
    obtain ⟨r, -, rfl⟩ := interpret_object_ok h
    exact ⟨rfl, rfl⟩

theorem vars_interpretAll {st st' : State} {cs : List Clause} (h : cs.foldlM interpret st = .ok st') :
    st'.vars = cs.foldl bindClause st.vars ∧ st'.numfailures = st.numfailures := by
  induction cs generalizing st with
  | nil =>
    obtain rfl := Except.ok.inj h
    exact ⟨rfl, rfl⟩
  | cons c cs ih =>
    obtain ⟨st₁, hc, hcs⟩ := foldlM_cons_ok.mp h
    obtain ⟨hvars, hnum⟩ := vars_interpret hc
    obtain ⟨hvars', hnum'⟩ := ih hcs
    exact ⟨by rw [hvars', hvars, List.foldl_cons], hnum'.trans hnum⟩

theorem interpret_error_iff {st : State} {i : Clause} {e : Failure} : interpret st i = .error e ↔
    (∃ line, i = .includes line ∧
      e = .error ⟨warning line "`include` isn't supported yet (a follow-up milestone, #3)".toList⟩) ∨
    ∃ name attrs, i = .object name attrs ∧ PortRaises st.vars attrs ∧ e = .valueError := by
  cases i with
  | config name values | set name value | root name | skipped | group name attrs => simp [interpret]
  | includes line => simp [interpret, eq_comm]
  | object name attrs =>
    dsimp only [interpret]
    rw [map_error_iff, buildNode_error_iff]
    simp [and_comm]

/-- The parser takes every token list to its end, but for an `include`: whatever else it finds is carried out or skipped
with a warning. -/
def Recovers (z : ℤ) (ts : List Token) : Prop :=
  (∀ e, (statements { numfailures := z } ts).map finish = .error e → (∃ m, e = .error m) ∧
    ∃ st t rest, Reached z ts st (t :: rest) ∧ t.kind = .word ∧ t.value = "include".toList) ∧
  ∀ st t rest, Reached z ts st (t :: rest) → ∀ st' rest', statement st t rest = .ok (st', rest') →
    rest'.length < (t :: rest).length ∧ Recovered t st st'

/-- Some object before the first `include` raises. -/
def RaisingObject (ts : List Token) : Prop :=
  ∃ pre name attrs post, clauses ts = pre ++ .object name attrs :: post ∧ (∀ line, .includes line ∉ pre) ∧
    PortRaises (varsOf pre) attrs

/-- Only an `include` raises `ParseError`. -/
theorem statement_error {st : State} {t : Token} {ts : List Token} {m : ParseError}
    (h : statement st t ts = .error (.error m)) : t.kind = .word ∧ t.value = "include".toList := by
  have hcore := core_statement st t ts
  rw [h] at hcore
  rcases interpret_error_iff.mp (map_error_iff.mp hcore.symm) with ⟨line, hi, -⟩ | ⟨_, _, -, -, he⟩
  · exact clause_includes hi
  · cases he

theorem statements_error_iff {z : ℤ} {ts : List Token} {e : Failure} :
    statements { numfailures := z } ts = .error e ↔ (clauses ts).foldlM interpret { numfailures := z } = .error e := by
  rw [← map_error_iff (f := State.core), core_statements]
  rfl

theorem not_includes_of_ok {pre : List Clause} {st st' : State} (h : pre.foldlM interpret st = .ok st') (line : ℕ) :
    .includes line ∉ pre := by
  intro hmem
  obtain ⟨a, b, rfl⟩ := List.append_of_mem hmem
  obtain ⟨st₁, -, h₁⟩ := foldlM_append_ok.mp h
  obtain ⟨st₂, h₂, -⟩ := foldlM_cons_ok.mp h₁
  cases h₂

/-- A `ValueError` comes from an object before the first `include`. -/
theorem raisingObject_of_error {z : ℤ} {ts : List Token}
    (h : statements { numfailures := z } ts = .error .valueError) : RaisingObject ts := by
  obtain ⟨pre, i, post, st, hclauses, hpre, hi⟩ := foldlM_error_iff.mp (statements_error_iff.mp h)
  rcases interpret_error_iff.mp hi with ⟨_, -, he⟩ | ⟨name, attrs, rfl, hraise, -⟩
  · cases he
  · rw [(vars_interpretAll hpre).1] at hraise
    exact ⟨pre, name, attrs, post, hclauses, not_includes_of_ok hpre, hraise⟩

theorem valueError_of_raisingObject (z : ℤ) {ts : List Token} (h : RaisingObject ts) :
    statements { numfailures := z } ts = .error .valueError := by
  obtain ⟨pre, name, attrs, post, hclauses, hinc, hraise⟩ := h
  rw [statements_error_iff, hclauses]
  cases hpre : pre.foldlM interpret { numfailures := z } with
  | ok st =>
    have hvars : st.vars = varsOf pre := (vars_interpretAll hpre).1
    exact foldlM_error_iff.mpr ⟨pre, _, post, st, rfl, hpre,
      interpret_error_iff.mpr (.inr ⟨name, attrs, rfl, hvars ▸ hraise, rfl⟩)⟩
  | error e =>
    -- the parse fails before the object; without an `include` that is a `ValueError` as well
    obtain ⟨a, i, b, st, rfl, -, hi⟩ := foldlM_error_iff.mp hpre
    rcases interpret_error_iff.mp hi with ⟨line, rfl, -⟩ | ⟨_, _, -, -, rfl⟩
    · exact absurd (by simp) (hinc line)
    · rw [List.foldlM_append, hpre]
      rfl

end Run

/-- An object whose port is a superscript two. -/
def superscriptPort : Text := "object web \x7b host 192.0.2.1; type tcp; port ²; \x7d;".toList

end Psysmon.Modern
