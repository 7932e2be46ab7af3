import Psysmon.Config.Raises

/-!
# Psysmon.Config.Objects — the objects of a modern config

From the object statement to the node in the forest: which attribute counts (`firstValue`), where an accepted object
stands (`AcceptedAt`), and what becomes of its port.

* `lookup_resolvedOf`: of a repeated attribute the first counts.
* `interpretAll_objects`: what a statement does with the objects depends on their names only.
* `port_iff`: the port of an accepted object.
-/

namespace Psysmon.Modern

open Lib Text Number

/-! ### Where an object stands -/

theorem addBuilt_names (name : Text) (keys : List Text) (objects : List Obj) (b : Option (Node × List Text)) :
    ∃ new, addBuilt name keys objects b = objects ++ new ∧ ∀ l, l.map Obj.name = objects.map Obj.name →
      addBuilt name keys l b = l ++ new := by
  cases b with
  | none => exact ⟨[], (List.append_nil _).symm, fun l _ => (List.append_nil _).symm⟩
  | some built =>
    have hany (l : List Obj) (hl : l.map Obj.name = objects.map Obj.name) :
        l.any (·.name = name) = objects.any (·.name = name) := by
      have := congrArg (fun names => names.any (· = name)) hl
      simpa [List.any_map, Function.comp_def] using this
    dsimp only [addBuilt]
    by_cases hd : objects.any (·.name = name) = true
    · rw [if_pos hd]
      refine ⟨[], (List.append_nil _).symm, fun l hl => ?_⟩
      rw [if_pos ((hany l hl).trans hd), List.append_nil]
    · rw [if_neg hd]
      refine ⟨_, rfl, fun l hl => ?_⟩
      rw [if_neg fun h => hd ((hany l hl).symm.trans h)]

/-- The statements of a text. -/
theorem exists_tokens {text : Text} {cs : List Clause} (h : (tokenize text).toOption.map clauses = some cs) :
    ∃ ts, tokenize text = .ok ts ∧ clauses ts = cs := by
  obtain ⟨ts, hts, hcs⟩ := Option.map_eq_some_iff.mp h
  exact ⟨ts, toOption_eq_some.mp hts, hcs⟩

section Stands

variable [Python]

/-- What a statement does with the objects depends on their names only. -/
theorem interpret_objects {st st' : State} {c : Clause} (h : interpret st c = .ok st') :
    ∃ new, st'.objects = st.objects ++ new ∧ ∀ l, l.map Obj.name = st.objects.map Obj.name →
      interpret { st with objects := l } c = .ok { st' with objects := l ++ new } := by
  cases c with
  | config name values | set name value | root name | skipped | group name attrs =>
    obtain rfl := Except.ok.inj h
    exact ⟨[], (List.append_nil _).symm, fun l _ => by rw [List.append_nil]; rfl⟩
  | includes line => cases h
  | object name attrs =>
    obtain ⟨r, hr, rfl⟩ := interpret_object_ok h
    obtain ⟨new, hnew, hsame⟩ := addBuilt_names name (attrs.map Attr.key) st.objects r.val
    refine ⟨new, hnew, fun l hl => ?_⟩
    dsimp only [interpret]
    rw [hr, ← hsame l hl]
    rfl

theorem interpretAll_objects {st st' : State} {cs : List Clause} (h : cs.foldlM interpret st = .ok st') :
    ∃ new, st'.objects = st.objects ++ new ∧ ∀ l, l.map Obj.name = st.objects.map Obj.name →
      cs.foldlM interpret { st with objects := l } = .ok { st' with objects := l ++ new } := by
  induction cs generalizing st with
  | nil =>
    obtain rfl := Except.ok.inj h
    exact ⟨[], (List.append_nil _).symm, fun l _ => by rw [List.append_nil]; rfl⟩
  | cons c cs ih =>
    obtain ⟨st₁, hc, hcs⟩ := foldlM_cons_ok.mp h
    obtain ⟨new, hnew, hsame⟩ := interpret_objects hc
    obtain ⟨new', hnew', hsame'⟩ := ih hcs
    refine ⟨new ++ new', by rw [hnew', hnew, List.append_assoc], fun l hl => ?_⟩
    refine foldlM_cons_ok.mpr ⟨_, hsame l hl, ?_⟩
    rw [hsame' (l ++ new) (by rw [List.map_append, hl, hnew, List.map_append]), List.append_assoc]

/-- The object written after the statements `pre` is accepted, as object number `i`. -/
def AcceptedAt (z : ℤ) (pre : List Clause) (name : Text) (attrs : List Attr) (i : ℕ) : Prop :=
  ∃ st st', pre.foldlM interpret { numfailures := z } = .ok st ∧ interpret st (.object name attrs) = .ok st' ∧
    st'.objects.length = st.objects.length + 1 ∧ i = st.objects.length

/-- An accepted object was built, and its name is new. -/
theorem AcceptedAt.built {z : ℤ} {pre : List Clause} {name : Text} {attrs : List Attr} {i : ℕ}
    (h : AcceptedAt z pre name attrs i) : ∃ st r node deps, pre.foldlM interpret { numfailures := z } = .ok st ∧
      buildNode z (varsOf pre) 0 name attrs = .ok r ∧ r.val = some (node, deps) ∧ i = st.objects.length ∧
      st.objects.any (·.name = name) = false ∧ interpret st (.object name attrs) =
        .ok { st with objects := st.objects ++ [⟨name, node, deps, 0, attrs.map Attr.key⟩] } := by
  obtain ⟨st, st', hpre, hobj, hlen, hi⟩ := h
  obtain ⟨hvars, hnum⟩ := vars_interpretAll hpre
  obtain ⟨r, hr, rfl⟩ := interpret_object_ok hobj
  cases hv : r.val with
  | none =>
    rw [hv] at hlen
    exact absurd hlen (Nat.succ_ne_self _).symm
  | some built =>
    rw [hv] at hlen hobj
    dsimp only [addBuilt] at hlen hobj
    split at hlen
    · exact absurd hlen (Nat.succ_ne_self _).symm
    · rename_i hd
      rw [if_neg hd] at hobj
      refine ⟨st, r, built.1, built.2, hpre, ?_, hv, hi, Bool.eq_false_of_not_eq_true hd, hobj⟩
      rw [← hr, hvars, hnum]
      rfl

/-- The node of an accepted object is what its attributes and its group make of it. -/
theorem AcceptedAt.node {z : ℤ} {pre post : List Clause} {name : Text} {attrs : List Attr} {i : ℕ} {fin : State}
    (h : AcceptedAt z pre name attrs i)
    (hfin : (pre ++ .object name attrs :: post).foldlM interpret { numfailures := z } = .ok fin) :
    ∃ r node deps, buildNode z (varsOf pre) 0 name attrs = .ok r ∧ r.val = some (node, deps) ∧
      (finish fin).roots.node i =
        (withDefaults fin.groups ⟨name, node, deps, 0, attrs.map Attr.key⟩).val := by
  obtain ⟨st, r, node, deps, hpre, hr, hv, rfl, -, hobj⟩ := h.built
  refine ⟨r, node, deps, hr, hv, node_finish ?_⟩
  obtain ⟨st₁, hst₁, hrest⟩ := foldlM_append_ok.mp hfin
  obtain rfl := Except.ok.inj (hpre.symm.trans hst₁)
  obtain ⟨st₂, hst₂, hpost⟩ := foldlM_cons_ok.mp hrest
  obtain rfl := Except.ok.inj (hobj.symm.trans hst₂)
  obtain ⟨new, hnew, -⟩ := interpretAll_objects hpost
  rw [hnew]
  simp

end Stands

/-! ### Ports -/

/-- A plain decimal number in the range of ports. -/
def PlainPort (raw : Text) (p : ℤ) : Prop :=
  ∃ ds, IsDigits ds ∧ raw = ds.map digitChar ∧ (ofDigits ds : ℤ) = p ∧ 1 ≤ p ∧ p ≤ 65535

theorem strip_map_digitChar {ds : List ℕ} (h : IsDigits ds) : strip (ds.map digitChar) = ds.map digitChar := by
  refine stripBy_eq_self fun c hc => ?_
  obtain ⟨d, hd, rfl⟩ := List.mem_map.mp hc
  have : ∀ d < 10, isSpace (digitChar d) = false := by decide
  exact this d (h.lt d hd)

section Port

variable {line : ℕ} {name : Text}

/-- A plain port is taken, if the parse survives it. -/
theorem port_plain {raw : Text} {p : ℤ} (h : PlainPort raw p) {l : Log (Option ℤ)}
    (hl : port line name (some raw) = .ok l) : l.val = some p := by
  obtain ⟨ds, hds, rfl, hp, h1, h2⟩ := h
  unfold port at hl
  dsimp only at hl
  rw [strip_map_digitChar hds, if_pos (isdigit_map hds), int_map_digitChar hds] at hl
  split at hl
  · cases hl
  · rename_i q hq
    split at hq
    · obtain rfl := Option.some.inj hq
      obtain rfl := Except.ok.inj hl
      rw [hp, if_pos ⟨by omega, h2⟩]
      rfl
    · cases hq

/-- What the fields of the type make of the port. -/
theorem typeFields_port {kw : Text} {resolved : List (Text × Text)} {node node' : Node} {l : Log (Option Node)}
    (h : typeFields line name kw resolved node = .ok l) (hv : l.val = some node') :
    (readsPort node.checkType = false ∨ resolved.lookup "port".toList = none → node'.port = node.port) ∧
    (readsPort node.checkType = true → ∀ raw p, resolved.lookup "port".toList = some raw → PlainPort raw p →
      node'.port = p) := by
  have hmap {x : Except Failure (Log (Option ℤ))} {f : Option ℤ → Option Node} (hx : x.map (f <$> ·) = .ok l) :
      ∃ l', x = .ok l' ∧ f l'.val = some node' := by
    cases x with
    | error e => cases hx
    | ok l' =>
      obtain rfl := Except.ok.inj hx
      exact ⟨l', rfl, hv⟩
  cases hc : node.checkType <;> unfold typeFields at h <;> rw [hc] at h <;> dsimp only at h
  case tcp | udp =>
    obtain ⟨l', hl', hf⟩ := hmap h
    obtain ⟨p', hp', rfl⟩ := Option.map_eq_some_iff.mp hf
    refine ⟨?_, fun _ raw p hraw hplain => ?_⟩
    · rintro (hr | hnone)
      · cases hr
      · rw [hnone] at hl'
        obtain rfl := Except.ok.inj hl'
        cases hp'
    · rw [hraw] at hl'
      exact Option.some.inj (hp'.symm.trans (port_plain hplain hl'))
  case ping | ping6 | smtp | ssh | mysql | telnet =>
    cases hp : resolved.lookup "port".toList with
    | none =>
      rw [hp] at h
      obtain rfl := Except.ok.inj h
      obtain rfl := Option.some.inj hv
      exact ⟨fun _ => rfl, fun _ raw p hraw => by cases hraw⟩
    | some raw =>
      rw [hp] at h
      obtain ⟨l', hl', hf⟩ := hmap h
      obtain rfl := Option.some.inj hf
      refine ⟨?_, fun _ raw' p hraw hplain => ?_⟩
      · rintro (h | h) <;> cases h
      · obtain rfl := Option.some.inj hraw
        dsimp only
        rw [port_plain hplain hl', Option.getD_some]
  -- the other types never look at it
  all_goals
    split at h
    · obtain rfl := Except.ok.inj h
      first
        | obtain rfl := Option.some.inj hv
          exact ⟨fun _ => rfl, fun h => by cases h⟩
        | cases hv
    · obtain rfl := Except.ok.inj h
      obtain rfl := Option.some.inj hv
      exact ⟨fun _ => rfl, fun h => by cases h⟩

end Port

section Declared

variable [Python]

/-- The port that an object declares in its body, variables replaced. -/
def declaredPort (vars : List (Text × Text)) (body : List Token) : Option Text :=
  (firstValue "port".toList body).map fun v => (v.map fun t => (expand vars t).1).getD []

/-- A valid port that is declared is the port of the node, and without one it is the default of the type. -/
def PortHonoured (declared : Option Text) (ctype : CheckType) (port : ℤ) : Prop :=
  (∀ raw p, declared = some raw → PlainPort raw p → port = p) ∧
    (declared = none → port = (defaultPort ctype).getD 0)

theorem port_withDefaults (groups : List (Text × List (Text × Text))) (o : Obj) :
    (withDefaults groups o).val.port = o.node.port := by
  rw [val_withDefaults]
  split
  · rfl
  · cases groups.lookup o.node.group <;> rfl

/-- The state at the end of a parse that succeeds. -/
theorem parse_ok {text : Text} {ts : List Token} {z : ℤ} {res : ParseResult Forest} (hts : tokenize text = .ok ts)
    (hres : parse text z = .ok res) :
    ∃ fin, (clauses ts).foldlM interpret { numfailures := z } = .ok fin ∧ res.roots = (finish fin).roots := by
  have hparse := parse_clauses hts z
  rw [hres] at hparse
  cases hfin : (clauses ts).foldlM interpret { numfailures := z } with
  | error e => rw [hfin] at hparse; cases hparse
  | ok fin =>
    rw [hfin] at hparse
    exact ⟨fin, rfl, congrArg Prod.fst (Except.ok.inj hparse)⟩

theorem parse_of_ok {text : Text} {ts : List Token} {z : ℤ} {fin : State} (hts : tokenize text = .ok ts)
    (hfin : (clauses ts).foldlM interpret { numfailures := z } = .ok fin) :
    ∃ res, parse text z = .ok res ∧ res.roots = (finish fin).roots := by
  have hparse := parse_clauses hts z
  rw [hfin] at hparse
  cases hres : parse text z with
  | error e => rw [hres] at hparse; cases hparse
  | ok res =>
    rw [hres] at hparse
    exact ⟨res, rfl, congrArg Prod.fst (Except.ok.inj hparse)⟩

/-- **The port of an accepted object**: it is the declared one, or else the default of the type, exactly if the type
looks at `port` or the declared port happens to be the default. -/
theorem port_iff {text : Text} {ts : List Token} {z : ℤ} {res : ParseResult Forest} (hts : tokenize text = .ok ts)
    (hres : parse text z = .ok res) {pre post : List Clause} {name : Text} {body : List Token}
    (hc : clauses ts = pre ++ .object name (bodyAttrs .object body) :: post) {i : ℕ}
    (hacc : AcceptedAt z pre name (bodyAttrs .object body) i) :
    ∃ ctype, typeOf (resolvedOf (varsOf pre) (bodyAttrs .object body)) = some ctype ∧
      (PortHonoured (declaredPort (varsOf pre) body) ctype (res.roots.node i).port ↔
        ∀ raw p, declaredPort (varsOf pre) body = some raw → PlainPort raw p →
          readsPort ctype = true ∨ p = (defaultPort ctype).getD 0) := by
  obtain ⟨fin, hfin, hroots⟩ := parse_ok hts hres
  rw [hc] at hfin
  obtain ⟨r, node, deps, hr, hv, hnode⟩ := hacc.node hfin
  obtain ⟨-, -, ctype, fields, base, htype, hfields, hbase, rfl⟩ := buildNode_built hr hv
  obtain ⟨hdefault, hreads⟩ := typeFields_port hfields hbase
  have hlookup : (resolvedOf (varsOf pre) (bodyAttrs .object body)).lookup "port".toList =
      declaredPort (varsOf pre) body := by
    rw [lookup_resolvedOf _ _ (by decide), valueIn_bodyAttrs]
    rfl
  have hport : (res.roots.node i).port = base.port := by
    rw [hroots, hnode, port_withDefaults]
    rfl
  refine ⟨ctype, htype, ?_⟩
  rw [hport, PortHonoured, ← hlookup]
  constructor
  · rintro ⟨hplain, -⟩ raw p hraw hp
    cases hread : readsPort ctype with
    | true => exact .inl rfl
    | false => exact .inr ((hplain raw p hraw hp).symm.trans (hdefault (.inl hread)))
  · intro hcond
    refine ⟨fun raw p hraw hp => ?_, fun hnone => hdefault (.inr hnone)⟩
    cases hread : readsPort ctype with
    | true => exact hreads hread raw p hraw hp
    | false =>
      rcases hcond raw p hraw hp with h | rfl
      · rw [hread] at h; cases h
      · exact hdefault (.inl hread)

end Declared

/-- A config with one object, of a type that looks at its port. -/
def sshPort : Text := "object s \x7b host h; type ssh; port 2222; \x7d;".toList

def sshBody : List Token :=
  [⟨.word, "host".toList, 1⟩, ⟨.word, "h".toList, 1⟩, ⟨.semi, [], 1⟩, ⟨.word, "type".toList, 1⟩,
    ⟨.word, "ssh".toList, 1⟩, ⟨.semi, [], 1⟩, ⟨.word, "port".toList, 1⟩, ⟨.word, "2222".toList, 1⟩, ⟨.semi, [], 1⟩,
    ⟨.rbrace, [], 1⟩, ⟨.semi, [], 1⟩]

theorem port_sshPort : ∃ res, @parse Python.ascii sshPort 2 = .ok res ∧ (res.roots.node 0).port = 2222 ∧
    @PortHonoured (@declaredPort Python.ascii [] sshBody) .ssh (res.roots.node 0).port := by
  have hts : tokenize sshPort = .ok (⟨.word, "object".toList, 1⟩ :: ⟨.word, "s".toList, 1⟩ :: ⟨.lbrace, [], 1⟩ :: sshBody) :=
    toOption_eq_some.mp (by decide +kernel)
  obtain ⟨res, hres⟩ : ∃ res, (@parse Python.ascii sshPort 2).toOption = some res :=
    Option.isSome_iff_exists.mp (by decide +kernel)
  have hport : (@parse Python.ascii sshPort 2).toOption.map (fun r => (r.roots.node 0).port) = some 2222 := by
    decide +kernel
  rw [hres] at hport
  have hacc : @AcceptedAt Python.ascii 2 [] "s".toList (bodyAttrs .object sshBody) 0 := by
    obtain ⟨st, hst⟩ : ∃ st, (@interpret Python.ascii { numfailures := 2 }
        (.object "s".toList (bodyAttrs .object sshBody))).toOption = some st :=
      Option.isSome_iff_exists.mp (by decide +kernel)
    have hlen : (@interpret Python.ascii { numfailures := 2 }
        (.object "s".toList (bodyAttrs .object sshBody))).toOption.map (·.objects.length) = some 1 := by decide +kernel
    rw [hst] at hlen
    exact ⟨_, st, rfl, toOption_eq_some.mp hst, Option.some.inj hlen, rfl⟩
  obtain ⟨ctype, htype, hiff⟩ :=
    @port_iff Python.ascii sshPort _ 2 res hts (toOption_eq_some.mp hres) [] [] "s".toList sshBody (by decide +kernel) 0 hacc
  have hssh : @typeOf (@resolvedOf Python.ascii [] (bodyAttrs .object sshBody)) = some .ssh := by decide +kernel
  obtain rfl := Option.some.inj (htype.symm.trans hssh)
  exact ⟨res, toOption_eq_some.mp hres, Option.some.inj hport, hiff.mpr fun _ _ _ _ => .inl rfl⟩

/-- An object of a type that never looks at its port. -/
def httpsPort : Text := "object web \x7b host h; type https; url u; port 8443; \x7d;".toList

theorem port_httpsPort : (@parse Python.ascii httpsPort 2).toOption.map
    (fun r => (r.roots.objs.map fun o => (o.1.checkType, o.1.port), r.warnings)) = some ([(.https, 443)], []) := by
  decide +kernel

end Psysmon.Modern
