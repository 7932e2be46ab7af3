import Psysmon.Config.Inline
import Psysmon.Config.LegacyRange

/-!
# Psysmon.Config.Newlines — no hostname and no group holds a newline

A field of a legacy line is free of whitespace.  In the modern grammar a word ends at whitespace and a string ends with its
line, so that no token holds a newline; the variables come from tokens as well, and nothing else goes into a hostname or a
group.

* `Modern.unbroken_tokenize`: the tokens.
* `Modern.Unbroken.interpret`, `Modern.Unbroken.run`: the variables and the objects, over one statement and over a file.
* `Modern.unbroken_parse`, `Legacy.unbroken_parse`: the nodes of a parsed file.
-/

namespace Psysmon

open Lib Text

/-- The names of a node on the status page hold no newline. -/
structure Node.Unbroken (n : Node) : Prop where
  hostname : '\n' ∉ n.hostname
  group : '\n' ∉ n.group

theorem Lib.Text.IsField.newline_not_mem {t : Text} (h : IsField t) : '\n' ∉ t := fun hm =>
  absurd (h.2 _ hm) (by decide)

/-! ### Legacy -/

namespace Legacy

variable [Python]

theorem hostname_hostFields {tokens : List Text} {node node' : Node} {message : Option Text}
    (h : hostFields tokens node = .ok (node', message)) : node'.hostname = node.hostname := by
  unfold hostFields at h
  dsimp only at h
  repeat' split at h
  all_goals cases h
  all_goals rfl

theorem isField_hostNode {raw : Text} {n : Node} (h : hostNode raw = some n) : IsField n.hostname := by
  obtain ⟨tokens, hf, hlen, ctype, source, st, message, hfields⟩ := exists_of_hostNode h
  have hhost : n.hostname = tokens.getD 0 [] := hostname_hostFields hfields
  rw [hhost, List.getD_eq_getElem _ _ (by omega : 0 < tokens.length)]
  exact hf _ (List.getElem_mem _)

theorem unbroken_parse {text : Text} {z : ℤ} {res : ParseResult Siblings} (h : parse text z = .ok res) {n : Node}
    (hn : n ∈ res.roots.nodes) : n.Unbroken := by
  have hgroup : n.group = [] := (accepted_of_parse h hn).1.group
  rw [nodes_eq_keptFrom h] at hn
  obtain ⟨k, hk, rfl⟩ := List.mem_map.mp hn
  obtain ⟨before, l, after, -, hat⟩ := mem_keptFrom.mp hk
  obtain ⟨-, n, hnode, rfl⟩ := keptAt_eq_some_iff.mp hat
  refine ⟨(isField_hostNode hnode).newline_not_mem, ?_⟩
  rw [hgroup]
  exact List.not_mem_nil

end Legacy

namespace Modern

/-! ### Tokens -/

/-- What the tokenizer has read of a token holds no newline. -/
def Mode.Unbroken : Mode → Prop
  | .plain | .comment => True
  | .word read | .string _ read => '\n' ∉ read

theorem unbroken_lexPlain {c : Char} {line : ℕ} {boundary : Bool} {ts : List Token} {s : LexState}
    (h : lexPlain c line boundary = .ok (ts, s)) : (∀ t ∈ ts, '\n' ∉ t.value) ∧ s.mode.Unbroken := by
  unfold lexPlain at h
  by_cases hc : c = '\n'
  · rw [if_pos hc] at h
    obtain ⟨rfl, rfl⟩ := Prod.mk.inj (Except.ok.inj h)
    exact ⟨List.forall_mem_nil _, trivial⟩
  rw [if_neg hc] at h
  repeat' split at h
  all_goals cases h
  all_goals simp [Mode.Unbroken, Ne.symm hc]

/-- One character keeps the newlines out. -/
theorem unbroken_lexChar {c : Char} {s s' : LexState} {ts : List Token} (hs : s.mode.Unbroken)
    (h : lexChar c s = .ok (ts, s')) : (∀ t ∈ ts, '\n' ∉ t.value) ∧ s'.mode.Unbroken := by
  obtain ⟨mode, line, boundary⟩ := s
  unfold lexChar at h
  cases mode with
  | plain => exact unbroken_lexPlain h
  | comment =>
    dsimp only at h
    split at h
    · exact unbroken_lexPlain h
    · obtain ⟨rfl, rfl⟩ := Prod.mk.inj (Except.ok.inj h)
      exact ⟨List.forall_mem_nil _, trivial⟩
  | word read =>
    have hread : '\n' ∉ read := hs
    dsimp only at h
    split at h
    · cases hp : lexPlain c line false with
      | error e => rw [hp] at h; cases h
      | ok r =>
        rw [hp] at h
        obtain ⟨rfl, rfl⟩ := Prod.mk.inj (Except.ok.inj h)
        obtain ⟨htokens, hmode⟩ := unbroken_lexPlain hp
        refine ⟨List.forall_mem_cons.mpr ⟨?_, htokens⟩, hmode⟩
        rwa [List.mem_reverse]
    · -- a newline is whitespace: it would have ended the word
      rename_i hc
      obtain ⟨rfl, rfl⟩ := Prod.mk.inj (Except.ok.inj h)
      refine ⟨List.forall_mem_nil _, fun hm => ?_⟩
      rcases List.mem_cons.mp hm with rfl | hm
      · exact hc (.inr (by decide))
      · exact hread hm
  | string start read =>
    have hread : '\n' ∉ read := hs
    dsimp only at h
    split at h
    · obtain ⟨rfl, rfl⟩ := Prod.mk.inj (Except.ok.inj h)
      refine ⟨List.forall_mem_singleton.mpr ?_, trivial⟩
      rwa [List.mem_reverse]
    split at h
    · cases h
    · rename_i hc
      obtain ⟨rfl, rfl⟩ := Prod.mk.inj (Except.ok.inj h)
      exact ⟨List.forall_mem_nil _, fun hm => (List.mem_cons.mp hm).elim (fun he => hc he.symm) hread⟩

theorem unbroken_lexFrom {text : Text} {s : LexState} {ts : List Token} (hs : s.mode.Unbroken)
    (h : lexFrom text s = .ok ts) : ∀ t ∈ ts, '\n' ∉ t.value := by
  induction text generalizing s ts with
  | nil =>
    obtain ⟨mode, line, boundary⟩ := s
    cases mode with
    | plain | comment =>
      obtain rfl := Except.ok.inj h
      exact List.forall_mem_nil _
    | word read =>
      obtain rfl := Except.ok.inj h
      refine List.forall_mem_singleton.mpr ?_
      rw [List.mem_reverse]
      exact hs
    | string start read => cases h
  | cons c text ih =>
    rw [lexFrom] at h
    cases hc : lexChar c s with
    | error e => rw [hc] at h; cases h
    | ok r =>
      obtain ⟨ts₁, s'⟩ := r
      rw [hc] at h
      dsimp only at h
      cases hrest : lexFrom text s' with
      | error e => rw [hrest] at h; cases h
      | ok ts₂ =>
        rw [hrest] at h
        obtain rfl := Except.ok.inj h
        obtain ⟨hts₁, hs'⟩ := unbroken_lexChar hs hc
        exact List.forall_mem_append.mpr ⟨hts₁, ih hs' hrest⟩

/-- **No token holds a newline.** -/
theorem unbroken_tokenize {text : Text} {ts : List Token} (h : tokenize text = .ok ts) : ∀ t ∈ ts, '\n' ∉ t.value :=
  unbroken_lexFrom (s := ⟨.plain, 1, true⟩) trivial h

/-! ### What is cut out of a token list -/

theorem subset_collectToSemi (ts : List Token) : (collectToSemi ts).1 ⊆ ts ∧ (collectToSemi ts).2.2 ⊆ ts := by
  induction ts with
  | nil => exact ⟨List.Subset.refl _, List.Subset.refl _⟩
  | cons t ts ih =>
    rw [collectToSemi]
    split
    · exact ⟨List.nil_subset _, List.subset_cons_self _ _⟩
    · exact ⟨List.cons_subset_cons t ih.1, List.subset_cons_of_subset t ih.2⟩

theorem subset_dropKind (k : TokenKind) (ts : List Token) : dropKind k ts ⊆ ts := by
  cases ts with
  | nil => exact List.Subset.refl _
  | cons t ts =>
    rw [dropKind]
    split
    · exact List.subset_cons_self t ts
    · exact List.Subset.refl _

theorem subset_skipBalanced (d : ℕ) (ts : List Token) : skipBalanced d ts ⊆ ts := by
  induction ts generalizing d with
  | nil => cases d <;> simp [skipBalanced]
  | cons t ts ih =>
    cases d with
    | zero => simp [skipBalanced]
    | succ d =>
      rw [skipBalanced]
      split
      · exact List.subset_cons_of_subset t (ih _)
      · split <;> exact List.subset_cons_of_subset t (ih _)

theorem subset_collectAttr (ts : List Token) : (collectAttr ts).val.1 ⊆ ts ∧ (collectAttr ts).val.2 ⊆ ts := by
  induction ts with
  | nil => exact ⟨List.Subset.refl _, List.Subset.refl _⟩
  | cons t ts ih =>
    rw [collectAttr]
    split
    · exact ⟨List.nil_subset _, List.Subset.refl _⟩
    split
    · exact ⟨List.nil_subset _, List.subset_cons_self _ _⟩
    split
    · exact ⟨List.nil_subset _,
        List.subset_cons_of_subset t (List.Subset.trans (subset_dropKind _ _) (subset_skipBalanced _ _))⟩
    · exact ⟨List.cons_subset_cons t ih.1, List.subset_cons_of_subset t ih.2⟩

/-- The values of these attributes hold no newline. -/
def UnbrokenAttrs (attrs : List Attr) : Prop := ∀ a ∈ attrs, ∀ v, a.value = some v → '\n' ∉ v

theorem UnbrokenAttrs.addAttr {attrs : List Attr} (h : UnbrokenAttrs attrs) (kind : BlockKind) (name : Text) (key : Token)
    {value : Option Text} (hv : ∀ v, value = some v → '\n' ∉ v) : UnbrokenAttrs (addAttr kind name attrs key value).val := by
  unfold Modern.addAttr
  split
  · split
    · -- a repeated `dep`: its first value stays
      intro a ha
      obtain ⟨b, hb, rfl⟩ := List.mem_map.mp ha
      split <;> exact h b hb
    · exact h
  · exact List.forall_mem_append.mpr ⟨h, List.forall_mem_singleton.mpr hv⟩

theorem unbroken_collectBlockAttrs (kind : BlockKind) (name : Text) {attrs : List Attr} {ts : List Token}
    (ha : UnbrokenAttrs attrs) (hts : ∀ t ∈ ts, '\n' ∉ t.value) :
    UnbrokenAttrs (collectBlockAttrs kind name attrs ts).val.1 ∧ (collectBlockAttrs kind name attrs ts).val.2.2 ⊆ ts := by
  fun_induction collectBlockAttrs kind name attrs ts with
  | case1 attrs => exact ⟨ha, List.Subset.refl _⟩
  | case2 attrs t ts h => exact ⟨ha, List.subset_cons_of_subset t (subset_dropKind _ _)⟩
  | case3 attrs t ts h hw ih =>
    have hsub := (subset_collectAttr (t :: ts)).2
    obtain ⟨h1, h2⟩ := ih ha fun x hx => hts x (hsub hx)
    exact ⟨h1, List.Subset.trans h2 hsub⟩
  | case4 attrs t ts h hw r ih =>
    obtain ⟨hval, hrest⟩ := subset_collectAttr ts
    have htail : ∀ x ∈ ts, '\n' ∉ x.value := fun x hx => hts x (List.mem_cons_of_mem t hx)
    have hfirst : ∀ v, (dropKind .equals (collectAttr ts).val.1).head?.map Token.value = some v → '\n' ∉ v := by
      intro v hv
      obtain ⟨x, hx, rfl⟩ := Option.map_eq_some_iff.mp hv
      exact htail x (hval (subset_dropKind _ _ (List.mem_of_head? hx)))
    obtain ⟨h1, h2⟩ := ih _ (ha.addAttr kind name t hfirst) fun x hx => htail x (hrest hx)
    exact ⟨h1, List.subset_cons_of_subset t (List.Subset.trans h2 hrest)⟩

/-! ### Statements -/

/-- The values of a statement that may reach a hostname or a group hold no newline. -/
def Clause.Unbroken : Clause → Prop
  | .set _ value => '\n' ∉ value
  | .object _ attrs => UnbrokenAttrs attrs
  | _ => True

theorem unbroken_bodyAttrs {ts : List Token} (hts : ∀ t ∈ ts, '\n' ∉ t.value) (kind : BlockKind) :
    UnbrokenAttrs (bodyAttrs kind ts) := by
  intro a ha
  obtain ⟨b, hb, rfl⟩ := List.mem_map.mp ha
  exact (unbroken_collectBlockAttrs kind [] (List.forall_mem_nil _) hts).1 b hb

theorem unbroken_setClause {ts : List Token} (hts : ∀ t ∈ ts, '\n' ∉ t.value) : (setClause ts).Unbroken := by
  unfold setClause
  split
  · split
    · exact hts _ (by simp)
    · trivial
  · trivial

theorem unbroken_blockClause {ts : List Token} (hts : ∀ t ∈ ts, '\n' ∉ t.value) (kind : BlockKind)
    (named : TokenKind → Bool) : (blockClause kind named ts).Unbroken := by
  unfold blockClause
  split
  · rename_i n b body
    have hbody : ∀ t ∈ body, '\n' ∉ t.value := fun t ht => hts t (by simp [ht])
    split
    · cases kind with
      | object => exact unbroken_bodyAttrs hbody .object
      | group => trivial
    · trivial
  · trivial

theorem unbroken_clause {t : Token} {ts : List Token} (hts : ∀ x ∈ ts, '\n' ∉ x.value) : (clause t ts).Unbroken := by
  have hargs : ∀ x ∈ (collectToSemi ts).1, '\n' ∉ x.value := fun x hx => hts x ((subset_collectToSemi ts).1 hx)
  unfold clause
  split
  · trivial
  split
  · unfold configClause
    split
    · split <;> trivial
    · trivial
  split
  · exact unbroken_setClause hargs
  split
  · unfold rootClause
    split
    · split <;> trivial
    · trivial
  split
  · exact unbroken_blockClause hts .object namesObject
  split
  · exact unbroken_blockClause hts .group namesGroup
  split <;> trivial

theorem subset_afterBlock (named : TokenKind → Bool) {ts : List Token} (hts : ∀ t ∈ ts, '\n' ∉ t.value) :
    afterBlock named ts ⊆ ts := by
  match ts with
  | [] => exact List.Subset.refl _
  | n :: ts =>
    unfold afterBlock
    dsimp only
    split
    · match ts with
      | [] => exact List.nil_subset _
      | b :: body =>
        have hbody : ∀ t ∈ body, '\n' ∉ t.value := fun t ht => hts t (by simp [ht])
        dsimp only
        split
        · exact List.subset_cons_of_subset n (List.subset_cons_of_subset b
            (unbroken_collectBlockAttrs .object [] (List.forall_mem_nil _) hbody).2)
        · exact List.subset_cons_of_subset n (subset_collectToSemi _).2
    · unfold skipBlockOrSemi
      dsimp only
      split
      · exact List.subset_cons_of_subset n (List.Subset.trans (subset_dropKind _ _) (subset_skipBalanced _ _))
      · exact (subset_collectToSemi _).2

theorem subset_after {t : Token} {ts : List Token} (hts : ∀ x ∈ t :: ts, '\n' ∉ x.value) : after t ts ⊆ t :: ts := by
  have htail : ∀ x ∈ ts, '\n' ∉ x.value := fun x hx => hts x (List.mem_cons_of_mem t hx)
  unfold after
  split
  · exact (subset_collectToSemi _).2
  split
  · exact List.subset_cons_of_subset t (subset_collectToSemi ts).2
  split
  · exact List.subset_cons_of_subset t (subset_afterBlock namesObject htail)
  split
  · exact List.subset_cons_of_subset t (subset_afterBlock namesGroup htail)
  · exact (subset_collectToSemi _).2

theorem unbroken_clauses {ts : List Token} (hts : ∀ t ∈ ts, '\n' ∉ t.value) : ∀ c ∈ clauses ts, c.Unbroken := by
  fun_induction clauses ts with
  | case1 => exact List.forall_mem_nil _
  | case2 t ts ih =>
    refine List.forall_mem_cons.mpr ⟨unbroken_clause fun x hx => hts x (List.mem_cons_of_mem t hx), ih ?_⟩
    exact fun x hx => hts x (subset_after hts hx)

/-! ### Values -/

theorem newline_not_mem_getD {r : List (Text × Text)} (hr : ∀ x ∈ r, '\n' ∉ x.2) (key : Text) :
    '\n' ∉ (r.lookup key).getD [] := by
  cases hl : r.lookup key with
  | none => exact List.not_mem_nil
  | some v => exact hr _ (mem_of_lookup hl)

/-- The fields of the type leave the host and the group alone. -/
theorem names_typeFields {line : ℕ} {name kw : Text} {r : List (Text × Text)} {node node' : Node} {l : Log (Option Node)}
    (h : typeFields line name kw r node = .ok l) (hv : l.val = some node') :
    node'.hostname = node.hostname ∧ node'.group = node.group := by
  have hmap {x : Except Failure (Log (Option ℤ))} {f : Option ℤ → Option Node} (hx : x.map (f <$> ·) = .ok l) :
      ∃ p, f p = some node' := by
    cases x with
    | error e => cases hx
    | ok l' =>
      obtain rfl := Except.ok.inj hx
      exact ⟨l'.val, hv⟩
  cases hc : node.checkType <;> unfold typeFields at h <;> rw [hc] at h <;> dsimp only at h
  case tcp | udp =>
    obtain ⟨p, hp⟩ := hmap h
    obtain ⟨p', -, rfl⟩ := Option.map_eq_some_iff.mp hp
    exact ⟨rfl, rfl⟩
  case ping | ping6 | smtp | ssh | mysql | telnet =>
    cases hp : r.lookup "port".toList with
    | none =>
      rw [hp] at h
      obtain rfl := Except.ok.inj h
      obtain rfl := Option.some.inj hv
      exact ⟨rfl, rfl⟩
    | some raw =>
      rw [hp] at h
      obtain ⟨p, hp⟩ := hmap h
      obtain rfl := Option.some.inj hp
      exact ⟨rfl, rfl⟩
  all_goals
    split at h
    · obtain rfl := Except.ok.inj h
      first
        | obtain rfl := Option.some.inj hv
          exact ⟨rfl, rfl⟩
        | cases hv
    · obtain rfl := Except.ok.inj h
      obtain rfl := Option.some.inj hv
      exact ⟨rfl, rfl⟩

variable [Python]

theorem newline_not_mem_expand {vars : List (Text × Text)} (hvars : ∀ v ∈ vars, '\n' ∉ v.2) {t : Text} (ht : '\n' ∉ t) :
    '\n' ∉ (expand vars t).1 := by
  intro h
  rcases mem_expand h with h | ⟨v, hv, h⟩
  · exact ht h
  · exact hvars v hv h

/-- The values of an object's attributes. -/
theorem unbroken_resolvedOf {vars : List (Text × Text)} (hvars : ∀ v ∈ vars, '\n' ∉ v.2) {attrs : List Attr}
    (ha : UnbrokenAttrs attrs) : ∀ x ∈ resolvedOf vars attrs, '\n' ∉ x.2 := by
  intro x hx
  rw [resolvedOf, val_resolve] at hx
  obtain ⟨a, hmem, rfl⟩ := List.mem_map.mp hx
  have hval := ha a (List.mem_of_mem_filter hmem)
  show '\n' ∉ a.expanded vars
  unfold Attr.expanded
  cases hv : a.value with
  | none => exact List.not_mem_nil
  | some v => exact newline_not_mem_expand hvars (hval v hv)

theorem unbroken_buildNode {z : ℤ} {vars : List (Text × Text)} (hvars : ∀ v ∈ vars, '\n' ∉ v.2) {attrs : List Attr}
    (ha : UnbrokenAttrs attrs) {line : ℕ} {name : Text} {l : Log (Option (Node × List Text))} {node : Node}
    {deps : List Text} (h : buildNode z vars line name attrs = .ok l) (hv : l.val = some (node, deps)) :
    node.Unbroken := by
  have hr := unbroken_resolvedOf hvars ha
  obtain ⟨-, -, ctype, fields, base, -, hfields, hbase, rfl⟩ := buildNode_built h hv
  obtain ⟨hhost, hgroup⟩ := names_typeFields hfields hbase
  constructor
  · show '\n' ∉ base.hostname
    rw [hhost]
    show '\n' ∉ hostOf _
    unfold hostOf
    split <;> exact newline_not_mem_getD hr _
  · show '\n' ∉ ((resolvedOf vars attrs).lookup "group".toList).elim base.group strip
    cases hl : (resolvedOf vars attrs).lookup "group".toList with
    | none =>
      rw [hgroup]
      exact List.not_mem_nil
    | some raw => exact fun hm => hr _ (mem_of_lookup hl) (mem_stripBy hm)

/-! ### Files -/

/-- The invariant of the parser: no newline in a variable, a hostname or a group, and every group is what a block made
of it. -/
structure Unbroken (st : State) : Prop where
  vars : ∀ v ∈ st.vars, '\n' ∉ v.2
  objects : ∀ o ∈ st.objects, o.node.Unbroken
  groups : ∀ g ∈ st.groups, ∃ vars attrs, g.2 = groupSettings vars attrs

theorem Unbroken.interpret {st st' : State} {c : Clause} (h : Unbroken st) (hc : c.Unbroken)
    (hs : interpret st c = .ok st') : Unbroken st' := by
  cases c with
  | config name values | root name | skipped =>
    obtain rfl := Except.ok.inj hs
    exact ⟨h.vars, h.objects, h.groups⟩
  | includes line => cases hs
  | set name value =>
    obtain rfl := Except.ok.inj hs
    exact ⟨List.forall_mem_cons.mpr ⟨newline_not_mem_expand h.vars hc, h.vars⟩, h.objects, h.groups⟩
  | group name attrs =>
    obtain rfl := Except.ok.inj hs
    refine ⟨h.vars, h.objects, ?_⟩
    show ∀ g ∈ addSettings _ _ _, _
    unfold addSettings
    split
    · exact h.groups
    · exact List.forall_mem_append.mpr ⟨h.groups, List.forall_mem_singleton.mpr ⟨st.vars, attrs, rfl⟩⟩
  | object name attrs =>
    obtain ⟨r, hr, rfl⟩ := interpret_object_ok hs
    refine ⟨h.vars, ?_, h.groups⟩
    show ∀ o ∈ addBuilt _ _ _ _, _
    cases hv : r.val with
    | none => exact h.objects
    | some built =>
      dsimp only [addBuilt]
      split
      · exact h.objects
      · exact List.forall_mem_append.mpr ⟨h.objects, List.forall_mem_singleton.mpr (unbroken_buildNode h.vars hc hr hv)⟩

theorem Unbroken.run {cs : List Clause} {st st' : State} (h : Unbroken st) (hcs : ∀ c ∈ cs, c.Unbroken)
    (hs : cs.foldlM Modern.interpret st = .ok st') : Unbroken st' := by
  induction cs generalizing st with
  | nil =>
    obtain rfl := Except.ok.inj hs
    exact h
  | cons c cs ih =>
    obtain ⟨st₁, hc, hrest⟩ := foldlM_cons_ok.mp hs
    obtain ⟨hfirst, htail⟩ := List.forall_mem_cons.mp hcs
    exact ih (h.interpret hfirst hc) htail hrest

/-- The defaults of a group change neither name. -/
theorem Unbroken.withDefaults {st : State} (h : Unbroken st) {o : Obj} (ho : o ∈ st.objects) :
    (Modern.withDefaults st.groups o).val.Unbroken := by
  have hnode := h.objects o ho
  rw [val_withDefaults]
  split
  · exact hnode
  · cases hl : st.groups.lookup o.node.group with
    | none => exact hnode
    | some defaults =>
      obtain ⟨vars, attrs, heq⟩ := h.groups _ (mem_of_lookup hl)
      obtain rfl : defaults = groupSettings vars attrs := heq
      refine ⟨hnode.hostname, ?_⟩
      show '\n' ∉ (defaulted (inherited o.keys (groupSettings vars attrs)) o.node).group
      rw [group_defaulted]
      exact hnode.group

theorem unbroken_parse {text : Text} {z : ℤ} {res : ParseResult Forest} (h : parse text z = .ok res) (i : ℕ) :
    (res.roots.node i).Unbroken := by
  obtain ⟨ts, hts⟩ : ∃ ts, tokenize text = .ok ts := by
    unfold parse at h
    cases hts : tokenize text with
    | error e => rw [hts] at h; cases h
    | ok ts => exact ⟨ts, rfl⟩
  obtain ⟨fin, hfin, hroots⟩ := parse_ok hts h
  have hinv : Unbroken fin :=
    Unbroken.run ⟨List.forall_mem_nil _, List.forall_mem_nil _, List.forall_mem_nil _⟩
      (unbroken_clauses (unbroken_tokenize hts)) hfin
  rw [hroots]
  cases ho : fin.objects[i]? with
  | some o =>
    rw [node_finish ho]
    exact hinv.withDefaults (List.mem_of_getElem? ho)
  | none =>
    have hnode : (finish fin).roots.node i = ⟨[], .ping, 0, [], [], [], none, none, [], [], [], none, 2, none, none, none⟩ := by
      unfold Forest.node finish
      dsimp only
      rw [objs_buildForest, val_resolveGroupDefaults, graph]
      simp [ho]
    rw [hnode]
    exact ⟨List.not_mem_nil, List.not_mem_nil⟩

end Modern

end Psysmon
