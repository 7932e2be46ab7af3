import Psysmon.Config.ConvertGlobals
import Psysmon.Config.Preorder
import Psysmon.Config.Recognise

/-!
# Psysmon.Config.RoundTrip — a converted config means what the legacy config meant

The output of the converter, if it has nothing to warn about, is recognised as a modern config and read back: the same
overrides but `numfailures`, and the same forest with every node `reread`.

* `clean_serialized`: what an output without warnings says about its parts.
* `detect_stmts`, `interpret_stmts`: the output is recognised, and carried out statement by statement.
* `parse_converted`: what the modern parser makes of it.
-/

namespace Psysmon.Convert

open Lib Text Number Modern

/-! ### An output without warnings -/

/-- No warning, and every integer can be printed. -/
def Out.Clean (o : Out) : Prop := o.warnings = [] ∧ ∀ z ∈ o.ints, Printable z

theorem clean_concat {os : List Out} : (Out.concat os).Clean ↔ ∀ o ∈ os, o.Clean := by
  unfold Out.Clean Out.concat
  simp only [List.flatMap_eq_nil_iff, List.mem_flatMap]
  constructor
  · rintro ⟨hw, hz⟩ o ho
    exact ⟨hw o ho, fun z h => hz z ⟨o, ho, h⟩⟩
  · intro h
    exact ⟨fun o ho => (h o ho).1, fun z ⟨o, ho, hz⟩ => (h o ho).2 z hz⟩

theorem isWord_typeKw (t : CheckType) : IsWord (typeKw t) := by
  cases t <;> decide

/-! ### Recognition -/

theorem oneLine_intText (z : ℤ) : OneLine (intText z) := (isWord_intText z).isField.oneLine

theorem oneLine_quote {v : Text} (hv : OneLine v) : OneLine ('"' :: quote v ++ ['"']) := by
  have hq : OneLine (quote v) := by
    intro c hc
    unfold quote at hc
    split at hc
    · obtain ⟨d, hd, rfl⟩ := List.mem_map.mp hc
      split
      · decide
      · exact hv d (List.mem_of_mem_filter hd)
    · exact hv c hc
  exact .append (.append (by decide : OneLine ['"']) hq) (by decide)

/-- The strings in the `config` statements come from one line. -/
theorem oneLine_of_quoted {o : Overrides} (h : Legacy.Collected o) {d : Directive} (hd : d ∈ directives o) {t : Text}
    (ht : .quoted t ∈ d.values) : OneLine t := by
  rcases List.mem_append.mp hd with hd | hd
  · rcases List.mem_append.mp hd with hd | hd
    · obtain ⟨path, hpath, rfl⟩ := Option.map_eq_some_iff.mp (Option.mem_toList.mp hd)
      have hsettable : OneLine path := h.settable _ _ hpath
      simp only [List.mem_cons, reduceCtorEq, Piece.quoted.injEq, List.not_mem_nil, or_false, false_or] at ht
      exact ht ▸ hsettable
    · obtain ⟨fac, -, rfl⟩ := Option.map_eq_some_iff.mp (Option.mem_toList.mp hd)
      simp at ht
  · obtain ⟨⟨g, kw⟩, -, hd⟩ := List.mem_filterMap.mp hd
    obtain ⟨v, hv, hd⟩ := Option.bind_eq_some_iff.mp hd
    obtain ⟨vs, hvs, rfl⟩ := Option.map_eq_some_iff.mp hd
    have hsettable := h.settable _ v hv
    cases g with
    | str f =>
      obtain rfl := Option.some.inj hvs
      obtain rfl := Piece.quoted.inj (List.mem_singleton.mp ht)
      exact hsettable
    | flag f =>
      cases hb : (v : Bool) with
      | true =>
        rw [Global.values, hb] at hvs
        obtain rfl := Option.some.inj hvs
        cases ht
      | false =>
        rw [Global.values, hb] at hvs
        cases hvs
    | num f => exact hsettable.elim
    | int f =>
      obtain rfl := Option.some.inj hvs
      cases List.mem_singleton.mp ht
    | logLevel =>
      obtain rfl := Option.some.inj hvs
      cases List.mem_singleton.mp ht

theorem oneLine_directive {o : Overrides} (h : Legacy.Collected o) {d : Directive} (hd : d ∈ directives o) :
    OneLine d.line := by
  have hwf := wellFormed_directives h d hd
  have hvalues : ∀ v ∈ d.values, OneLine v.text := by
    intro v hv
    cases v with
    | int z => exact oneLine_intText z
    | word t => exact (hwf.2 _ hv : IsWord t).isField.oneLine
    | quoted t => exact oneLine_quote (oneLine_of_quoted h hd hv)
  have hjoined : OneLine (joinSpaces (d.name :: d.values.map Piece.text)) := by
    intro c hc
    rcases mem_joinSpaces hc with rfl | ⟨w, hw, hcw⟩
    · decide
    · rcases List.mem_cons.mp hw with rfl | hw
      · exact hwf.1.isField.oneLine c hcw
      · obtain ⟨v, hv, rfl⟩ := List.mem_map.mp hw
        exact hvalues v hv c hcw
  exact .append (.append (by decide) hjoined) (by decide)

/-- A comment or a `config` statement on one line says nothing about the format. -/
theorem opens_of_oneLine {s : Stmt} {l : Text} (hs : s.print = l ++ ['\n']) (hl : OneLine l)
    (hopens : s.opens = (splitlines s.print).tail.findSome? detectLine) : s.opens = none := by
  rw [hopens, hs, splitlines_line hl]
  rfl

/-- **The output is recognised.** -/
theorem detect_stmts {seed : ℤ} {result : ParseResult Siblings} (h : Legacy.Collected result.overrides)
    (hroots : result.roots ≠ .nil) : detect (printAll (stmts seed result)) = .modern := by
  have hnotes : ∀ note ∈ headerNotes seed, (Stmt.comment false note).opens = none := by
    intro note hnote
    refine opens_of_oneLine (l := note.print) rfl ?_ rfl
    simp only [headerNotes, List.mem_cons, List.not_mem_nil, or_false] at hnote
    rcases hnote with rfl | rfl | rfl
    · decide
    · decide
    · exact .append (.append (by decide : OneLine "# default of ".toList) (oneLine_intText seed)) (by decide)
  have hdirectives : ∀ d ∈ directives result.overrides, d.stmt.opens = none := fun d hd =>
    opens_of_oneLine (Directive.print_stmt (wellFormed_directives h d hd)) (oneLine_directive h hd) rfl
  have hobjects : ((walk none result.roots []).1.flatMap fun p => [.blank, p.stmt seed]).findSome? Stmt.opens =
      some .modern := by
    cases hr : result.roots with
    | nil => exact absurd hr hroots
    | cons n c r => rfl
  have hbefore : ∀ s ∈ (headerNotes seed).map (Stmt.comment false) ++ (if directives result.overrides = [] then []
      else .blank :: (directives result.overrides).map Directive.stmt), s.opens = none := by
    intro s hs
    rcases List.mem_append.mp hs with hs | hs
    · obtain ⟨note, hnote, rfl⟩ := List.mem_map.mp hs
      exact hnotes note hnote
    · split at hs
      · cases hs
      · rcases List.mem_cons.mp hs with rfl | hs
        · rfl
        · obtain ⟨d, hd, rfl⟩ := List.mem_map.mp hs
          exact hdirectives d hd
  rw [detect_printAll, stmts, List.findSome?_append, List.findSome?_eq_none_iff.mpr hbefore, hobjects]
  rfl

/-! ### What is read -/

/-- The statements of the output, as the parser reads them. -/
theorem clauses_stmts {seed : ℤ} {result : ParseResult Siblings}
    (hds : ∀ d ∈ directives result.overrides, d.WellFormed) :
    (stmts seed result).flatMap Stmt.clauses =
      ((directives result.overrides).map fun d =>
        Clause.config d.name (d.values.map fun v => ⟨v.value.kind, v.value.text, 0⟩)) ++
      (walk none result.roots []).1.map fun p => Clause.object p.name (written seed p) := by
  have hconfig : (if directives result.overrides = [] then [] else
      .blank :: (directives result.overrides).map Directive.stmt).flatMap Stmt.clauses =
        (directives result.overrides).map fun d =>
          Clause.config d.name (d.values.map fun v => ⟨v.value.kind, v.value.text, 0⟩) := by
    have hmap : ((directives result.overrides).map Directive.stmt).flatMap Stmt.clauses =
        (directives result.overrides).map fun d =>
          Clause.config d.name (d.values.map fun v => ⟨v.value.kind, v.value.text, 0⟩) := by
      rw [List.flatMap_map, List.map_eq_flatMap]
      refine List.flatMap_congr fun d hd => ?_
      rw [Directive.stmt, Stmt.clauses, text_wordOf (hds d hd).1, List.map_map]
      rfl
    split
    · rename_i hnil
      rw [hnil]
      rfl
    · exact hmap
  have hobjects : ((walk none result.roots []).1.flatMap fun p => [.blank, p.stmt seed]).flatMap Stmt.clauses =
      (walk none result.roots []).1.map fun p => Clause.object p.name (written seed p) := by
    rw [List.flatMap_assoc, List.map_eq_flatMap]
    refine List.flatMap_congr fun p hp => ?_
    change [Clause.object (wordOf p.name).text _] = _
    rw [text_wordOf (isWord_walk hp), foldl_written]
  rw [stmts, List.flatMap_append, List.flatMap_append, hconfig, hobjects]
  rfl

/-- The object that the parser makes of a written node. -/
def objectOf (seed : ℤ) (p : Placed) : Obj :=
  ⟨p.name, reread p.node, p.parent.toList, 0, (written seed p).map Attr.key⟩

/-- The objects link to the forest of the legacy file. -/
theorem buildForest_objectOf (seed : ℤ) (t : Siblings) :
    (buildForest none 0 ((walk none t []).1.map (objectOf seed))).val = (t.map reread).toForest := by
  have hname : ((walk none t []).1.map (objectOf seed)).map Obj.name = (walk none t []).1.map Placed.name := by
    rw [List.map_map]
    rfl
  refine buildForest_preorder (hname ▸ nodup_walk none t) ?_
  generalize hnames : nameAt ((walk none t []).1.map (objectOf seed)) = nameOf
  have hnone : (none : Option Text) = (none : Option ℕ).map nameOf := rfl
  have hparents := parents_walk hnone t [] 0 fun i x hx => by
    rw [← hnames, Nat.zero_add, nameAt, List.getElem?_map, hx]
    rfl
  have hrows := congrArg (List.map fun y : Node × Option Text => (reread y.1, y.2.toList)) hparents
  rw [List.map_map, List.map_map] at hrows
  rw [Siblings.parents_map, List.map_map, List.map_map]
  exact hrows

/-- The ping counts that are not read back. -/
theorem reread_eq_self_iff (n : Node) :
    reread n = n ↔ ∀ send minp, n.sendPings = some send → n.minPings = some minp → minp ≤ send := by
  have hcounts : reread n = n ↔ orderedCounts n.sendPings n.minPings = (n.sendPings, n.minPings) := by
    obtain ⟨_, _, _, _, _, _, _, _, _, _, _, _, _, _, send, minp⟩ := n
    simp [reread, Prod.ext_iff]
  rw [hcounts]
  cases hs : n.sendPings with
  | none => cases n.minPings <;> simp [orderedCounts]
  | some send =>
    cases hm : n.minPings with
    | none => simp [orderedCounts]
    | some minp =>
      by_cases hlt : send < minp
      · simp [orderedCounts, hlt]
      · simp [orderedCounts, hlt, not_lt.mp hlt]

/-! ### Warnings -/

section Converted

variable [Python]

theorem clean_serialized {seed : ℤ} {result : ParseResult Siblings} (h : (serialized seed result).Clean) :
    (∀ d ∈ directives result.overrides, d.out.Clean) ∧ leftovers result.overrides = [] ∧
      ∀ p ∈ (walk none result.roots []).1, ∀ r ∈ attrs seed p, r.out.Clean := by
  unfold serialized at h
  dsimp only at h
  have hbefore := clean_concat.mp h _ List.mem_cons_self
  have hglobals := clean_concat.mp (clean_concat.mp hbefore _ List.mem_cons_self) _ (List.mem_cons_of_mem _ List.mem_cons_self)
  have hobjects := clean_concat.mp hbefore _ (List.mem_cons_of_mem _ (List.mem_cons_of_mem _ List.mem_cons_self))
  refine ⟨fun d hd => ?_, ?_, fun p hp r hr => ?_⟩
  · exact clean_concat.mp hglobals _ (List.mem_append_left _ (List.mem_map_of_mem hd))
  · refine List.eq_nil_iff_forall_not_mem.mpr fun f hf => ?_
    have hwarn := clean_concat.mp hglobals _ (List.mem_append_right _ (List.mem_map_of_mem hf))
    exact List.cons_ne_nil _ _ hwarn.1
  · have hobject := clean_concat.mp hobjects _ (List.mem_map_of_mem hp)
    exact clean_concat.mp hobject _ (List.mem_append_left _ (List.mem_cons_of_mem _ (List.mem_map_of_mem hr)))

theorem wellFormed_attrs {p : Placed} (hsticky : Legacy.Sticky p.node) (seed : ℤ) :
    ∀ r ∈ attrs seed p, r.WellFormed := by
  intro r hr
  refine ⟨isWord_attrKeys _ (keys_attrs seed p ▸ List.mem_map_of_mem hr), fun v hv => ?_⟩
  cases v with
  | quoted value => trivial
  | int z => trivial
  | word t =>
    -- the barewords are the type and the interval
    simp only [attrs, List.mem_cons, List.not_mem_nil, or_false] at hr
    rcases hr with rfl | rfl | rfl | rfl | rfl | rfl | rfl | rfl | rfl | rfl | rfl | rfl | rfl | rfl | rfl | rfl | rfl | rfl
    any_goals (simp [nonempty] at hv; done)
    · obtain rfl : typeKw p.node.checkType = t := Piece.word.inj (Option.some.inj hv)
      exact isWord_typeKw _
    · obtain ⟨q, hq, ht⟩ := Option.map_eq_some_iff.mp hv
      obtain ⟨hpos, hdouble⟩ := hsticky.interval q hq
      exact Piece.word.inj ht ▸ isWord_fmtNum hpos hdouble

theorem clean_row {r : Row} (hw : r.WellFormed) (h : r.out.Clean) : r.Clean := by
  intro v hv
  unfold Row.out at h
  rw [hv] at h
  obtain ⟨hwarn, hints⟩ := h
  obtain ⟨hnotice, hv'⟩ := List.append_eq_nil_iff.mp hwarn
  exact ⟨hnotice, hv', hw.2 v hv, hints⟩

theorem clean_directive {d : Directive} (hw : d.WellFormed) (h : d.out.Clean) : ∀ v ∈ d.values, v.Clean := fun v hv =>
  ⟨List.flatMap_eq_nil_iff.mp h.1 v hv, hw.2 v hv, fun z hz => h.2 z (List.mem_flatMap.mpr ⟨v, hv, hz⟩)⟩

/-! ### Interpretation -/

/-- A node that the parser takes as it was written. -/
structure Placed.Readable (seed : ℤ) (p : Placed) : Prop where
  isWord : IsWord p.name
  parent : ∀ name, p.parent = some name → name ≠ []
  positional : Legacy.Positional p.node
  sticky : Legacy.Sticky p.node
  clean : ∀ r ∈ attrs seed p, r.Clean

/-- One object. -/
theorem interpret_object {seed : ℤ} {p : Placed} (h : p.Readable seed) {st : State} (hvars : st.vars = [])
    (hseed : st.numfailures = seed) (hnew : ∀ o ∈ st.objects, o.name ≠ p.name) :
    interpret st (.object p.name (written seed p)) = .ok { st with objects := st.objects ++ [objectOf seed p] } := by
  have hbuild := buildNode_written h.clean h.positional h.sticky h.parent
  have hany : ¬ st.objects.any (·.name = p.name) = true := by
    simpa using hnew
  dsimp only [interpret]
  rw [hseed, hvars]
  cases hb : buildNode seed [] 0 p.name (written seed p) with
  | error e => rw [hb] at hbuild; cases hbuild
  | ok l =>
    rw [hb] at hbuild
    have hval : l.val = some (reread p.node, p.parent.toList) := Except.ok.inj hbuild
    dsimp only [Except.map]
    rw [hval, addBuilt, if_neg hany]
    rfl

/-- The objects. -/
theorem interpret_objects {seed : ℤ} (ps : List Placed) (h : ∀ p ∈ ps, p.Readable seed) (st : State) (hvars : st.vars = [])
    (hseed : st.numfailures = seed) (hnames : (st.objects.map Obj.name ++ ps.map Placed.name).Nodup) :
    (ps.map fun p => Clause.object p.name (written seed p)).foldlM interpret st =
      .ok { st with objects := st.objects ++ ps.map (objectOf seed) } := by
  induction ps generalizing st with
  | nil =>
    rw [List.map_nil, List.map_nil, List.append_nil]
    rfl
  | cons p ps ih =>
    have hnew : ∀ o ∈ st.objects, o.name ≠ p.name := fun o ho =>
      (List.nodup_append.mp hnames).2.2 o.name (List.mem_map_of_mem ho) p.name (by simp)
    rw [List.map_cons, List.foldlM_cons, interpret_object (h p (by simp)) hvars hseed hnew]
    refine (ih (fun x hx => h x (by simp [hx])) { st with objects := st.objects ++ [objectOf seed p] } hvars hseed
      (by simpa [objectOf] using hnames)).trans ?_
    rw [List.append_assoc, List.map_cons, List.singleton_append]

/-- The `config` statements. -/
theorem interpret_directives (ds : List Directive) (st : State) (hvars : st.vars = []) :
    (ds.map fun d => Clause.config d.name (d.values.map fun v => ⟨v.value.kind, v.value.text, 0⟩)).foldlM interpret st =
      .ok { st with overrides := ds.foldl configured st.overrides } := by
  induction ds generalizing st with
  | nil => rfl
  | cons d ds ih =>
    have hstep : interpret st (.config d.name (d.values.map fun v => ⟨v.value.kind, v.value.text, 0⟩)) =
        .ok { st with overrides := configured st.overrides d } := by
      dsimp only [interpret, configured]
      rw [hvars]
    rw [List.map_cons, List.foldlM_cons, hstep]
    exact ih { st with overrides := configured st.overrides d } hvars

/-- **The statements of the output, carried out.** -/
theorem interpret_stmts {seed : ℤ} {result : ParseResult Siblings} (hds : ∀ d ∈ directives result.overrides, d.WellFormed)
    (hreadable : ∀ p ∈ (walk none result.roots []).1, p.Readable seed) :
    ((stmts seed result).flatMap Stmt.clauses).foldlM interpret { numfailures := seed } =
      .ok { numfailures := seed, overrides := (directives result.overrides).foldl configured .empty,
            objects := (walk none result.roots []).1.map (objectOf seed) } := by
  rw [clauses_stmts hds, List.foldlM_append, interpret_directives _ _ rfl]
  exact interpret_objects _ hreadable
    { numfailures := seed, overrides := (directives result.overrides).foldl configured .empty } rfl rfl
    (nodup_walk none result.roots)

/-- **What the modern parser makes of the output.** -/
theorem parse_converted {seed : ℤ} {result : ParseResult Siblings} (hroots : result.roots ≠ .nil)
    (hcollected : Legacy.Collected result.overrides)
    (hnodes : ∀ n ∈ result.roots.nodes, Legacy.Positional n ∧ Legacy.Sticky n)
    (hclean : (serialized seed result).Clean) :
    ∃ r, parse (joined (serialized seed result).lines) seed = .ok r ∧ r.roots = (result.roots.map reread).toForest ∧
      r.overrides = (directives result.overrides).foldl configured .empty := by
  obtain ⟨-, -, hrows⟩ := clean_serialized hclean
  have hds := wellFormed_directives hcollected
  have hplaced : ∀ p ∈ (walk none result.roots []).1, Legacy.Positional p.node ∧ Legacy.Sticky p.node := fun p hp =>
    hnodes p.node (nodes_walk none result.roots [] ▸ List.mem_map_of_mem hp)
  have hwf : ∀ p ∈ (walk none result.roots []).1, ∀ r ∈ attrs seed p, r.WellFormed := fun p hp =>
    wellFormed_attrs (hplaced p hp).2 seed
  have hreadable : ∀ p ∈ (walk none result.roots []).1, p.Readable seed := fun p hp =>
    ⟨isWord_walk hp, fun name hname => (isWord_parent_walk (by simp) hp name hname).1, (hplaced p hp).1, (hplaced p hp).2,
      fun r hr => clean_row (hwf p hp r hr) (hrows p hp r hr)⟩
  have hparse := parse_clauses (tokenize_printAll (stmts seed result)) seed
  rw [clauses_tokensFrom, interpret_stmts hds hreadable, ← joined_serialized hroots hds hwf] at hparse
  -- there are no groups, so that nothing is inherited
  have hdefaults (objects : List Obj) : (resolveGroupDefaults [] objects).val = objects := by
    have hself (o : Obj) : ({ o with node := (withDefaults [] o).val } : Obj) = o := by
      rw [val_withDefaults, List.lookup_nil, Option.elim_none, ite_self]
    rw [val_resolveGroupDefaults]
    exact (List.map_congr_left fun o _ => hself o).trans (List.map_id objects)
  cases hp : parse (joined (serialized seed result).lines) seed with
  | error e => rw [hp] at hparse; cases hparse
  | ok r =>
    rw [hp] at hparse
    obtain ⟨hforest, hover⟩ := Prod.mk.inj (Except.ok.inj hparse)
    refine ⟨r, rfl, hforest.trans ?_, hover⟩
    change (buildForest none 0 (resolveGroupDefaults [] _).val).val = _
    rw [hdefaults]
    exact buildForest_objectOf seed result.roots

/-! ### The round trip -/

/-- Where a stanza is kept, the running `min_pings`, if both are set, is at most the running `send_pings`. -/
def CountsOrdered (text : Text) : Prop :=
  ∀ before l after, (splitlines text).zipIdx 1 = before ++ l :: after → (Legacy.hostNode l.1).isSome →
    (∀ o ∈ Legacy.openBlocks before, Legacy.holdsChildren o.1) →
    ∀ send minp, Legacy.lastValue (Legacy.setsCount "send_pings".toList) before = some send →
      Legacy.lastValue (Legacy.setsCount "min_pings".toList) before = some minp → minp ≤ send

theorem countsOrdered_iff {text : Text} {n : ℤ} {r : ParseResult Siblings} (h : Legacy.parse text n = .ok r) :
    (∀ node ∈ r.roots.nodes, reread node = node) ↔ CountsOrdered text := by
  rw [Legacy.nodes_eq_keptFrom h]
  constructor
  · intro hall before l after hlines hhost hopen send minp hsend hminp
    obtain ⟨node, hnode⟩ := Option.isSome_iff_exists.mp hhost
    have hkept : Legacy.keptAt n ([] ++ before) l = some _ := Legacy.keptAt_eq_some_iff.mpr ⟨hopen, node, hnode, rfl⟩
    have hmem := Legacy.mem_keptFrom.mpr ⟨before, l, after, hlines, hkept⟩
    exact (reread_eq_self_iff _).mp (hall _ (List.mem_map_of_mem hmem)) send minp hsend hminp
  · intro hordered node hnode
    obtain ⟨k, hk, rfl⟩ := List.mem_map.mp hnode
    obtain ⟨before, l, after, hlines, hat⟩ := Legacy.mem_keptFrom.mp hk
    obtain ⟨hopen, n', hhost, rfl⟩ := Legacy.keptAt_eq_some_iff.mp hat
    exact (reread_eq_self_iff _).mpr (hordered before l after hlines (Option.isSome_of_eq_some hhost) hopen)

/-- **A conversion without warnings** is a modern config that is read as the legacy config was, if and only if no node has
ping counts that the modern parser rejects. -/
theorem convert_roundTrip_iff {text out : Text} {n : ℤ} {r : ParseResult Siblings} (hparse : Legacy.parse text n = .ok r)
    (hconvert : convert text n = .ok (out, r.warnings)) (hroots : r.roots ≠ .nil) :
    (detect out = .modern ∧ ∃ r', parse out n = .ok r' ∧ r'.roots = r.roots.toForest ∧
      ∀ f, f ≠ .int .numfailures → r'.overrides f = r.overrides f) ↔ CountsOrdered text := by
  have hcollected := Legacy.collected_of_parse hparse
  have hnodes : ∀ n ∈ r.roots.nodes, Legacy.Positional n ∧ Legacy.Sticky n := fun n hn =>
    Legacy.accepted_of_parse hparse hn
  obtain ⟨hclean, rfl⟩ : (serialized n r).Clean ∧ out = joined (serialized n r).lines := by
    unfold convert toModern at hconvert
    rw [hparse] at hconvert
    dsimp only at hconvert
    split at hconvert
    · rename_i hints
      obtain ⟨hout, hwarn⟩ := Prod.mk.inj (Except.ok.inj hconvert)
      exact ⟨⟨List.append_right_eq_self.mp hwarn, hints⟩, hout.symm⟩
    · cases hconvert
  obtain ⟨hdirectives, hleft, -⟩ := clean_serialized hclean
  have hds := wellFormed_directives hcollected
  obtain ⟨r', hr', hforest, hover⟩ := parse_converted hroots hcollected hnodes hclean
  have hsame : ∀ f, f ≠ .int .numfailures → r'.overrides f = r.overrides f := fun f hf => by
    rw [hover]
    exact configured_directives hcollected hleft (fun d hd => clean_directive (hds d hd) (hdirectives d hd)) hf
  have hwf : ∀ p ∈ (walk none r.roots []).1, ∀ row ∈ attrs n p, row.WellFormed := fun p hp =>
    wellFormed_attrs (hnodes p.node (nodes_walk none r.roots [] ▸ List.mem_map_of_mem hp)).2 n
  have hdetect : detect (joined (serialized n r).lines) = .modern := by
    rw [joined_serialized hroots hds hwf]
    exact detect_stmts hcollected hroots
  rw [← countsOrdered_iff hparse, ← Siblings.toForest_map_eq_iff]
  constructor
  · rintro ⟨-, r'', hr'', hroots', -⟩
    obtain rfl := Except.ok.inj (hr'.symm.trans hr'')
    exact hforest.symm.trans hroots'
  · intro hmap
    exact ⟨hdetect, r', hr', hforest.trans hmap, hsame⟩

end Converted

/-- Two pings are sent, and one reply is enough. -/
def orderedText : Text := "config send_pings 2\nconfig min_pings 1\nh ping l\n".toList

/-- One ping is sent, and two replies are wanted. -/
def unorderedText : Text := "config send_pings 1\nconfig min_pings 2\nh ping l\n".toList

theorem convert_ordered : ∃ out r, @Legacy.parse Python.ascii orderedText 2 = .ok r ∧
    @convert Python.ascii orderedText 2 = .ok (out, r.warnings) ∧ r.roots ≠ .nil ∧ detect out = .modern ∧
    ∃ r', @parse Python.ascii out 2 = .ok r' ∧ r'.roots = r.roots.toForest ∧
      ∀ f, f ≠ .int .numfailures → r'.overrides f = r.overrides f := by
  have hlegacy : ((@Legacy.parse Python.ascii orderedText 2).toOption.map fun r =>
      (decide (r.roots ≠ .nil ∧ ∀ n ∈ r.roots.nodes, reread n = n), r.warnings)) = some (true, []) := by decide +kernel
  have hconverted : ((@convert Python.ascii orderedText 2).toOption.map Prod.snd) = some [] := by decide +kernel
  obtain ⟨r, hr, heq⟩ := Option.map_eq_some_iff.mp hlegacy
  obtain ⟨⟨out, ws⟩, hout, rfl⟩ := Option.map_eq_some_iff.mp hconverted
  obtain ⟨hgood, hwarn⟩ := Prod.mk.inj heq
  obtain ⟨hroots, hcounts⟩ := of_decide_eq_true hgood
  have hparse := toOption_eq_some.mp hr
  have hconvert : @convert Python.ascii orderedText 2 = .ok (out, r.warnings) := hwarn ▸ toOption_eq_some.mp hout
  have hordered := (@countsOrdered_iff Python.ascii _ _ _ hparse).mp hcounts
  exact ⟨out, r, hparse, hconvert, hroots, (@convert_roundTrip_iff Python.ascii _ _ _ _ hparse hconvert hroots).mpr hordered⟩

theorem convert_unordered : ∃ out r, @Legacy.parse Python.ascii unorderedText 2 = .ok r ∧
    @convert Python.ascii unorderedText 2 = .ok (out, r.warnings) ∧ r.roots ≠ .nil ∧
    (r.roots.nodes.map fun n => (n.sendPings, n.minPings)) = [(some 1, some 2)] ∧
    ∃ r', @parse Python.ascii out 2 = .ok r' ∧ (r'.roots.objs.map fun o => (o.1.sendPings, o.1.minPings)) = [(none, none)] ∧
      r'.roots ≠ r.roots.toForest := by
  have hlegacy : ((@Legacy.parse Python.ascii unorderedText 2).toOption.map fun r =>
      (decide (r.roots ≠ .nil), r.warnings, r.roots.nodes.map fun n => (n.sendPings, n.minPings))) =
        some (true, [], [(some 1, some 2)]) := by decide +kernel
  have hconverted : ((@convert Python.ascii unorderedText 2).toOption.bind fun c =>
      (@parse Python.ascii c.1 2).toOption.map fun r =>
        (c.2, r.roots.objs.map fun o => (o.1.sendPings, o.1.minPings))) = some ([], [(none, none)]) := by decide +kernel
  obtain ⟨r, hr, heq⟩ := Option.map_eq_some_iff.mp hlegacy
  obtain ⟨⟨out, ws⟩, hout, hread⟩ := Option.bind_eq_some_iff.mp hconverted
  obtain ⟨r', hr', heq'⟩ := Option.map_eq_some_iff.mp hread
  simp only [Prod.mk.injEq, decide_eq_true_eq] at heq heq'
  obtain ⟨hroots, hwarn, hcounts⟩ := heq
  obtain ⟨rfl, hcounts'⟩ := heq'
  refine ⟨out, r, toOption_eq_some.mp hr, hwarn ▸ toOption_eq_some.mp hout, hroots, hcounts, r', toOption_eq_some.mp hr',
    hcounts', fun hsame => ?_⟩
  have hnodes : r'.roots.objs.map (fun o => (o.1.sendPings, o.1.minPings)) =
      r.roots.nodes.map fun n => (n.sendPings, n.minPings) := by
    rw [hsame, ← Siblings.map_objects 0, List.map_map]
    rfl
  rw [hcounts', hcounts] at hnodes
  exact absurd hnodes (by decide)

end Psysmon.Convert
