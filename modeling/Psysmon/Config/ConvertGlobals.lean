import Psysmon.Config.ConvertObject

/-!
# Psysmon.Config.ConvertGlobals — converted `config` statements, read by the modern parser

The statements that the converter writes for the overrides of a legacy file set the same overrides again, all but
`numfailures`, which is never written.

* `wellFormed_directives`: what is written is a statement of the grammar.
* `configured_status`, `configured_logging`, `configured_global`: one statement.
* `configured_directives`: all of them.
-/

namespace Psysmon.Convert

open Lib Text Number Modern

/-! ### What is written -/

theorem isWord_logLevel (l : LogLevel) : IsWord l.value := by
  cases l <;> decide

section Written

variable {o : Overrides} (h : Legacy.Collected o)

include h

theorem values_wellFormed {g : Global} {v : g.field.Val} (hv : o g.field = some v) {vs : List Piece}
    (hvs : g.values v = some vs) : ∀ x ∈ vs, x.WellFormed := by
  cases g with
  | str f =>
    obtain rfl := Option.some.inj hvs
    simp [Piece.WellFormed]
  | int f =>
    obtain rfl := Option.some.inj hvs
    simp [Piece.WellFormed]
  | num f => exact (h.settable _ v hv).elim
  | flag f =>
    have hnil : vs = [] := by
      cases (v : Bool) with
      | true => exact (Option.some.inj hvs).symm
      | false => cases hvs
    simp [hnil]
  | logLevel =>
    obtain rfl := Option.some.inj hvs
    intro x hx
    obtain rfl := List.mem_singleton.mp hx
    exact isWord_logLevel v

/-- The `config` statements are statements of the grammar. -/
theorem wellFormed_directives : ∀ d ∈ directives o, d.WellFormed := by
  have hnames : ∀ row ∈ globalOrder, IsWord row.2 := by decide
  have hfac : ∀ name ∈ facilities, IsWord name := by decide
  intro d hd
  rcases List.mem_append.mp hd with hd | hd
  · rcases List.mem_append.mp hd with hd | hd
    · obtain ⟨path, -, rfl⟩ := Option.map_eq_some_iff.mp (Option.mem_toList.mp hd)
      refine ⟨(by decide : IsWord "statusfile".toList), fun v hv => ?_⟩
      rcases List.mem_cons.mp hv with rfl | hv
      · change IsWord (statusFormat o)
        unfold statusFormat
        dsimp only
        split <;> decide
      · obtain rfl := List.mem_singleton.mp hv
        trivial
    · obtain ⟨fac, hf, rfl⟩ := Option.map_eq_some_iff.mp (Option.mem_toList.mp hd)
      refine ⟨(by decide : IsWord "logging".toList), fun v hv => ?_⟩
      obtain rfl := List.mem_singleton.mp hv
      cases fac with
      | none => exact (by decide : IsWord "none".toList)
      | some name => exact hfac name (h.settable _ _ hf name rfl)
  · obtain ⟨row, hrow, hd⟩ := List.mem_filterMap.mp hd
    obtain ⟨v, hv, hd⟩ := Option.bind_eq_some_iff.mp hd
    obtain ⟨vs, hvs, rfl⟩ := Option.map_eq_some_iff.mp hd
    exact ⟨hnames row hrow, values_wellFormed h hv hvs⟩

end Written

variable [Python]

/-- The overrides after one statement. -/
def configured (o : Overrides) (d : Directive) : Overrides :=
  (applyConfig [] 0 d.name (d.values.map fun v => ⟨v.value.kind, v.value.text, 0⟩) o).val

/-! ### One statement -/

/-- A statement with one value. -/
theorem val_withValue_singleton (name : Text) {v : Piece} (hv : v.Clean) (o : Overrides) (k : Text → Log Overrides) :
    (withValue [] 0 name ([v].map fun v => ⟨v.value.kind, v.value.text, 0⟩) o k).val = (k v.meant).val := by
  rw [val_withValue]
  simp only [List.map_singleton, List.head?_singleton, expand_nil, hv.text_value]

theorem logLevelOf_lower (l : LogLevel) : logLevelOf (Python.lower l.value) = some l := by
  have hascii : l.value.all (·.toNat < 128) = true ∧ logLevelOf (Text.lower l.value) = some l := by
    cases l <;> decide
  rw [Python.lower_ascii _ fun c hc => by simpa using List.all_eq_true.mp hascii.1 c hc, hascii.2]

theorem val_setLoglevel {l : LogLevel} (hl : (Piece.word l.value).Clean) (o : Overrides) :
    (setLoglevel [] 0 ([.word l.value].map fun v : Piece => ⟨v.value.kind, v.value.text, 0⟩) o).val = o.set .logLevel l := by
  rw [setLoglevel, val_withValue_singleton _ hl]
  simp only [Piece.meant, logLevelOf_lower]
  rfl

/-- The directive of a row is the one that the tables of the modern parser give its field. -/
def Reads (row : Global × Text) : Prop :=
  match row.1 with
  | .int f => intDirectives.lookup row.2 = some f
  | .num f => intDirectives.lookup row.2 = none ∧ floatDirectives.lookup row.2 = some f
  | .str f => intDirectives.lookup row.2 = none ∧ floatDirectives.lookup row.2 = none ∧ strDirectives.lookup row.2 = some f
  | .flag f => intDirectives.lookup row.2 = none ∧ floatDirectives.lookup row.2 = none ∧
    strDirectives.lookup row.2 = none ∧ flagDirectives.lookup row.2 = some ⟨.bool f, true⟩
  | .logLevel => row.2 = "loglevel".toList

omit [Python] in
theorem reads_globalOrder : ∀ row ∈ globalOrder, Reads row := by
  intro row hrow
  simp only [globalOrder, List.mem_cons, List.not_mem_nil, or_false] at hrow
  rcases hrow with rfl | rfl | rfl | rfl | rfl | rfl | rfl | rfl | rfl | rfl | rfl | rfl | rfl | rfl | rfl | rfl <;>
    first | exact rfl | exact ⟨rfl, rfl⟩ | exact ⟨rfl, rfl, rfl⟩ | exact ⟨rfl, rfl, rfl, rfl⟩

omit [Python] in
/-- An override without a statement is not there. -/
theorem unwritten {o : Overrides} (h : Legacy.Collected o) {row : Global × Text} (hrow : row ∈ globalOrder)
    (hd : globalDirective o row = none) : o row.1.field = none := by
  by_contra hne
  obtain ⟨v, hv⟩ := Option.ne_none_iff_exists'.mp hne
  rw [globalDirective, hv, Option.bind_some, Option.map_eq_none_iff] at hd
  obtain ⟨g, kw⟩ := row
  cases g with
  | flag f =>
    have hf : f = .pageOnDegraded := by
      simp only [globalOrder, List.mem_cons, List.not_mem_nil, or_false, Prod.mk.injEq, reduceCtorEq, false_and, false_or,
        Global.flag.injEq] at hrow
      exact hrow.1
    subst hf
    have hon : v = true := h.settable _ v hv
    subst hon
    cases hd
  | _ => cases hd

/-- The statement of a row. -/
theorem configured_global {o : Overrides} (h : Legacy.Collected o) {row : Global × Text} (hrow : row ∈ globalOrder)
    {d : Directive} (hd : globalDirective o row = some d) (hclean : ∀ v ∈ d.values, v.Clean) (acc : Overrides) :
    ∃ v, o row.1.field = some v ∧ configured acc d = acc.set row.1.field v := by
  obtain ⟨v, hv, hd⟩ := Option.bind_eq_some_iff.mp hd
  obtain ⟨vs, hvs, rfl⟩ := Option.map_eq_some_iff.mp hd
  have hread := reads_globalOrder row hrow
  refine ⟨v, hv, ?_⟩
  obtain ⟨g, kw⟩ := row
  unfold configured applyConfig
  cases g with
  | int f =>
    obtain rfl := Option.some.inj hvs
    have hint : (Piece.int v).Clean := hclean _ (List.mem_singleton_self _)
    have hlookup : intDirectives.lookup kw = some f := hread
    rw [hlookup]
    dsimp only
    have hz : int (Piece.int v).meant = some v := int_intText (hint.ints v (List.mem_singleton_self _))
    rw [setInt, val_withValue_singleton _ hint, hz]
    rfl
  | num f => exact (h.settable _ v hv).elim
  | str f =>
    obtain rfl := Option.some.inj hvs
    have hstr : (Piece.quoted v).Clean := hclean _ (List.mem_singleton_self _)
    obtain ⟨hint, hfloat, hlookup⟩ : _ ∧ _ ∧ _ := hread
    rw [hint, hfloat, hlookup]
    dsimp only
    rw [setStr, val_withValue_singleton _ hstr]
    rfl
  | flag f =>
    obtain ⟨hint, hfloat, hstr, hlookup⟩ : _ ∧ _ ∧ _ ∧ _ := hread
    rw [hint, hfloat, hstr, hlookup]
    have hon : v = true := by
      cases hb : (v : Bool) with
      | true => rfl
      | false => rw [Global.values, hb] at hvs; cases hvs
    subst hon
    rfl
  | logLevel =>
    obtain rfl := Option.some.inj hvs
    obtain rfl : kw = "loglevel".toList := hread
    have hword : (Piece.word (LogLevel.value v)).Clean := hclean _ (List.mem_singleton_self _)
    exact val_setLoglevel hword acc

/-- `statusfile`. -/
theorem configured_status {o : Overrides} {path : Text} {html : Bool} (hhtml : o (.bool .statusHtml) = some html)
    (hclean : (Piece.word (statusFormat o)).Clean ∧ (Piece.quoted path).Clean) (acc : Overrides) :
    configured acc ⟨"statusfile".toList, [.word (statusFormat o), .quoted path]⟩ =
      (acc.set (.bool .statusHtml) html).set (.str .statusPath) path := by
  have hformat : statusFormat o = if html then "html".toList else "text".toList := by
    rw [statusFormat, hhtml]
    rfl
  have hfmt : (Piece.word (statusFormat o)).value.text = if html then "html".toList else "text".toList :=
    hclean.1.text_value.trans hformat
  have hset (g : Text → Overrides) : (g <$> subst [] 0 (Piece.quoted path).value.text).val = g path :=
    congrArg g ((expand_nil _).trans hclean.2.text_value)
  unfold configured
  change (setStatusfile [] 0 [⟨_, (Piece.word (statusFormat o)).value.text, 0⟩, ⟨_, (Piece.quoted path).value.text, 0⟩] acc).val
    = _
  unfold setStatusfile
  dsimp only
  rw [hfmt]
  cases html with
  | true => exact (congrArg Log.val (if_pos (by decide))).trans (hset _)
  | false => exact (congrArg Log.val ((if_neg (by decide)).trans (if_pos (by decide)))).trans (hset _)

/-- `logging`. -/
theorem configured_logging {fac : Option Text} (hfac : ∀ name, fac = some name → name ∈ facilities)
    (hclean : (Piece.word (fac.getD "none".toList)).Clean) (acc : Overrides) :
    configured acc ⟨"logging".toList, [.word (fac.getD "none".toList)]⟩ = acc.set .syslogFacility fac := by
  have hnone : "none".toList ∉ facilities := by decide
  change (setLogging [] 0 _ acc).val = _
  rw [setLogging, val_withValue_singleton _ hclean]
  cases fac with
  | none => rfl
  | some name =>
    have hname := hfac name rfl
    have hne : name ≠ "none".toList := fun h => hnone (h ▸ hname)
    change (if name = "none".toList then _ else if name ∈ facilities then _ else _ : Log Overrides).val = _
    rw [if_neg hne, if_pos hname]
    rfl

/-! ### All statements -/

theorem configured_globals {o : Overrides} (h : Legacy.Collected o) (rows : List (Global × Text))
    (hrows : ∀ row ∈ rows, row ∈ globalOrder)
    (hclean : ∀ d ∈ rows.filterMap (globalDirective o), ∀ v ∈ d.values, v.Clean) (acc : Overrides) (f : Field) :
    (rows.filterMap (globalDirective o)).foldl configured acc f =
      if f ∈ rows.map (·.1.field) then (o f).or (acc f) else acc f := by
  induction rows generalizing acc with
  | nil => rfl
  | cons row rows ih =>
    have hrows' : ∀ row ∈ rows, row ∈ globalOrder := fun x hx => hrows x (by simp [hx])
    cases hd : globalDirective o row with
    | none =>
      rw [List.filterMap_cons_none hd] at hclean ⊢
      rw [ih hrows' hclean, List.map_cons]
      by_cases hf : f = row.1.field
      · subst hf
        rw [unwritten h (hrows row (by simp)) hd, Option.none_or, ite_self, ite_self]
      · exact if_congr (by simp [hf]) rfl rfl
    | some d =>
      rw [List.filterMap_cons_some hd] at hclean ⊢
      obtain ⟨v, hv, hset⟩ := configured_global h (hrows row (by simp)) hd (hclean d (by simp)) acc
      rw [List.foldl_cons, hset, ih hrows' fun d hd => hclean d (by simp [hd]), List.map_cons]
      by_cases hf : f = row.1.field
      · subst hf
        rw [hv, Overrides.set_self, if_pos List.mem_cons_self]
        split <;> rfl
      · rw [Overrides.set_of_ne _ _ hf]
        exact if_congr (by simp [hf]) rfl rfl

/-- **The overrides of a legacy file are read back**, all but `numfailures`. -/
theorem configured_directives {o : Overrides} (h : Legacy.Collected o) (hleft : leftovers o = [])
    (hclean : ∀ d ∈ directives o, ∀ v ∈ d.values, v.Clean) {f : Field} (hf : f ≠ .int .numfailures) :
    (directives o).foldl configured .empty f = o f := by
  have hstatus : ((o (.str .statusPath)).map fun path : Text =>
      (⟨"statusfile".toList, [.word (statusFormat o), .quoted path]⟩ : Directive)).toList.foldl configured .empty f =
        if f = .str .statusPath ∨ f = .bool .statusHtml then o f else none := by
    cases hpath : o (.str .statusPath) with
    | none =>
      have hhtml : o (.bool .statusHtml) = none := Option.isNone_iff_eq_none.mp (by
        rw [← Option.not_isSome, h.status, hpath]
        rfl)
      split
      · rename_i hf
        rcases hf with rfl | rfl
        · exact hpath.symm
        · exact hhtml.symm
      · rfl
    | some path =>
      obtain ⟨html, hhtml⟩ := Option.isSome_iff_exists.mp (h.status.trans (congrArg Option.isSome hpath))
      have hmem : (⟨"statusfile".toList, [.word (statusFormat o), .quoted path]⟩ : Directive) ∈ directives o := by
        unfold directives
        rw [hpath]
        exact List.mem_append_left _ (List.mem_append_left _ (List.mem_singleton_self _))
      have hquoted : (Piece.quoted path).Clean := hclean _ hmem _ (by simp)
      have hstmt := configured_status hhtml ⟨hclean _ hmem _ (by simp), hquoted⟩ .empty
      change configured .empty ⟨_, _⟩ f = _
      rw [hstmt]
      by_cases hp : f = .str .statusPath
      · subst hp
        rw [if_pos (.inl rfl), hpath]
        exact Overrides.set_self ..
      · rw [Overrides.set_of_ne _ _ hp]
        by_cases hh : f = .bool .statusHtml
        · subst hh
          rw [if_pos (.inr rfl), hhtml]
          exact Overrides.set_self ..
        · rw [Overrides.set_of_ne _ _ hh, if_neg (not_or.mpr ⟨hp, hh⟩)]
          rfl
  have hlogging (acc : Overrides) : ((o .syslogFacility).map fun fac : Option Text =>
      (⟨"logging".toList, [.word (fac.getD "none".toList)]⟩ : Directive)).toList.foldl configured acc f =
        if f = .syslogFacility then (o f).or (acc f) else acc f := by
    cases hfac : o .syslogFacility with
    | none =>
      split
      · rename_i hf
        subst hf
        rw [hfac]
        rfl
      · rfl
    | some fac =>
      have hmem : (⟨"logging".toList, [.word (fac.getD "none".toList)]⟩ : Directive) ∈ directives o := by
        unfold directives
        rw [hfac]
        exact List.mem_append_left _ (List.mem_append_right _ (List.mem_singleton_self _))
      have hstmt := configured_logging (h.settable _ _ hfac) (hclean _ hmem _ (by simp)) acc
      change configured acc ⟨_, _⟩ f = _
      rw [hstmt]
      split
      · rename_i hf
        subst hf
        rw [hfac]
        exact Overrides.set_self ..
      · exact Overrides.set_of_ne _ _ ‹_›
  unfold directives
  rw [List.foldl_append, configured_globals h _ (fun _ h => h) fun d hd => hclean d (List.mem_append_right _ hd),
    List.foldl_append, hlogging, hstatus]
  -- what is set here is set to `o f`, and what is not set at all is not in `o`
  rcases mem_taken_or_omitted f with htaken | homitted
  · rcases List.mem_append.mp htaken with hm | hm
    · simp only [List.mem_cons, List.not_mem_nil, or_false] at hm
      rcases hm with rfl | rfl | rfl | rfl
      · simp
      · simp
      · simp
      · exact absurd rfl hf
    · rw [if_pos hm]
      split <;> split <;> simp
  · have hnone : o f = none := by
      have := List.filter_eq_nil_iff.mp hleft f homitted
      simpa using this
    simp [hnone]

end Psysmon.Convert
