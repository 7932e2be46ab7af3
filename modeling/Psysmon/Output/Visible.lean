import Psysmon.Lib.Weight
import Psysmon.Output.TextLines

/-!
# Psysmon.Output.Visible — what can be seen on the text page

The page shows some fields of the rows that are not suppressed, so rows that differ elsewhere give the same page
(`renderText_congr`).  It gets shorter with every row that is left out: a row takes at least 85 characters, no heading and
no count gets longer by it, and all that may come in its place is the line that says that nothing is down
(`weight_documentOf_lt`).  So a row that disappears or appears changes the page, whatever the other rows hold
(`renderText_hidden_ne`).
-/

namespace Psysmon

open Lib Text Number

/-! ### What is not shown -/

/-- The row without the fields that the text page does not show. -/
def Row.face (r : Row) : Row := (r.1, { r.2 with maxDown := 0, lastcontacted := 0, downParents := [] })

def Line.mapRow (f : Row → Row) : Line → Line
  | .row r => .row (f r)
  | line => line

section Faces

variable {f : Row → Row}

theorem textLines_map (hf : ∀ r, (f r).1.group = r.1.group) (rows : List Row) :
    textLines (rows.map f) = (textLines rows).map (Line.mapRow f) := by
  rw [textLines, grouped_map hf, textLines, List.map_flatMap, List.flatMap_map]
  refine List.flatMap_congr fun s _ => ?_
  rw [sectionLines, sectionLines, List.map_append, List.map_map, List.map_map]
  congr 1
  split_ifs <;> rfl

theorem textDocument_map (hf : ∀ r, (f r).1.group = r.1.group ∧ (f r).2.suppressed = r.2.suppressed ∧
    (f r).2.lastcheck = r.2.lastcheck) (rows : List Row) (showUpAlso : Bool) :
    textDocument (rows.map f) showUpAlso = (textDocument rows showUpAlso).map (Line.mapRow f) := by
  have hdown : (rows.map f).filter isDownRow = (rows.filter isDownRow).map f := by
    rw [List.filter_map]
    refine congrArg (List.map f) (List.filter_congr fun r _ => ?_)
    rw [Function.comp_apply, isDownRow, isDownRow, (hf r).2.1, (hf r).2.2]
  have hup : (rows.map f).filter isUpRow = (rows.filter isUpRow).map f := by
    rw [List.filter_map]
    refine congrArg (List.map f) (List.filter_congr fun r _ => ?_)
    rw [Function.comp_apply, isUpRow, isUpRow, (hf r).2.1, (hf r).2.2]
  unfold textDocument
  dsimp only
  rw [hdown, hup, textLines_map fun r => (hf r).1, textLines_map fun r => (hf r).1]
  simp only [List.map_eq_nil_iff, ne_eq, List.length_map, List.map_append]
  split_ifs <;> rfl

variable [Calendar] {now : ℚ} {org : Text} {showUpAlso : Bool}

theorem renderText_face (rows : List Row) :
    renderText now (rows.map Row.face) org showUpAlso = renderText now rows org showUpAlso := by
  rw [renderText_eq, renderText_eq, textDocument_map (f := Row.face) fun _ => ⟨rfl, rfl, rfl⟩, List.mapM_map]
  refine congrArg (fun g => Option.map _ (List.mapM g _)) (funext fun line => ?_)
  cases line <;> rfl

/-- **Rows that look the same** give the same page. -/
theorem renderText_congr {rows rows' : List Row} (h : rows.map Row.face = rows'.map Row.face) :
    renderText now rows org showUpAlso = renderText now rows' org showUpAlso := by
  rw [← renderText_face, h, renderText_face]

end Faces

/-! ### The length of a page -/

/-- The lines of a page with these rows down and up. -/
def documentOf (down up : List Row) : List Line :=
  [.title, .columns] ++ textLines down ++ (if down = [] then [.operational] else []) ++
    if up ≠ [] then [.blank, .healthy up.length] ++ textLines up else []

theorem textDocument_eq (states : List Row) :
    textDocument states true = documentOf (states.filter isDownRow) (states.filter isUpRow) := by
  unfold textDocument documentOf
  simp only [true_and]

/-- The labels that get a heading. -/
def headings (rows : List Row) : List Text := ((grouped rows).map Prod.fst).filter (· ≠ [])

theorem mem_headings {rows : List Row} {label : Text} :
    label ∈ headings rows ↔ label ≠ [] ∧ ∃ r ∈ rows, labelIn rows r = label := by
  rw [headings, List.mem_filter, decide_eq_true_iff, and_comm]
  exact and_congr_right fun hl => mem_labels hl

/-- Fewer rows have no new headings. -/
theorem headings_subset {rows rows' : List Row} (h : rows' ⊆ rows) : headings rows' ⊆ headings rows := by
  intro label hlabel
  obtain ⟨hne, r, hr, rfl⟩ := mem_headings.mp hlabel
  refine mem_headings.mpr ⟨hne, r, h hr, ?_⟩
  by_cases hg : r.1.group = []
  · have hany : rows'.any (fun q => q.1.group ≠ []) = true := by
      by_contra hc
      rw [labelIn, if_neg fun hc' => hc hc'.2] at hne
      exact hne hg
    have hany' : rows.any (fun q => q.1.group ≠ []) = true := by
      obtain ⟨q, hq, hqg⟩ := List.any_eq_true.mp hany
      exact List.any_eq_true.mpr ⟨q, h hq, hqg⟩
    rw [labelIn, labelIn, if_pos ⟨hg, hany'⟩, if_pos ⟨hg, hany⟩]
  · rw [labelIn, labelIn, if_neg fun hc => hg hc.1, if_neg fun hc => hg hc.1]

theorem length_ljust (n : ℕ) (t : Text) : n ≤ (ljust n t).length := by
  rw [ljust, List.length_append, List.length_replicate]
  omega

section Weight

variable [Calendar] (now : ℚ) (org : Text)

/-- The length of a line, with the newline that ends it. -/
def Line.weight (line : Line) : ℕ := ((line.text now org).map List.length).getD 0 + 1

/-- The length of some lines. -/
def weight (lines : List Line) : ℕ := (lines.map (Line.weight now org)).sum

theorem weight_append (a b : List Line) : weight now org (a ++ b) = weight now org a + weight now org b := by
  rw [weight, List.map_append, List.sum_append]
  rfl

theorem length_page {doc : List Line} {texts : List Text} (h : doc.mapM (Line.text now org) = some texts) (hne : doc ≠ []) :
    (joinLines texts ++ ['\n']).length = weight now org doc := by
  have hsum : (texts.map fun t => t.length + 1) = doc.map (Line.weight now org) := by
    clear hne
    induction doc generalizing texts with
    | nil =>
      obtain rfl : [] = texts := Option.some.inj h
      rfl
    | cons line doc ih =>
      rw [List.mapM_cons] at h
      obtain ⟨t, ht, h⟩ := Option.bind_eq_some_iff.mp h
      obtain ⟨ts, hts, h⟩ := Option.bind_eq_some_iff.mp h
      obtain rfl := Option.some.inj h
      rw [List.map_cons, List.map_cons, ih hts, Line.weight, ht]
      rfl
  have hne' : texts ≠ [] := by
    rintro rfl
    exact hne (List.map_eq_nil_iff.mp hsum.symm)
  rw [joinLines, length_lines _ hne', hsum]
  rfl

/-- The lines of some rows: their headings and the rows themselves. -/
theorem weight_textLines (rows : List Row) : weight now org (textLines rows) =
    ((headings rows).map fun label => label.length + 7).sum + (rows.map fun r => Line.weight now org (.row r)).sum := by
  have hsections (sections : List (Text × List Row)) : weight now org (sections.flatMap sectionLines) =
      (((sections.map Prod.fst).filter (· ≠ [])).map fun label => label.length + 7).sum +
        ((sections.flatMap Prod.snd).map fun r => Line.weight now org (.row r)).sum := by
    induction sections with
    | nil => rfl
    | cons s sections ih =>
      have hrows : weight now org (s.2.map .row) = (s.2.map fun r => Line.weight now org (.row r)).sum := by
        rw [weight, List.map_map]
        rfl
      have hheading : Line.weight now org (.heading s.1) = s.1.length + 7 := by
        rw [Line.weight, Line.text, Option.map_some, Option.getD_some, List.length_append, List.length_append]
        show 3 + s.1.length + 3 + 1 = _
        omega
      rw [List.flatMap_cons, weight_append, ih, sectionLines, weight_append, hrows, List.flatMap_cons, List.map_append,
        List.sum_append, List.map_cons]
      by_cases hs : s.1 = []
      · rw [if_neg (not_not.mpr hs), List.filter_cons_of_neg (by simpa using hs)]
        show 0 + _ + _ = _
        omega
      · rw [if_pos hs, List.filter_cons_of_pos (by simpa using hs), List.map_cons, List.sum_cons]
        show Line.weight now org (.heading s.1) + 0 + _ + _ = _
        omega
  rw [textLines, hsections, headings, ((grouped_perm rows).map _).sum_eq]

variable {now}

/-- The columns of a row take 84 characters at least. -/
theorem length_textRow {r : Row} {t : Text} (h : textRow now r = some t) : 84 ≤ t.length := by
  obtain ⟨port, count, failed, outage, -, -, -, -, rfl⟩ := bind4_eq_some_iff.mp h
  have h1 := length_ljust 28 r.1.hostname
  have h2 := length_ljust 8 (typeToName r.1.checkType)
  have h3 := length_ljust 6 port
  have h4 := length_ljust 5 count
  have h5 := length_ljust 5 (yesNo r.2.contacted)
  have h6 := length_ljust 16 (errtostr r.2.lastcheck)
  have h7 := length_ljust 16 failed
  simp only [List.length_append]
  omega

theorem weight_row {r : Row} (h : (textRow now r).isSome = true) : 85 ≤ Line.weight now org (.row r) := by
  obtain ⟨t, ht⟩ := Option.isSome_iff_exists.mp h
  have := length_textRow ht
  rw [Line.weight, Line.text, ht]
  exact Nat.succ_le_succ this

theorem weight_healthy_le {m n : ℕ} (h : m ≤ n) (hn : (strInt n).isSome = true) :
    Line.weight now org (.healthy m) ≤ Line.weight now org (.healthy n) := by
  have hn := strInt_isSome_iff.mp hn
  have htext (k : ℕ) : intText (k : ℤ) = natText k := by
    rw [intText, if_neg (by omega), Int.natAbs_natCast]
  have hlen (k : ℕ) : (natText k).length = max 1 (Nat.digits 10 k).length := by
    rw [natText, List.length_map, length_natDigits]
  have hdigits := Nat.le_length_digits_le 10 m n h
  rw [Line.weight, Line.weight, Line.text, Line.text, strInt, strInt, if_pos hn, if_pos (printable_of_le h hn), htext, htext]
  simp only [Option.map_some, Option.getD_some, List.length_append, hlen]
  omega

theorem weight_operational : weight now org [.operational] = 25 := rfl

/-- **A page with fewer rows is shorter.** -/
theorem weight_documentOf_lt {down down' up up' : List Row} (hdown : down'.Sublist down) (hup : up'.Sublist up)
    (hlt : down'.length + up'.length < down.length + up.length)
    (hrows : ∀ r, r ∈ down ∨ r ∈ up → (textRow now r).isSome = true) (hcount : up ≠ [] → (strInt up.length).isSome = true) :
    weight now org (documentOf down' up') < weight now org (documentOf down up) := by
  have htext {rows rows' : List Row} (hsub : rows'.Sublist rows) (hr : ∀ r ∈ rows, (textRow now r).isSome = true) :
      weight now org (textLines rows') + 85 * (rows.length - rows'.length) ≤ weight now org (textLines rows) := by
    have hheads : ((headings rows').map fun label => label.length + 7).sum ≤
        ((headings rows).map fun label => label.length + 7).sum :=
      sum_map_le_of_subset _ ((grouped_spec rows').1.filter _) (headings_subset hsub.subset)
    have hsum := sum_map_add_le_of_sublist (fun r => Line.weight now org (.row r)) hsub fun r hr' =>
      weight_row org (hr r hr')
    rw [weight_textLines, weight_textLines]
    omega
  have hd := htext hdown fun r hr => hrows r (.inl hr)
  have hu := htext hup fun r hr => hrows r (.inr hr)
  have hdlen := hdown.length_le
  have hulen := hup.length_le
  have hhealthy : up ≠ [] → Line.weight now org (.healthy up'.length) ≤ Line.weight now org (.healthy up.length) :=
    fun h => weight_healthy_le org hulen (hcount h)
  have hmarks : weight now org [.blank, .healthy up.length] = 1 + Line.weight now org (.healthy up.length) := by
    show 1 + (Line.weight now org (.healthy up.length) + 0) = _
    omega
  have hmarks' : weight now org [.blank, .healthy up'.length] = 1 + Line.weight now org (.healthy up'.length) := by
    show 1 + (Line.weight now org (.healthy up'.length) + 0) = _
    omega
  -- the line that may come in place of the rows
  have hop : weight now org (if down' = [] then [.operational] else []) ≤
      weight now org (if down = [] then [.operational] else []) + 25 := by
    have hnone : weight now org [] = 0 := rfl
    split_ifs <;> simp only [weight_operational, hnone] <;> omega
  have hhealthyLines : weight now org (if up' ≠ [] then [.blank, .healthy up'.length] ++ textLines up' else []) +
      85 * (up.length - up'.length) ≤
      weight now org (if up ≠ [] then [.blank, .healthy up.length] ++ textLines up else []) := by
    by_cases hup0 : up = []
    · obtain rfl : up' = [] := List.sublist_nil.mp (hup0 ▸ hup)
      subst hup0
      exact le_rfl
    · rw [if_pos hup0, weight_append, hmarks]
      have := hhealthy hup0
      split_ifs
      · rw [weight_append, hmarks']
        omega
      · show 0 + _ ≤ _
        omega
  unfold documentOf
  simp only [weight_append]
  omega

variable {org}

/-- **A row that is hidden** changes the page, whatever else is hidden with it. -/
theorem renderText_hidden_ne {ι : Type} {l : List ι} {f g : ι → Row}
    (h : ∀ q ∈ l, (g q).face = (f q).face ∨ (g q).2.suppressed = true)
    (hq : ∃ q ∈ l, (f q).2.suppressed = false ∧ (g q).2.suppressed = true) {page : Text}
    (hpage : renderText now (l.map f) org true = some page) : renderText now (l.map g) org true ≠ some page := by
  intro hpage'
  rw [← renderText_face, List.map_map] at hpage hpage'
  obtain ⟨texts, htexts, rfl⟩ := renderText_eq_some_iff.mp hpage
  obtain ⟨texts', htexts', heq⟩ := renderText_eq_some_iff.mp hpage'
  have hstays {q : ι} (hl : q ∈ l) (hs : (g q).2.suppressed = false) : (g q).face = (f q).face :=
    (h q hl).resolve_right (by rw [hs]; exact Bool.false_ne_true)
  have hshown {r : Row} {b : Bool} (hr : (!r.2.suppressed && b) = true) : r.2.suppressed = false := by
    simpa using (Bool.and_eq_true_iff.mp hr).1
  -- what is left in either section was there before
  obtain ⟨hdown, hdownLt⟩ := filter_map_sublist (l := l) (f := Row.face ∘ f) (g := Row.face ∘ g) (p := isDownRow)
    fun q hl hp => hstays hl (hshown hp)
  obtain ⟨hup, hupLt⟩ := filter_map_sublist (l := l) (f := Row.face ∘ f) (g := Row.face ∘ g) (p := isUpRow)
    fun q hl hp => hstays hl (hshown hp)
  have hlt : ((l.map (Row.face ∘ g)).filter isDownRow).length + ((l.map (Row.face ∘ g)).filter isUpRow).length <
      ((l.map (Row.face ∘ f)).filter isDownRow).length + ((l.map (Row.face ∘ f)).filter isUpRow).length := by
    obtain ⟨q, hl, hs, hs'⟩ := hq
    have hs : (f q).face.2.suppressed = false := hs
    have hs' : (g q).face.2.suppressed = true := hs'
    cases hu : isUp (f q).face.2.lastcheck with
    | true =>
      refine Nat.add_lt_add_of_le_of_lt hdown.length_le (hupLt q hl ?_ ?_)
      · rw [Function.comp_apply, isUpRow, hs, hu]
        rfl
      · rw [Function.comp_apply, isUpRow, hs']
        rfl
    | false =>
      refine Nat.add_lt_add_of_lt_of_le (hdownLt q hl ?_ ?_) hup.length_le
      · rw [Function.comp_apply, isDownRow, hs, hu]
        rfl
      · rw [Function.comp_apply, isDownRow, hs']
        rfl
  have hprinted := mapM_isSome_iff.mp (Option.isSome_of_eq_some htexts)
  have hrows : ∀ r, r ∈ (l.map (Row.face ∘ f)).filter isDownRow ∨ r ∈ (l.map (Row.face ∘ f)).filter isUpRow →
      (textRow now r).isSome = true := by
    intro r hr
    refine hprinted (.row r) (row_mem_textDocument.mpr ((shownRows_perm _ true).mem_iff.mp ?_))
    exact List.mem_append.mpr hr
  have hcount : (l.map (Row.face ∘ f)).filter isUpRow ≠ [] →
      (strInt ((l.map (Row.face ∘ f)).filter isUpRow).length).isSome = true := by
    intro hne
    have hline := hprinted (.healthy ((l.map (Row.face ∘ f)).filter isUpRow).length) (by simp [textDocument, hne])
    rwa [Line.text, Option.isSome_map] at hline
  have hshorter := weight_documentOf_lt org hdown hup hlt hrows hcount
  rw [textDocument_eq] at htexts htexts'
  rw [← length_page now org htexts (by simp [documentOf]), ← length_page now org htexts' (by simp [documentOf]), heq]
    at hshorter
  exact lt_irrefl _ hshorter

end Weight

end Psysmon
