import Psysmon.Output.Sections

/-!
# Psysmon.Output.Document — what the status page shows

A page is a document, a list of typed parts, before it is text: `Line` for the text page, `Item` for the HTML page.  The
renderers print their document part by part, and raise if a part of it cannot be printed.

* `renderText_eq`, `renderHtml_eq`: the renderers print `textDocument` and `htmlDocument`.
* `rows_textDocument`, `rows_htmlDocument`: the rows in them are the rows to be shown, each once.
* `count_htmlDocument`: the count of the summary.
-/

namespace Psysmon

open Lib Number

/-! ### Printing lists -/

section Printing

variable {α β : Type}

theorem mapM_isSome_iff {f : α → Option β} {l : List α} : (l.mapM f).isSome = true ↔ ∀ a ∈ l, (f a).isSome = true := by
  induction l with
  | nil => simp
  | cons a l ih =>
    rw [List.mapM_cons, List.forall_mem_cons, ← ih]
    cases f a <;> cases l.mapM f <;> simp

theorem foldlM_concat (f : α → Option β) (l : List α) (acc : List β) :
    l.foldlM (fun acc a => do return acc ++ [← f a]) acc = (l.mapM f).map (acc ++ ·) := by
  induction l generalizing acc with
  | nil => simp
  | cons a l ih =>
    rw [List.foldlM_cons, List.mapM_cons]
    cases f a with
    | none => rfl
    | some b =>
      show l.foldlM _ (acc ++ [b]) = _
      rw [ih]
      cases l.mapM f <;> simp

theorem mapM_intersperse {f : α → Option β} {sep : α} {s : β} (hs : f sep = some s) (l : List α) :
    (l.intersperse sep).mapM f = (l.mapM f).map (·.intersperse s) := by
  induction l with
  | nil => rfl
  | cons a l ih =>
    cases l with
    | nil =>
      rw [List.intersperse_singleton, List.mapM_cons, List.mapM_nil]
      cases f a <;> rfl
    | cons b l =>
      rw [List.intersperse_cons_cons, List.mapM_cons, List.mapM_cons, hs, ih, List.mapM_cons (l := b :: l)]
      cases f a with
      | none => rfl
      | some x =>
        rw [List.mapM_cons]
        cases f b with
        | none => rfl
        | some y => cases l.mapM f <;> simp

end Printing

section Text

variable [Calendar] (now : ℚ) (org : Text)

/-- A line of the text page. -/
inductive Line
  | title
  | columns
  | heading (label : Text)
  | row (r : Row)
  | operational
  | blank
  | healthy (n : ℕ)

def Line.text : Line → Option Text
  | .title => (clockTime now false).map (titleText org)
  | .columns => some columnsText
  | .heading label => some ("== ".toList ++ label ++ " ==".toList)
  | .row r => textRow now r
  | .operational => some "All systems operational.".toList
  | .blank => some []
  | .healthy n => (strInt n).map fun count => "-- Healthy hosts (".toList ++ count ++ ") --".toList

def Line.row? : Line → Option Row
  | .row r => some r
  | _ => none

def sectionLines (s : Text × List Row) : List Line := (if s.1 ≠ [] then [.heading s.1] else []) ++ s.2.map .row

/-- The lines of a list of rows. -/
def textLines (rows : List Row) : List Line := (grouped rows).flatMap sectionLines

/-- The text page. -/
def textDocument (states : List Row) (showUpAlso : Bool) : List Line :=
  let down := states.filter isDownRow
  let up := states.filter isUpRow
  [.title, .columns] ++ textLines down ++ (if down = [] then [.operational] else []) ++
    if showUpAlso ∧ up ≠ [] then [.blank, .healthy up.length] ++ textLines up else []

theorem emitTextRows_eq (lines : List Text) (rows : List Row) :
    emitTextRows now lines rows = ((textLines rows).mapM (Line.text now org)).map (lines ++ ·) := by
  unfold emitTextRows textLines
  generalize grouped rows = sections
  induction sections generalizing lines with
  | nil => simp
  | cons s sections ih =>
    have hrows (lines : List Text) : s.2.foldlM (fun lines r => do return lines ++ [← textRow now r]) lines =
        ((s.2.map Line.row).mapM (Line.text now org)).map (lines ++ ·) := by
      rw [List.mapM_map]
      exact foldlM_concat (textRow now) s.2 lines
    have hsection : (sectionLines s).mapM (Line.text now org) =
        ((s.2.map Line.row).mapM (Line.text now org)).map
          ((if s.1 ≠ [] then ["== ".toList ++ s.1 ++ " ==".toList] else []) ++ ·) := by
      rw [sectionLines, List.mapM_append]
      split_ifs <;> cases (s.2.map Line.row).mapM (Line.text now org) <;> rfl
    rw [List.foldlM_cons, List.flatMap_cons, List.mapM_append, hsection]
    dsimp only
    rw [hrows]
    cases (s.2.map Line.row).mapM (Line.text now org) with
    | none => rfl
    | some body =>
      show sections.foldlM _ ((if s.1 ≠ [] then _ else lines) ++ body) = _
      rw [ih]
      split_ifs <;> cases (sections.flatMap sectionLines).mapM (Line.text now org) <;> simp

/-- **The text page** is its document, line by line. -/
theorem renderText_eq (states : List Row) (showUpAlso : Bool) :
    renderText now states org showUpAlso =
      ((textDocument states showUpAlso).mapM (Line.text now org)).map fun ls => joinLines ls ++ ['\n'] := by
  have hhead : [Line.title, .columns].mapM (Line.text now org) =
      (clockTime now false).map fun clock => [titleText org clock, columnsText] := by
    rw [List.mapM_cons, Line.text]
    cases clockTime now false <;> rfl
  have hhealthy (n : ℕ) : [Line.blank, .healthy n].mapM (Line.text now org) =
      (strInt n).map fun count => [[], "-- Healthy hosts (".toList ++ count ++ ") --".toList] := by
    rw [List.mapM_cons, List.mapM_cons, Line.text, Line.text]
    cases strInt n <;> rfl
  unfold renderText textDocument
  rw [partition_eq]
  dsimp only
  simp only [emitTextRows_eq now org, List.mapM_append, hhead]
  generalize states.filter isDownRow = down
  generalize states.filter isUpRow = up
  cases clockTime now false with
  | none => rfl
  | some clock =>
    cases (textLines down).mapM (Line.text now org) with
    | none => rfl
    | some lines =>
      by_cases hup : showUpAlso = true ∧ up ≠ []
      · simp only [if_pos hup, List.mapM_append, hhealthy]
        cases strInt up.length with
        | none => split_ifs <;> rfl
        | some count =>
          cases (textLines up).mapM (Line.text now org) with
          | none => split_ifs <;> rfl
          | some upLines => split_ifs <;> simp [Line.text]
      · simp only [if_neg hup]
        split_ifs <;> simp [Line.text]

end Text

/-! ### The rows that are shown -/

/-- The rows to be shown. -/
def shownRows (states : List Row) (showUpAlso : Bool) : List Row :=
  states.filter fun r => !r.2.suppressed && (showUpAlso || !isUp r.2.lastcheck)

theorem shownRows_perm (states : List Row) (showUpAlso : Bool) :
    (states.filter isDownRow ++ if showUpAlso then states.filter isUpRow else []).Perm (shownRows states showUpAlso) := by
  cases showUpAlso with
  | false =>
    refine .of_eq ?_
    rw [if_neg Bool.false_ne_true, List.append_nil]
    exact List.filter_congr fun r _ => by simp [isDownRow]
  | true =>
    rw [if_pos rfl]
    refine (filter_or_perm fun r _ hr => ?_).trans (.of_eq (List.filter_congr fun r _ => ?_))
    · simp_all [isDownRow, isUpRow]
    · cases hs : r.2.suppressed <;> cases hu : isUp r.2.lastcheck <;> simp_all [isDownRow, isUpRow]

theorem rows_textLines (rows : List Row) : (textLines rows).filterMap Line.row? = (grouped rows).flatMap Prod.snd := by
  rw [textLines, List.filterMap_flatMap]
  refine List.flatMap_congr fun s _ => ?_
  have hrows : (s.2.map Line.row).filterMap Line.row? = s.2 := by
    rw [List.filterMap_map]
    exact List.filterMap_some
  rw [sectionLines, List.filterMap_append, hrows]
  split_ifs <;> rfl

/-- **The rows of the text page.** -/
theorem rows_textDocument (states : List Row) (showUpAlso : Bool) :
    ((textDocument states showUpAlso).filterMap Line.row?).Perm (shownRows states showUpAlso) := by
  refine .trans ?_ (shownRows_perm states showUpAlso)
  unfold textDocument
  dsimp only
  rw [List.filterMap_append, List.filterMap_append, List.filterMap_append, rows_textLines]
  refine .append ?_ ?_
  · have hmarker : (if states.filter isDownRow = [] then [Line.operational] else []).filterMap Line.row? = [] := by
      split_ifs <;> rfl
    rw [hmarker, List.append_nil]
    exact grouped_perm _
  · by_cases hup : showUpAlso = true ∧ states.filter isUpRow ≠ []
    · rw [if_pos hup, if_pos hup.1, List.filterMap_append, rows_textLines]
      exact grouped_perm _
    · rw [if_neg hup]
      split_ifs with hshow
      · rw [not_not.mp fun hne => hup ⟨hshow, hne⟩]
        exact .refl _
      · exact .refl _

/-! ### The HTML page -/

/-- What `render_html` prints besides the rows and the time. -/
structure Frame where
  css : Text
  version : Text
  org : Text
  refresh : ℤ
  logoUrl : Text

section Html

variable [Calendar] (now : ℚ) (p : Frame)

/-- A part of the HTML page. -/
inductive Item
  | head
  | summary (down : ℕ)
  | bar
  | panel
  | tableTop (label : Text)
  | row (r : Row)
  | newline
  | tableEnd
  | healthyTop (n : ℕ)
  | healthyEnd
  | foot

def Item.text : Item → Option Text
  | .head => (strInt p.refresh).map fun refresh =>
    (topHtml p.css p.org refresh p.logoUrl).flatMap (· ++ ['\n']) ++ "<div class=\"bar\"><div>".toList
  | .summary down => summaryHtml down
  | .bar => (clockTime now false).map fun clock =>
    "</div><div>Updated ".toList ++ esc clock ++ "</div></div>".toList ++ ['\n'] ++ "<div class=\"wrap\">".toList
  | .panel => some okPanel
  | .tableTop label => some (headingHtml label ++ "<table><tr>".toList ++ headerCells ++ "</tr>\n".toList)
  | .row r => htmlRow now r
  | .newline => some ['\n']
  | .tableEnd => some "\n</table>".toList
  | .healthyTop n => (strInt n).map fun count =>
    "<details class=\"healthy\"><summary>Healthy hosts (".toList ++ count ++ ")</summary>\n".toList
  | .healthyEnd => some "</details>".toList
  | .foot => (strInt p.refresh).map fun refresh =>
    "</div>".toList ++ ['\n'] ++ "<div class=\"footer\">".toList ++ esc (footerText p.version refresh) ++ "</div>".toList ++
      ['\n'] ++ "</body></html>".toList

def Item.row? : Item → Option Row
  | .row r => some r
  | _ => none

/-- The count of the summary. -/
def Item.count? : Item → Option ℕ
  | .summary down => some down
  | _ => none

/-- A table. -/
def tableItems (s : Text × List Row) : List Item :=
  .tableTop s.1 :: (s.2.map Item.row).intersperse .newline ++ [.tableEnd]

/-- The HTML page. -/
def htmlDocument (states : List Row) (showUpAlso : Bool) : List Item :=
  let down := states.filter isDownRow
  let up := states.filter isUpRow
  [.head, .summary down.length, .bar] ++ (if down ≠ [] then (grouped down).flatMap tableItems else [.panel]) ++
    (if showUpAlso ∧ up ≠ [] then .healthyTop up.length :: (grouped up).flatMap tableItems ++ [.healthyEnd] else []) ++
    [.foot]

/-- The text of a list of parts. -/
def printItems (items : List Item) : Option Text :=
  (items.mapM (Item.text now p)).map List.flatten

theorem printItems_append (a b : List Item) : printItems now p (a ++ b) =
    (printItems now p a).bind fun s =>
      (printItems now p b).map (s ++ ·) := by
  unfold printItems
  rw [List.mapM_append]
  cases a.mapM (Item.text now p) with
  | none => rfl
  | some s =>
    cases b.mapM (Item.text now p) with
    | none => rfl
    | some t => simp

theorem printItems_table (s : Text × List Row) : printItems now p (tableItems s) = renderTable now s := by
  have hrows : ((s.2.map Item.row).intersperse .newline).mapM (Item.text now p) =
      (s.2.mapM (htmlRow now)).map (·.intersperse ['\n']) := by
    rw [mapM_intersperse (f := Item.text now p) (s := ['\n']) rfl, List.mapM_map]
    rfl
  unfold printItems tableItems renderTable
  rw [List.mapM_append, List.mapM_cons, hrows]
  cases s.2.mapM (htmlRow now) with
  | none => rfl
  | some body => simp [Item.text, joinLines, List.intercalate]

theorem renderTables_eq (rows : List Row) :
    renderTables now rows = printItems now p ((grouped rows).flatMap tableItems) := by
  unfold renderTables
  generalize grouped rows = sections
  induction sections with
  | nil => rfl
  | cons s sections ih =>
    rw [List.flatMap_cons, printItems_append, ← ih, printItems_table, List.mapM_cons]
    cases renderTable now s with
    | none => rfl
    | some table => cases sections.mapM (renderTable now) <;> rfl

/-- **The HTML page** is its document, part by part. -/
theorem renderHtml_eq (states : List Row) (showUpAlso : Bool) :
    renderHtml now p.css p.version states p.org p.refresh showUpAlso p.logoUrl =
      printItems now p (htmlDocument states showUpAlso) := by
  have hitem (i : Item) : printItems now p [i] = Item.text now p i := by
    unfold printItems
    rw [List.mapM_cons]
    cases Item.text now p i <;> simp
  have hcons (i : Item) (items : List Item) : printItems now p (i :: items) =
      (Item.text now p i).bind fun s => (printItems now p items).map (s ++ ·) := by
    rw [← hitem, ← printItems_append, List.singleton_append]
  have hnil : printItems now p [] = some [] := rfl
  have hbad (down : List Row) :
      printItems now p (if down ≠ [] then (grouped down).flatMap tableItems else [.panel]) = badHtml now down := by
    unfold badHtml
    split_ifs
    · exact (renderTables_eq now p down).symm
    · exact hitem .panel
  have hhealthy (up : List Row) : printItems now p
      (if showUpAlso ∧ up ≠ [] then .healthyTop up.length :: (grouped up).flatMap tableItems ++ [.healthyEnd] else []) =
        healthyHtml now up showUpAlso := by
    unfold healthyHtml
    split_ifs
    · rw [printItems_append, hcons, ← renderTables_eq, hitem, Item.text, Item.text]
      cases strInt up.length <;> cases renderTables now up <;> rfl
    · rfl
  unfold renderHtml htmlDocument
  rw [partition_eq]
  dsimp only
  rw [printItems_append, printItems_append, printItems_append, hbad, hhealthy, hitem]
  generalize states.filter isDownRow = down
  simp only [hcons, hnil, Item.text]
  cases badHtml now down with
  | none => cases strInt p.refresh <;> cases summaryHtml down.length <;> cases clockTime now false <;> rfl
  | some bad =>
    cases healthyHtml now (states.filter isUpRow) showUpAlso with
    | none => cases strInt p.refresh <;> cases summaryHtml down.length <;> cases clockTime now false <;> rfl
    | some healthy =>
      cases strInt p.refresh with
      | none => cases summaryHtml down.length <;> rfl
      | some refresh =>
        cases summaryHtml down.length with
        | none => rfl
        | some summary =>
          cases clockTime now false with
          | none => rfl
          | some clock =>
            simp only [topHtml, joinLines, List.intercalate, List.cons_append, List.nil_append,
              List.intersperse_cons_cons, List.intersperse_singleton, List.flatten_cons, List.flatten_nil,
              List.flatMap_cons, List.flatMap_nil, List.append_assoc, List.append_nil, Option.map_some, Option.bind_some,
              Option.bind_eq_bind, Option.pure_def]

end Html

theorem filterMap_intersperse {α β : Type} {f : α → Option β} {sep : α} (hs : f sep = none) (l : List α) :
    (l.intersperse sep).filterMap f = l.filterMap f := by
  induction l with
  | nil => rfl
  | cons a l ih =>
    cases l with
    | nil => rfl
    | cons b l =>
      rw [List.intersperse_cons_cons, List.filterMap_cons, List.filterMap_cons_none hs, ih]
      exact List.filterMap_cons.symm

theorem rows_tableItems (rows : List Row) :
    ((grouped rows).flatMap tableItems).filterMap Item.row? = (grouped rows).flatMap Prod.snd := by
  rw [List.filterMap_flatMap]
  refine List.flatMap_congr fun s _ => ?_
  have hrows : (s.2.map Item.row).filterMap Item.row? = s.2 := by
    rw [List.filterMap_map]
    exact List.filterMap_some
  rw [tableItems, List.filterMap_append, List.filterMap_cons_none rfl, filterMap_intersperse rfl, hrows]
  exact List.append_nil _

/-- The tables have rows, and nothing else that varies. -/
theorem filterMap_tableItems {β : Type} {f : Item → Option β} (htop : ∀ label, f (.tableTop label) = none)
    (hrow : ∀ r, f (.row r) = none) (hnewline : f .newline = none) (hend : f .tableEnd = none) (rows : List Row) :
    ((grouped rows).flatMap tableItems).filterMap f = [] := by
  rw [List.filterMap_flatMap, List.flatMap_eq_nil_iff]
  intro s _
  have hrows : (s.2.map Item.row).filterMap f = [] := by
    rw [List.filterMap_map]
    exact List.filterMap_eq_nil_iff.mpr fun r _ => hrow r
  rw [tableItems, List.filterMap_append, List.filterMap_cons_none (htop s.1), filterMap_intersperse hnewline, hrows,
    List.filterMap_cons_none hend]
  rfl

/-- **The rows of the HTML page.** -/
theorem rows_htmlDocument (states : List Row) (showUpAlso : Bool) :
    ((htmlDocument states showUpAlso).filterMap Item.row?).Perm (shownRows states showUpAlso) := by
  refine .trans ?_ (shownRows_perm states showUpAlso)
  unfold htmlDocument
  dsimp only
  rw [List.filterMap_append, List.filterMap_append, List.filterMap_append]
  have hends : [Item.foot].filterMap Item.row? = [] := rfl
  rw [hends, List.append_nil]
  refine .append ?_ ?_
  · show ((if states.filter isDownRow ≠ [] then _ else [Item.panel]).filterMap Item.row?).Perm _
    split_ifs with hdown
    · rw [rows_tableItems]
      exact grouped_perm _
    · rw [not_not.mp hdown]
      exact .refl _
  · by_cases hup : showUpAlso = true ∧ states.filter isUpRow ≠ []
    · rw [if_pos hup, if_pos hup.1, List.filterMap_append, List.filterMap_cons_none rfl, rows_tableItems]
      exact (List.append_nil _).symm ▸ grouped_perm _
    · rw [if_neg hup]
      split_ifs with hshow
      · rw [not_not.mp fun hne => hup ⟨hshow, hne⟩]
        exact .refl _
      · exact .refl _

/-- A part of the HTML page that counts rows. -/
def Item.number? : Item → Option ℕ
  | .summary n | .healthyTop n => some n
  | _ => none

/-- What the HTML page has apart from its tables. -/
theorem filterMap_htmlDocument {β : Type} {f : Item → Option β}
    (htables : ∀ rows, ((grouped rows).flatMap tableItems).filterMap f = [])
    (hfixed : ∀ item ∈ [Item.head, .bar, .panel, .healthyEnd, .foot], f item = none) (states : List Row)
    (showUpAlso : Bool) :
    (htmlDocument states showUpAlso).filterMap f =
      [Item.summary (states.filter isDownRow).length].filterMap f ++
        if showUpAlso ∧ states.filter isUpRow ≠ [] then [Item.healthyTop (states.filter isUpRow).length].filterMap f
        else [] := by
  simp only [List.forall_mem_cons, List.not_mem_nil, false_implies, implies_true, and_true] at hfixed
  obtain ⟨hhead, hbar, hpanel, hend, hfoot⟩ := hfixed
  have hbad : (if states.filter isDownRow ≠ [] then (grouped (states.filter isDownRow)).flatMap tableItems
      else [Item.panel]).filterMap f = [] := by
    split_ifs
    · exact htables _
    · rw [List.filterMap_cons_none hpanel]
      rfl
  unfold htmlDocument
  dsimp only
  rw [List.filterMap_append, List.filterMap_append, List.filterMap_append, hbad, List.append_nil,
    List.filterMap_cons_none hfoot, List.filterMap_nil, List.append_nil, List.filterMap_cons_none hhead]
  congr 1
  · rw [List.filterMap_cons, List.filterMap_cons_none hbar, List.filterMap_cons]
  · split_ifs
    · rw [List.filterMap_append, List.filterMap_cons, htables, List.filterMap_cons_none hend, List.filterMap_nil,
        List.append_nil, List.filterMap_cons]
      rfl
    · rfl

/-- The counts of the HTML page. -/
theorem numbers_htmlDocument (states : List Row) (showUpAlso : Bool) :
    (htmlDocument states showUpAlso).filterMap Item.number? = (states.filter isDownRow).length ::
      if showUpAlso ∧ states.filter isUpRow ≠ [] then [(states.filter isUpRow).length] else [] :=
  filterMap_htmlDocument (filterMap_tableItems (fun _ => rfl) (fun _ => rfl) rfl rfl)
    (by simp [Item.number?]) states showUpAlso

/-- The summary of the HTML page counts the hosts that are down. -/
theorem count_htmlDocument (states : List Row) (showUpAlso : Bool) :
    (htmlDocument states showUpAlso).filterMap Item.count? = [states.countP isDownRow] := by
  rw [filterMap_htmlDocument (filterMap_tableItems (fun _ => rfl) (fun _ => rfl) rfl rfl) (by simp [Item.count?]),
    List.countP_eq_length_filter]
  split_ifs <;> rfl

end Psysmon
