import Psysmon.Output.Document

/-!
# Psysmon.Output.Complete — the status outputs lose and repeat no host

The HTML page, the text page, the JSON output and the heartbeat show and count the same nodes, if they can be printed at
all: `time.localtime` refuses some floats, and `str` refuses integers of more than 4300 digits.

* `textRow_isSome_iff`, `htmlRow_isSome_iff`: the rows that can be printed.
* `printable_statusPayload_iff`: the states that the JSON output can print.
* `statusOutput_iff`: all outputs are printed and show the right rows and counts, exactly if the numbers and times that
  occur can be printed.
-/

namespace Psysmon

open Lib Number

/-! ### Numbers -/

theorem strInt_isSome_iff {n : ℤ} : (strInt n).isSome = true ↔ Printable n := by
  unfold strInt
  split_ifs with h
  · exact iff_of_true rfl h
  · exact iff_of_false Bool.false_ne_true h

theorem portText_isSome_iff {n : Node} : (portText n).isSome = true ↔ Printable n.port := by
  unfold portText
  split_ifs with h
  · exact strInt_isSome_iff
  · rw [not_not.mp h]
    exact iff_of_true rfl (by decide)

theorem lastOutage_isSome_iff {s : NodeState} {now : ℚ} : (lastOutage s now).isSome = true ↔
    s.lastUp = .finite 0 ∨ ∃ q, s.lastUp = .finite q ∧ (Binary64.round (now - q)).isSome = true := by
  unfold lastOutage elapsed
  by_cases h : s.lastUp = .finite 0
  · rw [if_pos h]
    exact iff_of_true rfl (.inl h)
  · rw [if_neg h, or_iff_right h]
    cases hl : s.lastUp with
    | finite q =>
      unfold sinceOf
      dsimp only
      cases hr : Binary64.round (now - q) with
      | none => exact iff_of_false Bool.false_ne_true (by rintro ⟨q', hq, hs⟩; cases hq; rw [hr] at hs; cases hs)
      | some v => exact iff_of_true rfl ⟨q, rfl, by rw [hr]; rfl⟩
    | inf neg => exact iff_of_false Bool.false_ne_true (by rintro ⟨q, hq, -⟩; cases hq)
    | nan => exact iff_of_false Bool.false_ne_true (by rintro ⟨q, hq, -⟩; cases hq)

theorem bind4_isSome_iff {a b c d : Option Text} {f : Text → Text → Text → Text → Text} :
    (do let w ← a; let x ← b; let y ← c; let z ← d; return f w x y z).isSome = true ↔
      a.isSome = true ∧ b.isSome = true ∧ c.isSome = true ∧ d.isSome = true := by
  cases a <;> cases b <;> cases c <;> cases d <;> simp

/-! ### The parts of a document -/

theorem mem_filterMap_row? {doc : List Line} {r : Row} : r ∈ doc.filterMap Line.row? ↔ Line.row r ∈ doc := by
  rw [List.mem_filterMap]
  constructor
  · rintro ⟨line, hline, hr⟩
    cases line <;> cases hr
    exact hline
  · exact fun h => ⟨_, h, rfl⟩

theorem row_mem_textDocument {states : List Row} {showUpAlso : Bool} {r : Row} :
    Line.row r ∈ textDocument states showUpAlso ↔ r ∈ shownRows states showUpAlso := by
  rw [← mem_filterMap_row?, (rows_textDocument states showUpAlso).mem_iff]

theorem healthy_not_mem_textLines (rows : List Row) (n : ℕ) : Line.healthy n ∉ textLines rows := by
  intro h
  obtain ⟨s, -, hs⟩ := List.mem_flatMap.mp h
  rcases List.mem_append.mp hs with hs | hs
  · split_ifs at hs <;> simp at hs
  · simp at hs

theorem healthy_mem_textDocument {states : List Row} {showUpAlso : Bool} {n : ℕ}
    (h : Line.healthy n ∈ textDocument states showUpAlso) : n ≤ states.length := by
  unfold textDocument at h
  dsimp only at h
  rcases List.mem_append.mp h with h | h
  · rcases List.mem_append.mp h with h | h
    · rcases List.mem_append.mp h with h | h
      · simp at h
      · exact absurd h (healthy_not_mem_textLines _ n)
    · split_ifs at h <;> simp at h
  · split_ifs at h
    · rcases List.mem_append.mp h with h | h
      · obtain rfl : n = (states.filter isUpRow).length := by simpa using h
        exact List.length_filter_le _ _
      · exact absurd h (healthy_not_mem_textLines _ n)
    · cases h

theorem mem_filterMap_item_row? {doc : List Item} {r : Row} : r ∈ doc.filterMap Item.row? ↔ Item.row r ∈ doc := by
  rw [List.mem_filterMap]
  constructor
  · rintro ⟨item, hitem, hr⟩
    cases item <;> cases hr
    exact hitem
  · exact fun h => ⟨_, h, rfl⟩

theorem row_mem_htmlDocument {states : List Row} {showUpAlso : Bool} {r : Row} :
    Item.row r ∈ htmlDocument states showUpAlso ↔ r ∈ shownRows states showUpAlso := by
  rw [← mem_filterMap_item_row?, (rows_htmlDocument states showUpAlso).mem_iff]

theorem number_mem_htmlDocument {states : List Row} {showUpAlso : Bool} {item : Item} {n : ℕ}
    (h : item ∈ htmlDocument states showUpAlso) (hn : item.number? = some n) : n ≤ states.length := by
  have hmem : n ∈ (htmlDocument states showUpAlso).filterMap Item.number? := List.mem_filterMap.mpr ⟨item, h, hn⟩
  rw [numbers_htmlDocument] at hmem
  rcases List.mem_cons.mp hmem with rfl | hmem
  · exact List.length_filter_le _ _
  · split_ifs at hmem
    · obtain rfl := List.mem_singleton.mp hmem
      exact List.length_filter_le _ _
    · cases hmem

theorem summaryHtml_isSome {n : ℕ} (h : Printable (n : ℤ)) : (summaryHtml n).isSome = true := by
  obtain ⟨t, ht⟩ := Option.isSome_iff_exists.mp (strInt_isSome_iff.mpr h)
  unfold summaryHtml
  rw [ht]
  split <;> rfl

section Rows

variable [Calendar] (now : ℚ)

/-- The numbers and the times of a row can be printed. -/
structure Row.Renderable (r : Row) : Prop where
  port : Printable r.1.port
  count : Printable r.2.downct
  deathtime : r.2.deathtime = .finite 0 ∨ (Calendar.format r.2.deathtime).isSome = true
  lastUp : r.2.lastUp = .finite 0 ∨ ∃ q, r.2.lastUp = .finite q ∧ (Binary64.round (now - q)).isSome = true

variable {now}

theorem clockTime_isSome_iff {epoch : PyFloat} : (clockTime epoch true).isSome = true ↔
    epoch = .finite 0 ∨ (Calendar.format epoch).isSome = true := by
  unfold clockTime
  by_cases h : epoch = .finite 0
  · rw [if_pos ⟨rfl, h⟩]
    exact iff_of_true rfl (.inl h)
  · rw [if_neg fun hc => h hc.2, or_iff_right h]

theorem renderable_iff {r : Row} : r.Renderable now ↔
    (portText r.1).isSome = true ∧ (strInt r.2.downct).isSome = true ∧ (clockTime r.2.deathtime true).isSome = true ∧
      (lastOutage r.2 now).isSome = true := by
  rw [portText_isSome_iff, strInt_isSome_iff, clockTime_isSome_iff, lastOutage_isSome_iff]
  exact ⟨fun h => ⟨h.port, h.count, h.deathtime, h.lastUp⟩, fun ⟨h1, h2, h3, h4⟩ => ⟨h1, h2, h3, h4⟩⟩

theorem textRow_isSome_iff {r : Row} : (textRow now r).isSome = true ↔ r.Renderable now :=
  bind4_isSome_iff.trans renderable_iff.symm

theorem htmlRow_isSome_iff {r : Row} : (htmlRow now r).isSome = true ↔ r.Renderable now :=
  bind4_isSome_iff.trans renderable_iff.symm

/-! ### Pages -/

/-- The time and the rows of a page can be printed. -/
structure Rendered (now : ℚ) (states : List Row) (showUpAlso : Bool) : Prop where
  clock : (Calendar.format now).isSome = true
  rows : ∀ r ∈ shownRows states showUpAlso, r.Renderable now

/-- The text page is printed exactly if its time, its rows and the count of its healthy hosts can be. -/
theorem renderText_isSome_iff {org : Text} {states : List Row} {showUpAlso : Bool}
    (hlen : Printable (states.length : ℤ)) :
    (renderText now states org showUpAlso).isSome = true ↔ Rendered now states showUpAlso := by
  rw [renderText_eq, Option.isSome_map, mapM_isSome_iff]
  constructor
  · intro h
    refine ⟨?_, fun r hr => textRow_isSome_iff.mp (h (.row r) (row_mem_textDocument.mpr hr))⟩
    have htitle := h .title (by simp [textDocument])
    rwa [Line.text, Option.isSome_map, clockTime, if_neg fun hc => Bool.false_ne_true hc.1] at htitle
  · intro h line hline
    cases line with
    | title =>
      rw [Line.text, Option.isSome_map, clockTime, if_neg fun hc => Bool.false_ne_true hc.1]
      exact h.clock
    | columns | heading label | operational | blank => rfl
    | row r => exact textRow_isSome_iff.mpr (h.rows r (row_mem_textDocument.mp hline))
    | healthy n =>
      rw [Line.text, Option.isSome_map, strInt_isSome_iff]
      exact printable_of_le (healthy_mem_textDocument hline) hlen

/-- The HTML page is printed exactly if its refresh interval, its time and its rows can be. -/
theorem renderHtml_isSome_iff {p : Frame} {states : List Row} {showUpAlso : Bool}
    (hlen : Printable (states.length : ℤ)) :
    (renderHtml now p.css p.version states p.org p.refresh showUpAlso p.logoUrl).isSome = true ↔
      Printable p.refresh ∧ Rendered now states showUpAlso := by
  rw [renderHtml_eq, printItems, Option.isSome_map, mapM_isSome_iff]
  have hclock : (clockTime now false).isSome = (Calendar.format now).isSome := by
    rw [clockTime, if_neg fun hc => Bool.false_ne_true hc.1]
  constructor
  · intro h
    refine ⟨?_, ?_, fun r hr => htmlRow_isSome_iff.mp (h (.row r) (row_mem_htmlDocument.mpr hr))⟩
    · have hhead := h .head (by simp [htmlDocument])
      rwa [Item.text, Option.isSome_map, strInt_isSome_iff] at hhead
    · have hbar := h .bar (by simp [htmlDocument])
      rwa [Item.text, Option.isSome_map, hclock] at hbar
  · rintro ⟨hrefresh, h⟩ item hitem
    cases item with
    | head | foot =>
      rw [Item.text, Option.isSome_map, strInt_isSome_iff]
      exact hrefresh
    | summary n => exact summaryHtml_isSome (printable_of_le (number_mem_htmlDocument hitem rfl) hlen)
    | bar =>
      rw [Item.text, Option.isSome_map, hclock]
      exact h.clock
    | panel | tableTop label | newline | tableEnd | healthyEnd => rfl
    | row r => exact htmlRow_isSome_iff.mpr (h.rows r (row_mem_htmlDocument.mp hitem))
    | healthyTop n =>
      rw [Item.text, Option.isSome_map, strInt_isSome_iff]
      exact printable_of_le (number_mem_htmlDocument hitem rfl) hlen

end Rows

/-! ### JSON -/

theorem allPrintable_map {α : Type} (f : α → Json) (l : List α) :
    Json.allPrintable (l.map f) = l.all fun a => (f a).printable := by
  induction l with
  | nil => rfl
  | cons a l ih => rw [List.map_cons, Json.allPrintable, ih, List.all_cons]

theorem printable_orNull (t : Text) : (Json.orNull t).printable = true := by
  unfold Json.orNull
  split_ifs <;> rfl

theorem printable_timeOrNull (v : PyFloat) : (Json.timeOrNull v).printable = true := by
  unfold Json.timeOrNull
  split_ifs <;> rfl

theorem printable_optStr (t : Option Text) : (Json.optStr t).printable = true := by
  cases t <;> rfl

/-- The host object is printed exactly if its integers can be. -/
theorem printable_host_iff {r : Row} : (Json.obj (host r.1 r.2)).printable = true ↔
    Printable r.1.port ∧ Printable r.2.lastcheck ∧ Printable r.2.downct := by
  have hparents : Json.allPrintable (r.2.downParents.map .str) = true := by
    rw [allPrintable_map]
    exact List.all_eq_true.mpr fun _ _ => rfl
  simp only [host, Json.printable, Json.fieldsPrintable, printable_orNull, printable_timeOrNull, printable_optStr,
    hparents, Bool.and_true, Bool.true_and, Bool.and_eq_true, decide_eq_true_eq]

theorem printable_statusPayload_iff {states : List Row} {now : ℚ} : (statusPayload states now).printable = true ↔
    Printable (states.length : ℤ) ∧
      ∀ r ∈ states, Printable r.1.port ∧ Printable r.2.lastcheck ∧ Printable r.2.downct := by
  have hhosts : Json.allPrintable (states.map fun s => .obj (host s.1 s.2)) = true ↔
      ∀ r ∈ states, Printable r.1.port ∧ Printable r.2.lastcheck ∧ Printable r.2.downct := by
    rw [allPrintable_map, List.all_eq_true]
    exact forall₂_congr fun r _ => printable_host_iff
  simp only [statusPayload, Json.printable, Json.fieldsPrintable, Bool.and_true, Bool.true_and, Bool.and_eq_true,
    decide_eq_true_eq, hhosts]
  constructor
  · rintro ⟨-, hlen, hrows⟩
    exact ⟨hlen, hrows⟩
  · rintro ⟨hlen, hrows⟩
    exact ⟨printable_of_le List.countP_le_length hlen, hlen, hrows⟩

/-! ### All outputs -/

theorem countP_down (states : List Row) :
    states.countP (fun s => !isUp s.2.lastcheck && !s.2.suppressed) = states.countP isDownRow :=
  List.countP_congr fun r _ => by rw [isDownRow, Bool.and_comm]

section Outputs

variable [Calendar]

/-- What the status outputs should be, for the rows `states` at the time `now`. -/
structure StatusOutput (now : ℚ) (p : Frame) (states : List Row) (showUpAlso : Bool) : Prop where
  /-- `_grouped` sorts the rows into sections. -/
  sections : ∀ rows, ((grouped rows).map Prod.fst).Nodup ∧ ((grouped rows).flatMap Prod.snd).Perm rows ∧
    ∀ s ∈ grouped rows, ∀ r ∈ s.2, s.1 = labelIn rows r
  /-- The HTML page prints its document; the rows in it are those to be shown, each once, and its summary counts the hosts
  that are down. -/
  html : ∃ page, renderHtml now p.css p.version states p.org p.refresh showUpAlso p.logoUrl = some page ∧
    printItems now p (htmlDocument states showUpAlso) = some page ∧
    ((htmlDocument states showUpAlso).filterMap Item.row?).Perm (shownRows states showUpAlso) ∧
    (htmlDocument states showUpAlso).filterMap Item.count? = [states.countP isDownRow]
  /-- So does the text page. -/
  text : ∃ page texts, renderText now states p.org showUpAlso = some page ∧
    (textDocument states showUpAlso).mapM (Line.text now p.org) = some texts ∧ page = joinLines texts ++ ['\n'] ∧
    ((textDocument states showUpAlso).filterMap Line.row?).Perm (shownRows states showUpAlso)
  json : ∃ fields, toJson states now = some (.obj fields) ∧
    fields.lookup "down".toList = some (.int (states.countP isDownRow))
  heartbeat : (logHeartbeat states).down = states.countP isDownRow

/-- The numbers and the times of all outputs can be printed. -/
structure AllPrintable (now : ℚ) (p : Frame) (states : List Row) (showUpAlso : Bool) : Prop where
  refresh : Printable p.refresh
  total : Printable (states.length : ℤ)
  numbers : ∀ r ∈ states, Printable r.1.port ∧ Printable r.2.lastcheck ∧ Printable r.2.downct
  clock : (Calendar.format now).isSome = true
  deathtimes : ∀ r ∈ shownRows states showUpAlso,
    r.2.deathtime = .finite 0 ∨ (Calendar.format r.2.deathtime).isSome = true
  lastUps : ∀ r ∈ shownRows states showUpAlso,
    r.2.lastUp = .finite 0 ∨ ∃ q, r.2.lastUp = .finite q ∧ (Binary64.round (now - q)).isSome = true

/-- **Status output**: the sections, the pages, the JSON output and the heartbeat show and count every host as they
should exactly if all their numbers and times can be printed. -/
theorem statusOutput_iff (now : ℚ) (p : Frame) (states : List Row) (showUpAlso : Bool) :
    StatusOutput now p states showUpAlso ↔ AllPrintable now p states showUpAlso := by
  constructor
  · intro h
    have hjson : (statusPayload states now).printable = true := by
      obtain ⟨fields, hj, -⟩ := h.json
      by_contra hc
      rw [toJson, if_neg hc] at hj
      cases hj
    obtain ⟨htotal, hnumbers⟩ := printable_statusPayload_iff.mp hjson
    obtain ⟨page, hpage, -⟩ := h.html
    obtain ⟨hrefresh, hrendered⟩ := (renderHtml_isSome_iff htotal).mp (Option.isSome_of_eq_some hpage)
    exact ⟨hrefresh, htotal, hnumbers, hrendered.clock, fun r hr => (hrendered.rows r hr).deathtime,
      fun r hr => (hrendered.rows r hr).lastUp⟩
  · intro h
    have hshown : ∀ r ∈ shownRows states showUpAlso, r ∈ states := fun r hr => List.mem_of_mem_filter hr
    have hrendered : Rendered now states showUpAlso := ⟨h.clock, fun r hr =>
      ⟨(h.numbers r (hshown r hr)).1, (h.numbers r (hshown r hr)).2.2, h.deathtimes r hr, h.lastUps r hr⟩⟩
    obtain ⟨page, hpage⟩ := Option.isSome_iff_exists.mp ((renderHtml_isSome_iff h.total).mpr ⟨h.refresh, hrendered⟩)
    obtain ⟨text, htext⟩ : ∃ text, renderText now states p.org showUpAlso = some text :=
      Option.isSome_iff_exists.mp ((renderText_isSome_iff h.total).mpr hrendered)
    refine ⟨fun rows => ?_, ⟨page, hpage, ?_, rows_htmlDocument _ _, count_htmlDocument _ _⟩, ?_, ?_, rfl⟩
    · obtain ⟨hnodup, -, hrows⟩ := grouped_spec rows
      refine ⟨hnodup, grouped_perm rows, fun s hs r hr => ?_⟩
      have hr := List.mem_filter.mp ((hrows s hs).mem_iff.mp hr)
      exact (of_decide_eq_true hr.2).symm
    · rw [← renderHtml_eq, hpage]
    · obtain ⟨texts, htexts, rfl⟩ := Option.map_eq_some_iff.mp ((renderText_eq now p.org _ _).symm.trans htext)
      exact ⟨_, texts, htext, htexts, rfl, rows_textDocument _ _⟩
    · refine ⟨_, if_pos (printable_statusPayload_iff.mpr ⟨h.total, h.numbers⟩), ?_⟩
      rw [← countP_down]
      rfl

end Outputs

/-- A page to evaluate with. -/
def plainFrame : Frame := ⟨[], "1".toList, "net".toList, 60, "logo".toList⟩

/-- Hosts with and without a group, and a group named `Ungrouped`. -/
def mixedRows : List Row :=
  [(⟨"a".toList, .ping, 0, [], [], [], none, none, [], [], [], none, 2, none, none, none⟩, { lastcheck := 6, downct := 3 }),
    (⟨"b".toList, .ssh, 22, [], [], "Ungrouped".toList, none, none, [], [], [], none, 2, none, none, none⟩,
      { lastcheck := 1, downct := 1 }),
    (⟨"c".toList, .ping, 0, [], [], "lab".toList, none, none, [], [], [], none, 2, none, none, none⟩, {})]

theorem statusOutput_mixed : @StatusOutput Calendar.fixed 0 plainFrame mixedRows true := by
  have htimes : ∀ r ∈ shownRows mixedRows true, r.2.deathtime = .finite 0 ∧ r.2.lastUp = .finite 0 := by decide +kernel
  exact (@statusOutput_iff Calendar.fixed 0 plainFrame mixedRows true).mpr
    (@AllPrintable.mk Calendar.fixed _ _ _ _ (by decide +kernel) (by decide +kernel) (by decide +kernel) rfl
      (fun r hr => .inl (htimes r hr).1) fun r hr => .inl (htimes r hr).2)

/-- A host that is down, with the death time that the number `Infinity` of a state file restores. -/
def infiniteRow : Row := ({ hostname := "h".toList, checkType := .ping }, { lastcheck := 6, deathtime := .inf false })

/-- The host is to be shown, and neither page is printed, whatever the time zone. -/
theorem statusOutput_infinite : shownRows [infiniteRow] false = [infiniteRow] ∧
    ∀ cal : Calendar, @renderText cal 0 [infiniteRow] plainFrame.org false = none ∧
      @renderHtml cal 0 plainFrame.css plainFrame.version [infiniteRow] plainFrame.org plainFrame.refresh false
        plainFrame.logoUrl = none := by
  have hshown : shownRows [infiniteRow] false = [infiniteRow] := by decide +kernel
  have hlen : Printable (([infiniteRow].length : ℕ) : ℤ) := by decide +kernel
  refine ⟨hshown, fun cal => ?_⟩
  have hnot : ¬ @Rendered cal 0 [infiniteRow] false := by
    intro h
    have hrow := h.rows infiniteRow (by rw [hshown]; exact List.mem_singleton_self _)
    rcases hrow.deathtime with h0 | hformat
    · cases h0
    · rw [show infiniteRow.2.deathtime = .inf false from rfl, Calendar.format_inf] at hformat
      cases hformat
  rw [← Option.not_isSome_iff_eq_none, ← Option.not_isSome_iff_eq_none, renderText_isSome_iff hlen,
    renderHtml_isSome_iff hlen]
  exact ⟨hnot, fun h => hnot h.2⟩

end Psysmon
