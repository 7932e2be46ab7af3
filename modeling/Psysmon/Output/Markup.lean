import Psysmon.Lib.Markup
import Psysmon.Output.Document

/-!
# Psysmon.Output.Markup — the HTML page read back

The page is read as markup: host names, notes, group labels, the organisation and the times come back as they are, whatever
characters they have, and every tag is one of the template.  Of its tables the cells are read back row by row.

* `reads_esc`: an escaped text is read as the text.
* `Item.reads`: a part of the page is read as the tags of the template around its data.
* `html_reads_back`, `html_rows_read_back`: the page.
-/

namespace Psysmon

open Lib Number Markup

/-! ### Escaping -/

theorem reads_escapeChar (c : Char) : Reads (escapeChar c) [.char c] := by
  unfold escapeChar
  split_ifs with hamp hlt hgt hquot hapos
  · subst hamp; decide
  · subst hlt; decide
  · subst hgt; decide
  · subst hquot; decide
  · subst hapos; decide
  · exact .plain (by simpa using Ne.symm hlt) (by simpa using Ne.symm hamp)

/-- **An escaped text** is read as the text. -/
theorem reads_esc (t : Text) : Reads (esc t) (chars t) := by
  have h : Yields readStep .text (t.flatMap escapeChar) (t.flatMap fun c => [.char c]) .text :=
    .flatMap fun c _ => reads_escapeChar c
  rwa [← List.map_eq_flatMap] at h

theorem gt_not_mem_esc (t : Text) : '>' ∉ esc t := by
  intro h
  obtain ⟨c, -, hc⟩ := List.mem_flatMap.mp h
  unfold escapeChar at hc
  split_ifs at hc with hamp hlt hgt hquot hapos
  · revert hc; decide
  · revert hc; decide
  · revert hc; decide
  · revert hc; decide
  · revert hc; decide
  · exact hgt (List.mem_singleton.mp hc).symm

/-- A number is printed with digits. -/
theorem strInt_mem {n : ℤ} {t : Text} (h : strInt n = some t) : ∀ c ∈ t, c ∈ numChars := by
  unfold strInt at h
  split_ifs at h
  obtain rfl := Option.some.inj h
  exact mem_intText

theorem reads_strInt {n : ℤ} {t : Text} (h : strInt n = some t) : Reads t (chars t) :=
  .plain (fun hlt => absurd (strInt_mem h _ hlt) (by decide)) fun hamp => absurd (strInt_mem h _ hamp) (by decide)

/-! ### Rows -/

/-- The host cell as it is read. -/
def hostTokens (r : Row) : List Token :=
  chars r.1.hostname ++
    (if r.2.acked then chars [' '] ++ tag "span class=\"badge acked\"" ++ chars "ACK".toList ++ tag "/span" else []) ++
    match r.2.note with
    | some note => if note ≠ [] then tag "div class=\"note\"" ++ chars note ++ tag "/div" else []
    | none => []

/-- The badge as it is read. -/
def badgeTokens (s : NodeState) : List Token :=
  [.tag ("span class=\"badge ".toList ++ badge s ++ "\"".toList)] ++ chars (errtostr s.lastcheck) ++ tag "/span"

theorem reads_host (r : Row) : Reads (hostHtml r) (hostTokens r) := by
  have hacked : Reads (if r.2.acked then " <span class=\"badge acked\">ACK</span>".toList else [])
      (if r.2.acked then chars [' '] ++ tag "span class=\"badge acked\"" ++ chars "ACK".toList ++ tag "/span" else []) := by
    cases r.2.acked <;> decide
  have hdiv : Reads "<div class=\"note\">".toList (tag "div class=\"note\"") := by decide
  have hend : Reads "</div>".toList (tag "/div") := by decide
  unfold hostHtml hostTokens
  refine ((reads_esc _).append hacked).append ?_
  cases r.2.note with
  | none => exact .nil
  | some note =>
    dsimp only
    split_ifs
    · exact (hdiv.append (reads_esc note)).append hend
    · exact .nil

/-- A cell and what follows. -/
theorem reads_cell {opening body rest : Text} {t : String} {ts us : List Token} (hopen : Reads opening (tag t))
    (hbody : Reads body ts) (hrest : Reads rest us) :
    Reads (opening ++ (body ++ ("</td>".toList ++ rest))) (cell (t, ts) ++ us) := by
  have hend : Reads "</td>".toList (tag "/td") := by decide
  have h := ((hopen.append hbody).append hend).append hrest
  rwa [List.append_assoc, List.append_assoc] at h

/-- The cell of the badge, and what follows. -/
theorem reads_badge (s : NodeState) {rest : Text} {us : List Token} (hrest : Reads rest us) :
    Reads ("<td><span class=\"badge ".toList ++ (badge s ++ ("\">".toList ++ (esc (errtostr s.lastcheck) ++
      ("</span></td>".toList ++ rest))))) (cell ("td", badgeTokens s) ++ us) := by
  have htd : Reads "<td>".toList (tag "td") := by decide
  have hopen : Reads ("<span class=\"badge ".toList ++ badge s ++ "\">".toList)
      [.tag ("span class=\"badge ".toList ++ badge s ++ "\"".toList)] := by
    unfold badge
    split_ifs <;> decide
  have hend : Reads "</span>".toList (tag "/span") := by decide
  have h := reads_cell htd ((hopen.append (reads_esc (errtostr s.lastcheck))).append hend) hrest
  simp only [List.append_assoc] at h
  exact h

/-! ### The template -/

/-- The lines of the page above its bar, as they are read. -/
def topTokens (p : Frame) (refresh : Text) : List (List Token) :=
  [tag "!DOCTYPE html",
    tag "html lang=\"en\"" ++ tag "head" ++ tag "meta charset=\"utf-8\"",
    [.tag ("meta http-equiv=\"refresh\" content=\"".toList ++ refresh ++ "\"".toList)],
    tag "title" ++ chars "Network Status — ".toList ++ chars p.org ++ tag "/title",
    tag "style" ++ chars p.css ++ (tag "/style" ++ tag "/head" ++ tag "body"),
    tag "div class=\"header\"" ++ tag "div class=\"glow\"" ++
      [.tag ("img class=\"logo\" src=\"".toList ++ esc p.logoUrl ++ "\" alt=\"psysmon logo\"".toList)] ++
      (tag "/div" ++ tag "div" ++ tag "h1" ++ chars "PSYSMON".toList ++ tag "/h1" ++ tag "p class=\"sub\"" ++
        chars "Network status for ".toList) ++ chars p.org ++ (tag "/p" ++ tag "/div" ++ tag "/div")]

def headerTokens : List Token :=
  ["HostName", "Type", "Port", "Count", "Notified", "Status", "Time Failed", "Last Outage"].flatMap fun h =>
    tag "th" ++ chars h.toList ++ tag "/th"

def headingTokens (label : Text) : List Token :=
  if label ≠ [] then tag "h2 class=\"group\"" ++ chars label ++ (tag "/h2" ++ chars ['\n']) else []

theorem reads_refresh {refresh : Text} (h : '>' ∉ refresh) :
    Reads ("<meta http-equiv=\"refresh\" content=\"".toList ++ refresh ++ "\">".toList)
      [.tag ("meta http-equiv=\"refresh\" content=\"".toList ++ refresh ++ "\"".toList)] := by
  have hopen : Yields readStep .text "<meta http-equiv=\"refresh\" content=\"".toList []
      (.tag "meta http-equiv=\"refresh\" content=\"".toList) := by decide
  have hending : '>' ∉ "\"".toList := by decide
  have hsplit : "\">".toList = "\"".toList ++ ['>'] := by decide
  rw [hsplit]
  have hread := Reads.value hopen h hending
  rwa [List.nil_append] at hread

theorem reads_title (org : Text) : Reads ("<title>Network Status — ".toList ++ esc org ++ "</title>".toList)
    (tag "title" ++ chars "Network Status — ".toList ++ chars org ++ tag "/title") := by
  have htitle : Reads "<title>Network Status — ".toList (tag "title" ++ chars "Network Status — ".toList) := by decide
  have hend : Reads "</title>".toList (tag "/title") := by decide
  exact (htitle.append (reads_esc org)).append hend

theorem reads_style {css : Text} (hlt : '<' ∉ css) (hamp : '&' ∉ css) :
    Reads ("<style>".toList ++ css ++ "</style></head><body>".toList)
      (tag "style" ++ chars css ++ (tag "/style" ++ tag "/head" ++ tag "body")) := by
  have hstyle : Reads "<style>".toList (tag "style") := by decide
  have hend : Reads "</style></head><body>".toList (tag "/style" ++ tag "/head" ++ tag "body") := by decide
  exact (hstyle.append (.plain hlt hamp)).append hend

theorem reads_banner (org logoUrl : Text) :
    Reads ("<div class=\"header\"><div class=\"glow\"><img class=\"logo\" src=\"".toList ++ esc logoUrl ++
      "\" alt=\"psysmon logo\"></div><div><h1>PSYSMON</h1><p class=\"sub\">Network status for ".toList ++ esc org ++
      "</p></div></div>".toList)
      (tag "div class=\"header\"" ++ tag "div class=\"glow\"" ++
        [.tag ("img class=\"logo\" src=\"".toList ++ esc logoUrl ++ "\" alt=\"psysmon logo\"".toList)] ++
        (tag "/div" ++ tag "div" ++ tag "h1" ++ chars "PSYSMON".toList ++ tag "/h1" ++ tag "p class=\"sub\"" ++
          chars "Network status for ".toList) ++ chars org ++ (tag "/p" ++ tag "/div" ++ tag "/div")) := by
  -- the literal after the value ends its tag and goes on
  have hsplit : "\" alt=\"psysmon logo\"></div><div><h1>PSYSMON</h1><p class=\"sub\">Network status for ".toList =
      ("\" alt=\"psysmon logo\"".toList ++ ['>']) ++
        "</div><div><h1>PSYSMON</h1><p class=\"sub\">Network status for ".toList := by decide
  have hopen : Yields readStep .text "<div class=\"header\"><div class=\"glow\"><img class=\"logo\" src=\"".toList
      (tag "div class=\"header\"" ++ tag "div class=\"glow\"") (.tag "img class=\"logo\" src=\"".toList) := by
    decide
  have hending : '>' ∉ "\" alt=\"psysmon logo\"".toList := by decide
  have hsub : Reads "</div><div><h1>PSYSMON</h1><p class=\"sub\">Network status for ".toList
      (tag "/div" ++ tag "div" ++ tag "h1" ++ chars "PSYSMON".toList ++ tag "/h1" ++ tag "p class=\"sub\"" ++
        chars "Network status for ".toList) := by decide
  have hend : Reads "</p></div></div>".toList (tag "/p" ++ tag "/div" ++ tag "/div") := by decide
  have h := (((Reads.value hopen (gt_not_mem_esc logoUrl) hending).append hsub).append (reads_esc org)).append hend
  rw [hsplit]
  simp only [List.append_assoc] at h ⊢
  exact h

/-- The lines above the bar; the style sheet has no markup in it. -/
theorem reads_top {p : Frame} {refresh : Text} (hrefresh : '>' ∉ refresh) (hlt : '<' ∉ p.css) (hamp : '&' ∉ p.css) :
    Reads ((topHtml p.css p.org refresh p.logoUrl).flatMap (· ++ ['\n']))
      ((topTokens p refresh).flatMap (· ++ chars ['\n'])) := by
  have hnewline : Reads ['\n'] (chars ['\n']) := by decide
  have hdoctype : Reads "<!DOCTYPE html>".toList (tag "!DOCTYPE html") := by decide
  have hhtml : Reads "<html lang=\"en\"><head><meta charset=\"utf-8\">".toList
      (tag "html lang=\"en\"" ++ tag "head" ++ tag "meta charset=\"utf-8\"") := by decide
  unfold topHtml topTokens
  simp only [List.flatMap_cons, List.flatMap_nil]
  refine (hdoctype.append hnewline).append ((hhtml.append hnewline).append ?_)
  refine ((reads_refresh hrefresh).append hnewline).append (((reads_title p.org).append hnewline).append ?_)
  exact ((reads_style hlt hamp).append hnewline).append (((reads_banner p.org p.logoUrl).append hnewline).append .nil)

theorem reads_headerCells : Reads headerCells headerTokens := by decide

theorem reads_heading (label : Text) : Reads (headingHtml label) (headingTokens label) := by
  have hopen : Reads "<h2 class=\"group\">".toList (tag "h2 class=\"group\"") := by decide
  have hend : Reads "</h2>\n".toList (tag "/h2" ++ chars ['\n']) := by decide
  unfold headingHtml headingTokens
  split_ifs
  · exact (hopen.append (reads_esc label)).append hend
  · exact .nil

section Html

variable [Calendar] (now : ℚ)

/-- The cells of a row as they are read. -/
def rowTokens (r : Row) : Option (List (String × List Token)) := do
  let port ← portText r.1
  let count ← strInt r.2.downct
  let failed ← clockTime r.2.deathtime true
  let outage ← lastOutage r.2 now
  return [("td class=\"host\"", hostTokens r), ("td", chars (typeToName r.1.checkType)), ("td class=\"mono\"", chars port),
    ("td class=\"mono\"", chars count), ("td", chars (yesNo r.2.contacted)), ("td", badgeTokens r.2),
    ("td class=\"mono\"", chars failed), ("td class=\"mono\"", chars outage)]

/-- What a row says, column by column. -/
def rowCells (r : Row) : Option (List Text) := do
  let port ← portText r.1
  let count ← strInt r.2.downct
  let failed ← clockTime r.2.deathtime true
  let outage ← lastOutage r.2 now
  return [r.1.hostname ++ (if r.2.acked then " ACK".toList else []) ++ r.2.note.getD [], typeToName r.1.checkType, port,
    count, yesNo r.2.contacted, errtostr r.2.lastcheck, failed, outage]

/-- A row is read as its cells. -/
theorem reads_row {r : Row} {t : Text} (h : htmlRow now r = some t) :
    ∃ cs, rowTokens now r = some cs ∧ Reads t (tag "tr" ++ cs.flatMap cell ++ tag "/tr") := by
  simp only [htmlRow, Option.bind_eq_bind, Option.bind_eq_some_iff, Option.pure_def, Option.some.injEq] at h
  obtain ⟨port, hport, count, hcount, failed, hfailed, outage, houtage, rfl⟩ := h
  refine ⟨_, by simp only [rowTokens, hport, hcount, hfailed, houtage]; rfl, ?_⟩
  have htr : Reads "<tr>".toList (tag "tr") := by decide
  have hend : Reads "</tr>".toList (tag "/tr") := by decide
  have htd : Reads "<td>".toList (tag "td") := by decide
  have hmono : Reads "<td class=\"mono\">".toList (tag "td class=\"mono\"") := by decide
  have hhost : Reads "<td class=\"host\">".toList (tag "td class=\"host\"") := by decide
  have hyes : Reads (yesNo r.2.contacted) (chars (yesNo r.2.contacted)) := by
    cases r.2.contacted <;> decide
  have hcells := reads_cell hhost (reads_host r) <| reads_cell htd (reads_esc (typeToName r.1.checkType)) <|
    reads_cell hmono (reads_esc port) <| reads_cell hmono (reads_strInt hcount) <| reads_cell htd hyes <|
    reads_badge r.2 <| reads_cell hmono (reads_esc failed) <| reads_cell hmono (reads_esc outage) hend
  have h := htr.append hcells
  simpa only [List.flatMap_cons, List.flatMap_nil, List.append_assoc, List.append_nil] using h

/-! ### Parts -/

variable (p : Frame)

/-- **A part of the page as it is read**: the tags of the template, and the data as they are. -/
def Item.tokens : Item → Option (List Token)
  | .head => (strInt p.refresh).map fun refresh =>
    (topTokens p refresh).flatMap (· ++ chars ['\n']) ++ (tag "div class=\"bar\"" ++ tag "div")
  | .summary down =>
    if down ≠ 0 then (strInt down).map fun n => tag "span class=\"count down\"" ++ chars n ++
      (tag "/span" ++ chars " host".toList) ++ chars (if down ≠ 1 then "s".toList else []) ++ chars " down".toList
    else some (tag "span class=\"count ok\"" ++ chars "All clear".toList ++ tag "/span")
  | .bar => (clockTime now false).map fun clock => tag "/div" ++ tag "div" ++ chars "Updated ".toList ++ chars clock ++
    (tag "/div" ++ tag "/div") ++ chars ['\n'] ++ tag "div class=\"wrap\""
  | .panel => some (tag "div class=\"ok-panel\"" ++ tag "div class=\"big\"" ++ chars "✓".toList ++ tag "/div" ++ tag "div" ++
    chars "All systems operational".toList ++ tag "/div" ++ tag "/div")
  | .tableTop label => some (headingTokens label ++ (tag "table" ++ tag "tr") ++ headerTokens ++ (tag "/tr" ++ chars ['\n']))
  | .row r => (rowTokens now r).map fun cs => tag "tr" ++ cs.flatMap cell ++ tag "/tr"
  | .newline => some (chars ['\n'])
  | .tableEnd => some (chars ['\n'] ++ tag "/table")
  | .healthyTop n => (strInt n).map fun count => tag "details class=\"healthy\"" ++ tag "summary" ++
    chars "Healthy hosts (".toList ++ chars count ++ (chars ")".toList ++ tag "/summary" ++ chars ['\n'])
  | .healthyEnd => some (tag "/details")
  | .foot => (strInt p.refresh).map fun refresh => tag "/div" ++ chars ['\n'] ++ tag "div class=\"footer\"" ++
    chars (footerText p.version refresh) ++ tag "/div" ++ chars ['\n'] ++ (tag "/body" ++ tag "/html")

theorem reads_summary {down : ℕ} {t : Text} (h : summaryHtml down = some t) :
    ∃ ts, Item.tokens now p (.summary down) = some ts ∧ Reads t ts := by
  have hclear : Reads "<span class=\"count ok\">All clear</span>".toList
      (tag "span class=\"count ok\"" ++ chars "All clear".toList ++ tag "/span") := by decide
  have hopen : Reads "<span class=\"count down\">".toList (tag "span class=\"count down\"") := by decide
  have hhost : Reads "</span> host".toList (tag "/span" ++ chars " host".toList) := by decide
  have hplural : Reads (if down ≠ 1 then "s".toList else []) (chars (if down ≠ 1 then "s".toList else [])) := by
    split_ifs <;> decide
  have hdown : Reads " down".toList (chars " down".toList) := by decide
  unfold summaryHtml at h
  rw [Item.tokens]
  by_cases hne : down ≠ 0
  · rw [if_pos hne] at h ⊢
    obtain ⟨n, hn, h⟩ := Option.bind_eq_some_iff.mp h
    obtain rfl := Option.some.inj h
    rw [hn, Option.map_some]
    exact ⟨_, rfl, (((hopen.append (reads_strInt hn)).append hhost).append hplural).append hdown⟩
  · rw [if_neg hne] at h ⊢
    obtain rfl := Option.some.inj h
    exact ⟨_, rfl, hclear⟩

/-- **A part of the page** is read as its tokens. -/
theorem Item.reads {p : Frame} (hlt : '<' ∉ p.css) (hamp : '&' ∉ p.css) {item : Item} {t : Text}
    (h : item.text now p = some t) : ∃ ts, item.tokens now p = some ts ∧ Reads t ts := by
  have hnewline : Reads ['\n'] (chars ['\n']) := by decide
  have hdiv : Reads "</div>".toList (tag "/div") := by decide
  cases item with
  | head =>
    obtain ⟨refresh, hrefresh, rfl⟩ := Option.map_eq_some_iff.mp h
    have hbar : Reads "<div class=\"bar\"><div>".toList (tag "div class=\"bar\"" ++ tag "div") := by decide
    have hgt : '>' ∉ refresh := fun hmem => absurd (strInt_mem hrefresh _ hmem) (by decide)
    exact ⟨_, by rw [Item.tokens, hrefresh]; rfl, (reads_top hgt hlt hamp).append hbar⟩
  | summary down => exact reads_summary now p h
  | bar =>
    obtain ⟨clock, hclock, rfl⟩ := Option.map_eq_some_iff.mp h
    have hupdated : Reads "</div><div>Updated ".toList (tag "/div" ++ tag "div" ++ chars "Updated ".toList) := by
      decide
    have hdivs : Reads "</div></div>".toList (tag "/div" ++ tag "/div") := by decide
    have hwrap : Reads "<div class=\"wrap\">".toList (tag "div class=\"wrap\"") := by decide
    exact ⟨_, by rw [Item.tokens, hclock]; rfl,
      (((hupdated.append (reads_esc clock)).append hdivs).append hnewline).append hwrap⟩
  | panel =>
    obtain rfl := Option.some.inj h
    exact ⟨_, rfl, by decide⟩
  | tableTop label =>
    obtain rfl := Option.some.inj h
    have htable : Reads "<table><tr>".toList (tag "table" ++ tag "tr") := by decide
    have hend : Reads "</tr>\n".toList (tag "/tr" ++ chars ['\n']) := by decide
    exact ⟨_, rfl, (((reads_heading label).append htable).append reads_headerCells).append hend⟩
  | row r =>
    obtain ⟨cs, hcs, hread⟩ := reads_row now h
    exact ⟨_, by rw [Item.tokens, hcs]; rfl, hread⟩
  | newline =>
    obtain rfl := Option.some.inj h
    exact ⟨_, rfl, hnewline⟩
  | tableEnd =>
    obtain rfl := Option.some.inj h
    exact ⟨_, rfl, by decide⟩
  | healthyTop n =>
    obtain ⟨count, hcount, rfl⟩ := Option.map_eq_some_iff.mp h
    have hopen : Reads "<details class=\"healthy\"><summary>Healthy hosts (".toList
        (tag "details class=\"healthy\"" ++ tag "summary" ++ chars "Healthy hosts (".toList) := by decide
    have hend : Reads ")</summary>\n".toList (chars ")".toList ++ tag "/summary" ++ chars ['\n']) := by decide
    exact ⟨_, by rw [Item.tokens, hcount]; rfl, (hopen.append (reads_strInt hcount)).append hend⟩
  | healthyEnd =>
    obtain rfl := Option.some.inj h
    exact ⟨_, rfl, by decide⟩
  | foot =>
    obtain ⟨refresh, hrefresh, rfl⟩ := Option.map_eq_some_iff.mp h
    have hfooter : Reads "<div class=\"footer\">".toList (tag "div class=\"footer\"") := by decide
    have hend : Reads "</body></html>".toList (tag "/body" ++ tag "/html") := by decide
    exact ⟨_, by rw [Item.tokens, hrefresh]; rfl, ((((((hdiv.append hnewline).append hfooter).append
      (reads_esc (footerText p.version refresh))).append hdiv).append hnewline).append hend)⟩

theorem printItems_singleton (item : Item) : printItems now p [item] = item.text now p := by
  unfold printItems
  rw [List.mapM_cons]
  cases item.text now p <;> simp

/-- A document is read part by part. -/
theorem reads_items {p : Frame} (hlt : '<' ∉ p.css) (hamp : '&' ∉ p.css) {items : List Item} {page : Text}
    (h : printItems now p items = some page) :
    ∃ tss, items.mapM (Item.tokens now p) = some tss ∧ Reads page tss.flatten := by
  induction items generalizing page with
  | nil =>
    obtain rfl := Option.some.inj h
    exact ⟨[], rfl, .nil⟩
  | cons item items ih =>
    rw [← List.singleton_append, printItems_append] at h
    obtain ⟨t, ht, h⟩ := Option.bind_eq_some_iff.mp h
    obtain ⟨rest, hrest, rfl⟩ := Option.map_eq_some_iff.mp h
    rw [printItems_singleton] at ht
    obtain ⟨ts, hts, hread⟩ := Item.reads now hlt hamp ht
    obtain ⟨tss, htss, hreads⟩ := ih hrest
    exact ⟨ts :: tss, by rw [List.mapM_cons, hts, htss]; rfl, hread.append hreads⟩

/-- **The HTML page** is read as its document: the tags of the template around the data. -/
theorem html_reads_back {css version org logoUrl page : Text} {refresh : ℤ} {states : List Row} {showUpAlso : Bool}
    (hlt : '<' ∉ css) (hamp : '&' ∉ css)
    (h : renderHtml now css version states org refresh showUpAlso logoUrl = some page) :
    ∃ tss, (htmlDocument states showUpAlso).mapM (Item.tokens now ⟨css, version, org, refresh, logoUrl⟩) = some tss ∧
      Reads page tss.flatten := by
  rw [renderHtml_eq now ⟨css, version, org, refresh, logoUrl⟩] at h
  exact reads_items now hlt hamp h

end Html

/-- A host whose name and note are markup. -/
def hostileRow : Row :=
  ({ hostname := "</td></tr><b>&amp;".toList, checkType := .ssh, port := 22 },
    { lastcheck := 1, downct := 2, acked := true, note := some "<script>".toList })

theorem hostileRow_rendered : ∃ page : Text,
    @renderHtml Calendar.fixed 0 [] "1".toList [hostileRow] "a<b".toList 60 false "x\">".toList = some page :=
  Option.isSome_iff_exists.mp (by decide +kernel)

theorem html_reads_back_hostile : ∃ page : Text,
    @renderHtml Calendar.fixed 0 [] "1".toList [hostileRow] "a<b".toList 60 false "x\">".toList = some page ∧
    ∃ tss, (htmlDocument [hostileRow] false).mapM
        (@Item.tokens Calendar.fixed 0 ⟨[], "1".toList, "a<b".toList, 60, "x\">".toList⟩) = some tss ∧
      Reads page tss.flatten := by
  obtain ⟨page, hpage⟩ := hostileRow_rendered
  exact ⟨page, hpage, @html_reads_back Calendar.fixed _ _ _ _ _ _ _ _ _ (by decide) (by decide) hpage⟩

/-! ### The tables -/

theorem inline_host (r : Row) : (hostTokens r).all Token.inline = true := by
  have hnote : (tag "div class=\"note\"").all Token.inline = true := by decide
  have hdiv : (tag "/div").all Token.inline = true := by decide
  have hacked : (if r.2.acked then chars [' '] ++ tag "span class=\"badge acked\"" ++ chars "ACK".toList ++ tag "/span"
      else []).all Token.inline = true := by cases r.2.acked <;> decide
  unfold hostTokens
  rw [List.all_append, List.all_append, all_inline_chars, hacked]
  cases r.2.note with
  | none => rfl
  | some note =>
    dsimp only
    split_ifs
    · rw [List.all_append, List.all_append, hnote, hdiv, all_inline_chars]
      rfl
    · rfl

theorem inline_badge (s : NodeState) : (badgeTokens s).all Token.inline = true := by
  have hspan : (tag "/span").all Token.inline = true := by decide
  have hopen : Token.inline (.tag ("span class=\"badge ".toList ++ badge s ++ "\"".toList)) = true := by
    unfold badge
    split_ifs <;> decide
  unfold badgeTokens
  rw [List.all_append, List.all_append, all_inline_chars, hspan, List.all_cons, hopen]
  rfl

theorem textOf_host (r : Row) :
    textOf (hostTokens r) = r.1.hostname ++ (if r.2.acked then " ACK".toList else []) ++ r.2.note.getD [] := by
  have hacked : textOf (if r.2.acked then chars [' '] ++ tag "span class=\"badge acked\"" ++ chars "ACK".toList ++ tag "/span"
      else []) = if r.2.acked then " ACK".toList else [] := by cases r.2.acked <;> rfl
  unfold hostTokens
  rw [textOf_append, textOf_append, textOf_chars, hacked]
  congr 1
  cases r.2.note with
  | none => rfl
  | some note =>
    dsimp only
    split_ifs with hne
    · simp
    · rw [not_not.mp hne]
      rfl

theorem textOf_badge (s : NodeState) : textOf (badgeTokens s) = errtostr s.lastcheck := by
  have hopen (t : Text) : textOf [.tag t] = [] := rfl
  rw [badgeTokens, textOf_append, textOf_append, hopen, textOf_chars, textOf_tag, List.append_nil, List.nil_append]

/-- Nothing above the bar belongs to a table. -/
theorem inline_top (p : Frame) (refresh : Text) :
    ((topTokens p refresh).flatMap (· ++ chars ['\n'])).all Token.inline = true := by
  simp only [topTokens, List.flatMap_cons, List.flatMap_nil, List.all_append, all_inline_chars, Bool.and_true]
  rfl

section Tables

variable [Calendar] (now : ℚ)

/-- The cells of a row are read as what it says. -/
theorem yields_row {r : Row} {cs : List (String × List Token)} (h : rowTokens now r = some cs) :
    ∃ cells, rowCells now r = some cells ∧
      Yields tableStep ⟨[], none⟩ (tag "tr" ++ cs.flatMap cell ++ tag "/tr") [cells] ⟨[], none⟩ := by
  simp only [rowTokens, Option.bind_eq_bind, Option.bind_eq_some_iff, Option.pure_def, Option.some.injEq] at h
  obtain ⟨port, hport, count, hcount, failed, hfailed, outage, houtage, rfl⟩ := h
  refine ⟨_, by simp only [rowCells, hport, hcount, hfailed, houtage]; rfl, ?_⟩
  have htd : "td".toList.take 2 = "td".toList := by decide
  have hhost : "td class=\"host\"".toList.take 2 = "td".toList := by decide
  have hmono : "td class=\"mono\"".toList.take 2 = "td".toList := by decide
  have hbegin : Yields tableStep ⟨[], none⟩ (tag "tr") [] ⟨[], none⟩ := by decide
  have hcells : ∀ c ∈ [("td class=\"host\"", hostTokens r), ("td", chars (typeToName r.1.checkType)),
      ("td class=\"mono\"", chars port), ("td class=\"mono\"", chars count), ("td", chars (yesNo r.2.contacted)),
      ("td", badgeTokens r.2), ("td class=\"mono\"", chars failed), ("td class=\"mono\"", chars outage)],
      c.1.toList.take 2 = "td".toList ∧ c.2.all Token.inline = true := by
    simp only [List.forall_mem_cons, htd, hhost, hmono, inline_host, inline_badge, all_inline_chars, true_and]
    exact List.forall_mem_nil _
  have hcells := yields_cells hcells []
  simp only [List.map_cons, List.map_nil, textOf_host, textOf_chars, textOf_badge] at hcells
  exact (hbegin.append hcells).append rfl

/-- The rows of a part of the page. -/
theorem Item.yields {p : Frame} {item : Item} {ts : List Token} (h : item.tokens now p = some ts) :
    ∃ rows, item.row?.toList.mapM (rowCells now) = some rows ∧ Yields tableStep ⟨[], none⟩ ts rows ⟨[], none⟩ := by
  have hinline {ts : List Token} (hts : ts.all Token.inline = true) :
      ∃ rows, ([] : List Row).mapM (rowCells now) = some rows ∧ Yields tableStep ⟨[], none⟩ ts rows ⟨[], none⟩ :=
    ⟨[], rfl, yields_inline hts _⟩
  cases item with
  | head =>
    obtain ⟨refresh, -, rfl⟩ := Option.map_eq_some_iff.mp h
    exact hinline (by rw [List.all_append, inline_top]; rfl)
  | summary down =>
    rw [Item.tokens] at h
    by_cases hne : down ≠ 0
    · rw [if_pos hne] at h
      obtain ⟨n, -, rfl⟩ := Option.map_eq_some_iff.mp h
      exact hinline (by simp only [List.all_append, all_inline_chars, Bool.and_true]; rfl)
    · rw [if_neg hne] at h
      obtain rfl := Option.some.inj h
      exact hinline (by decide)
  | bar =>
    obtain ⟨clock, -, rfl⟩ := Option.map_eq_some_iff.mp h
    exact hinline (by simp only [List.all_append, all_inline_chars, Bool.and_true]; rfl)
  | panel =>
    obtain rfl := Option.some.inj h
    exact hinline (by decide)
  | tableTop label =>
    obtain rfl := Option.some.inj h
    have hheading : (headingTokens label).all Token.inline = true := by
      unfold headingTokens
      split_ifs
      · simp only [List.all_append, all_inline_chars, Bool.and_true]
        rfl
      · rfl
    -- the row of headings has no cells
    have htop : Yields tableStep ⟨[], none⟩ (tag "table" ++ tag "tr" ++ headerTokens ++ (tag "/tr" ++ chars ['\n'])) []
        ⟨[], none⟩ := by decide
    refine ⟨[], rfl, ?_⟩
    have hread := (yields_inline hheading ⟨[], none⟩).append htop
    simp only [List.append_assoc] at hread ⊢
    exact hread
  | row r =>
    obtain ⟨cs, hcs, rfl⟩ := Option.map_eq_some_iff.mp h
    obtain ⟨cells, hcells, hread⟩ := yields_row now hcs
    exact ⟨[cells], by rw [Item.row?, Option.toList_some, List.mapM_cons, hcells]; rfl, hread⟩
  | newline =>
    obtain rfl := Option.some.inj h
    exact hinline (by decide)
  | tableEnd =>
    obtain rfl := Option.some.inj h
    exact hinline (by decide)
  | healthyTop n =>
    obtain ⟨count, -, rfl⟩ := Option.map_eq_some_iff.mp h
    exact hinline (by simp only [List.all_append, all_inline_chars, Bool.and_true]; rfl)
  | healthyEnd =>
    obtain rfl := Option.some.inj h
    exact hinline (by decide)
  | foot =>
    obtain ⟨refresh, -, rfl⟩ := Option.map_eq_some_iff.mp h
    exact hinline (by simp only [List.all_append, all_inline_chars, Bool.and_true]; rfl)

theorem yields_items {p : Frame} {items : List Item} {tss : List (List Token)}
    (h : items.mapM (Item.tokens now p) = some tss) :
    ∃ rows, (items.filterMap Item.row?).mapM (rowCells now) = some rows ∧
      Yields tableStep ⟨[], none⟩ tss.flatten rows ⟨[], none⟩ := by
  induction items generalizing tss with
  | nil =>
    obtain rfl := Option.some.inj h
    exact ⟨[], rfl, .nil⟩
  | cons item items ih =>
    rw [List.mapM_cons] at h
    obtain ⟨ts, hts, h⟩ := Option.bind_eq_some_iff.mp h
    obtain ⟨tss, htss, h⟩ := Option.bind_eq_some_iff.mp h
    obtain rfl := Option.some.inj h
    obtain ⟨rows, hrows, hread⟩ := Item.yields now hts
    obtain ⟨rest, hrest, hreads⟩ := ih htss
    have hcons : (item :: items).filterMap Item.row? = item.row?.toList ++ items.filterMap Item.row? := by
      rw [List.filterMap_cons]
      cases item.row? <;> rfl
    exact ⟨rows ++ rest, by rw [hcons, List.mapM_append, hrows, hrest]; rfl, hread.append hreads⟩

/-- **The tables of the HTML page** are read back: a row of eight cells for every host to be shown, and no other row, with
what the host's row says in them, whatever characters its name and its note have. -/
theorem html_rows_read_back {css version org logoUrl page : Text} {refresh : ℤ} {states : List Row} {showUpAlso : Bool}
    (hlt : '<' ∉ css) (hamp : '&' ∉ css)
    (h : renderHtml now css version states org refresh showUpAlso logoUrl = some page) :
    ∃ rows : List Row, rows.Perm (shownRows states showUpAlso) ∧ rows.mapM (rowCells now) = some (tableRows page) := by
  rw [renderHtml_eq now ⟨css, version, org, refresh, logoUrl⟩] at h
  obtain ⟨tss, htss, hread⟩ := reads_items now hlt hamp h
  obtain ⟨rows, hrows, htable⟩ := yields_items now htss
  have hpage : tableRows page = rows := by
    rw [tableRows, show run readStep .text page = _ from hread, show run tableStep _ tss.flatten = _ from htable]
  exact ⟨_, rows_htmlDocument states showUpAlso, hrows.trans (congrArg some hpage.symm)⟩

end Tables

theorem html_rows_read_back_hostile : ∃ page : Text,
    @renderHtml Calendar.fixed 0 [] "1".toList [hostileRow] "a<b".toList 60 false "x\">".toList = some page ∧
    ∃ rows : List Row, rows.Perm (shownRows [hostileRow] false) ∧
      rows.mapM (@rowCells Calendar.fixed 0) = some (tableRows page) := by
  obtain ⟨page, hpage⟩ := hostileRow_rendered
  exact ⟨page, hpage, @html_rows_read_back Calendar.fixed _ _ _ _ _ _ _ _ _ (by decide) (by decide) hpage⟩

end Psysmon
