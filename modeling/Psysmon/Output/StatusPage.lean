import Psysmon.Lib.Buckets
import Psysmon.Output.Json

/-!
# Psysmon.Output.StatusPage — the status page (`output/statuspage.py`, `timefmt.py`)

The page lists the nodes that are down, and on request those that are up, in sections by group; suppressed nodes are left
out.  A page with a time that `time.localtime` refuses, or with an integer that has too many digits, is not rendered: the
call raises, and the renderers here return `none`.

`_log_heartbeat` of `daemon.py` counts the same nodes.
-/

namespace Psysmon

open Lib Number

/-- A row of `node_states()`. -/
abbrev Row := Node × NodeState

/-! ### Formats -/

/-- The time zone and the locale of the daemon. -/
class Calendar where
  /-- `time.strftime("%b %d %H:%M:%S", time.localtime(epoch))`; `none` where it raises. -/
  format : PyFloat → Option Text
  format_inf : ∀ neg, format (.inf neg) = none
  format_nan : format .nan = none
  oneLine : ∀ {epoch t}, format epoch = some t → '\n' ∉ t

/-- A calendar to evaluate with: every instant is the same. -/
@[reducible] def Calendar.fixed : Calendar where
  format
    | .finite _ => some "Jan 01 00:00:00".toList
    | _ => none
  format_inf _ := rfl
  format_nan := rfl
  oneLine {epoch t} h := by
    cases epoch with
    | finite q =>
      obtain rfl := Option.some.inj h
      decide
    | inf neg => cases h
    | nan => cases h

/-- The text of `str(n)`; `none` is `ValueError`. -/
def strInt (n : ℤ) : Option Text := if Printable n then some (intText n) else none

/-- `f"{text:<n}"`. -/
def ljust (n : ℕ) (t : Text) : Text := t ++ List.replicate (n - t.length) ' '

/-- `f"{n:02d}"`. -/
def pad2 (n : ℕ) : Text := if n < 10 then '0' :: natText n else natText n

/-- `now - since`, of two floats. -/
def sinceOf (now : ℚ) : PyFloat → PyFloat
  | .finite q =>
    match Binary64.round (now - q) with
    | some v => .finite v
    | none => .inf (now < q)
  | .inf neg => .inf (!neg)
  | .nan => .nan

/-- `int(x)` of a rational. -/
def truncate (q : ℚ) : ℤ := if 0 ≤ q then ⌊q⌋ else ⌈q⌉

/-- `duration`: `int` raises for an infinity or a NaN. -/
def duration : PyFloat → Option Text
  | .finite q =>
    let secs := (max 0 (truncate q)).toNat
    some (pad2 (secs / 86400) ++ ":".toList ++ pad2 (secs % 86400 / 3600) ++ ":".toList ++ pad2 (secs % 3600 / 60))
  | _ => none

/-- `elapsed`. -/
def elapsed (since : PyFloat) (now : ℚ) : Option Text := duration (sinceOf now since)

/-- `type_to_name`. -/
def typeToName : CheckType → Text
  | .dns => "authdns".toList
  | .http => "www".toList
  | t => t.value

/-- `_port`. -/
def portText (n : Node) : Option Text := if n.port ≠ 0 then strInt n.port else some "—".toList

/-- `_last_outage`. -/
def lastOutage (s : NodeState) (now : ℚ) : Option Text :=
  if s.lastUp = .finite 0 then some "Never".toList else elapsed s.lastUp now

def yesNo (b : Bool) : Text := if b then "Yes".toList else "No".toList

/-- `"\n".join`. -/
def joinLines (ls : List Text) : Text := List.intercalate ['\n'] ls

/-! ### Sections -/

/-- `_partition`: the rows that are not suppressed, down and up. -/
def partition (states : List Row) : List Row × List Row :=
  states.foldl (fun p r =>
    if r.2.suppressed then p
    else if isUp r.2.lastcheck then (p.1, p.2 ++ [r])
    else (p.1 ++ [r], p.2)) ([], [])

def ungrouped : Text := "Ungrouped".toList

/-- `[(g, buckets[g]) for g in sorted(buckets)]`. -/
def sectionsOf (bs : List (Text × List Row)) : List (Text × List Row) :=
  ((bs.map Prod.fst).insertionSort (· ≤ ·)).map fun g => (g, (bs.lookup g).getD [])

/-- `_grouped`. -/
def grouped (rows : List Row) : List (Text × List Row) :=
  let bs := buckets (fun r => r.1.group) rows
  if bs.all fun b => b.1 = [] then [([], rows)]
  else
    let noGroup := (bs.lookup []).getD []
    let bs := bs.filter fun b => b.1 ≠ []
    if noGroup ≠ [] ∧ ungrouped ∈ bs.map Prod.fst then
      -- the operator has named a group "Ungrouped": `no_group` joins it
      sectionsOf (bs.map fun b => (b.1, if b.1 = ungrouped then b.2 ++ noGroup else b.2))
    else if noGroup ≠ [] then sectionsOf bs ++ [(ungrouped, noGroup)]
    else sectionsOf bs

section Pages

variable [Calendar] (now : ℚ)

/-- `clock_time`. -/
def clockTime (epoch : PyFloat) (neverIfZero : Bool) : Option Text :=
  if neverIfZero ∧ epoch = .finite 0 then some "Never".toList else Calendar.format epoch

/-! ### Text -/

/-- The mark of an acknowledged outage and the note. -/
def extraText (s : NodeState) : Text :=
  (if s.acked then "  [ACK]".toList else []) ++
    match s.note with
    | some note => if note ≠ [] then "  note: ".toList ++ note else []
    | none => []

/-- The line that `_emit_text_rows` appends for a row. -/
def textRow (r : Row) : Option Text := do
  let port ← portText r.1
  let count ← strInt r.2.downct
  let failed ← clockTime r.2.deathtime true
  let outage ← lastOutage r.2 now
  return ljust 28 r.1.hostname ++ ljust 8 (typeToName r.1.checkType) ++ ljust 6 port ++ ljust 5 count ++
    ljust 5 (yesNo r.2.contacted) ++ ljust 16 (errtostr r.2.lastcheck) ++ ljust 16 failed ++ outage ++ extraText r.2

/-- `_emit_text_rows`. -/
def emitTextRows (lines : List Text) (rows : List Row) : Option (List Text) :=
  (grouped rows).foldlM (fun lines s => do
    let lines := if s.1 ≠ [] then lines ++ ["== ".toList ++ s.1 ++ " ==".toList] else lines
    s.2.foldlM (fun lines r => do return lines ++ [← textRow now r]) lines) lines

def titleText (org : Text) (clock : Text) : Text := "Network status for ".toList ++ org ++ " — ".toList ++ clock

def columnsText : Text :=
  ljust 28 "Hostname".toList ++ ljust 8 "Type".toList ++ ljust 6 "Port".toList ++ ljust 5 "Cnt".toList ++
    ljust 5 "Noti".toList ++ ljust 16 "Status".toList ++ ljust 16 "Time Failed".toList ++ "Last Outage".toList

/-- `render_text`. -/
def renderText (states : List Row) (org : Text) (showUpAlso : Bool) : Option Text := do
  let (down, up) := partition states
  let lines := [titleText org (← clockTime now false), columnsText]
  let lines ← emitTextRows now lines down
  let lines := if down = [] then lines ++ ["All systems operational.".toList] else lines
  let lines ←
    if showUpAlso ∧ up ≠ [] then
      emitTextRows now (lines ++ [[], "-- Healthy hosts (".toList ++ (← strInt up.length) ++ ") --".toList]) up
    else pure lines
  return joinLines lines ++ ['\n']

/-! ### HTML -/

def escapeChar (c : Char) : Text :=
  if c = '&' then "&amp;".toList
  else if c = '<' then "&lt;".toList
  else if c = '>' then "&gt;".toList
  else if c = '"' then "&quot;".toList
  else if c = '\'' then "&#x27;".toList
  else [c]

/-- `_esc`. -/
def esc (t : Text) : Text := t.flatMap escapeChar

/-- The class of the status badge. -/
def badge (s : NodeState) : Text :=
  if isUp s.lastcheck then "up".toList
  else if s.lastcheck = Status.degraded.code then "degraded".toList
  else "down".toList

/-- The host cell of a row. -/
def hostHtml (r : Row) : Text :=
  esc r.1.hostname ++ (if r.2.acked then " <span class=\"badge acked\">ACK</span>".toList else []) ++
    match r.2.note with
    | some note => if note ≠ [] then "<div class=\"note\">".toList ++ esc note ++ "</div>".toList else []
    | none => []

/-- `_html_row`. -/
def htmlRow (r : Row) : Option Text := do
  let port ← portText r.1
  let count ← strInt r.2.downct
  let failed ← clockTime r.2.deathtime true
  let outage ← lastOutage r.2 now
  return "<tr>".toList ++
    "<td class=\"host\">".toList ++ hostHtml r ++ "</td>".toList ++
    "<td>".toList ++ esc (typeToName r.1.checkType) ++ "</td>".toList ++
    "<td class=\"mono\">".toList ++ esc port ++ "</td>".toList ++
    "<td class=\"mono\">".toList ++ count ++ "</td>".toList ++
    "<td>".toList ++ yesNo r.2.contacted ++ "</td>".toList ++
    "<td><span class=\"badge ".toList ++ badge r.2 ++ "\">".toList ++ esc (errtostr r.2.lastcheck) ++ "</span></td>".toList ++
    "<td class=\"mono\">".toList ++ esc failed ++ "</td>".toList ++
    "<td class=\"mono\">".toList ++ esc outage ++ "</td>".toList ++ "</tr>".toList

/-- The header cells, from `_COLUMNS`. -/
def headerCells : Text :=
  ["HostName", "Type", "Port", "Count", "Notified", "Status", "Time Failed", "Last Outage"].flatMap fun h =>
    "<th>".toList ++ h.toList ++ "</th>".toList

def headingHtml (label : Text) : Text :=
  if label ≠ [] then "<h2 class=\"group\">".toList ++ esc label ++ "</h2>\n".toList else []

/-- The table of a section. -/
def renderTable (s : Text × List Row) : Option Text := do
  let body ← s.2.mapM (htmlRow now)
  return headingHtml s.1 ++ "<table><tr>".toList ++ headerCells ++ "</tr>\n".toList ++ joinLines body ++ "\n</table>".toList

/-- `_render_tables`. -/
def renderTables (rows : List Row) : Option Text := do
  let sections ← (grouped rows).mapM (renderTable now)
  return sections.flatten

def okPanel : Text :=
  "<div class=\"ok-panel\"><div class=\"big\">✓</div><div>All systems operational</div></div>".toList

/-- The summary in the bar: the number of hosts down. -/
def summaryHtml (down : ℕ) : Option Text :=
  if down ≠ 0 then do
    return "<span class=\"count down\">".toList ++ (← strInt down) ++ "</span> host".toList ++
      (if down ≠ 1 then "s".toList else []) ++ " down".toList
  else some "<span class=\"count ok\">All clear</span>".toList

/-- The tables of the hosts that are down, or that there are none. -/
def badHtml (down : List Row) : Option Text := if down ≠ [] then renderTables now down else some okPanel

/-- The collapsed section of the hosts that are up. -/
def healthyHtml (up : List Row) (showUpAlso : Bool) : Option Text :=
  if showUpAlso ∧ up ≠ [] then do
    let count ← strInt up.length
    let tables ← renderTables now up
    return "<details class=\"healthy\"><summary>Healthy hosts (".toList ++ count ++ ")</summary>\n".toList ++ tables ++
      "</details>".toList
  else some []

/-- The lines of the page above its bar. -/
def topHtml (css org refresh logoUrl : Text) : List Text :=
  ["<!DOCTYPE html>".toList,
    "<html lang=\"en\"><head><meta charset=\"utf-8\">".toList,
    "<meta http-equiv=\"refresh\" content=\"".toList ++ refresh ++ "\">".toList,
    "<title>Network Status — ".toList ++ esc org ++ "</title>".toList,
    "<style>".toList ++ css ++ "</style></head><body>".toList,
    "<div class=\"header\"><div class=\"glow\"><img class=\"logo\" src=\"".toList ++ esc logoUrl ++
      "\" alt=\"psysmon logo\"></div><div><h1>PSYSMON</h1><p class=\"sub\">Network status for ".toList ++ esc org ++
      "</p></div></div>".toList]

def footerText (version refresh : Text) : Text :=
  "psysmon ".toList ++ version ++ " · auto-refresh ".toList ++ refresh ++ "s".toList

variable (css version : Text)

/-- `render_html`; `css` is `_CSS` and `version` is `__version__`. -/
def renderHtml (states : List Row) (org : Text) (refresh : ℤ) (showUpAlso : Bool) (logoUrl : Text) : Option Text := do
  let (down, up) := partition states
  let bad ← badHtml now down
  let healthy ← healthyHtml now up showUpAlso
  let content := "<div class=\"wrap\">".toList ++ bad ++ healthy ++ "</div>".toList
  let summary ← summaryHtml down.length
  let refresh ← strInt refresh
  let clock ← clockTime now false
  return joinLines (topHtml css org refresh logoUrl ++
    ["<div class=\"bar\"><div>".toList ++ summary ++ "</div><div>Updated ".toList ++ esc clock ++ "</div></div>".toList,
      content,
      "<div class=\"footer\">".toList ++ esc (footerText version refresh) ++ "</div>".toList,
      "</body></html>".toList])

end Pages

/-! ### The heartbeat -/

/-- The numbers of the periodic log line. -/
structure Heartbeat where
  total : ℕ
  up : ℤ
  down : ℕ
  suppressed : ℕ

/-- `_log_heartbeat`. -/
def logHeartbeat (states : List Row) : Heartbeat :=
  let total := states.length
  let suppressed := states.countP fun r => r.2.suppressed
  let down := states.countP fun r => !r.2.suppressed && !isUp r.2.lastcheck
  ⟨total, total - suppressed - down, down, suppressed⟩

/-- The line. -/
def Heartbeat.line (h : Heartbeat) : Text :=
  "monitoring ".toList ++ natText h.total ++ " hosts - ".toList ++ intText h.up ++ " up, ".toList ++ natText h.down ++
    " down, ".toList ++ natText h.suppressed ++ " suppressed".toList

end Psysmon
