import Psysmon.Config.Newlines
import Psysmon.Daemon
import Psysmon.Output.Complete

/-!
# Psysmon.Output.TextLines — the lines of the text page

The text page joins its lines with newlines and escapes nothing.  Of what a line shows, the hostname and the group come from
a parser and hold no newline, and the numbers, times and status texts hold none either.  A note may hold one: `set_note` and
`import_state` take any string.

* `newline_mem_textRow`: a row holds a newline exactly if its note does.
* `Sched.On.unbroken`: the names of the nodes that a reachable scheduler monitors.
* `textPage_lines_iff`: the page splits into the lines of its document exactly if no note that it shows has a newline.
-/

namespace Psysmon

open Lib Text Number

/-- What `node_states` returns. -/
def Sched.rows (S : Sched) : List Row :=
  let S := S.nodeStates
  S.scheduled.map fun r => ((S.objs r).node, (S.objs r).state)

/-! ### Newlines in what is printed -/

theorem bind4_eq_some_iff {a b c d : Option Text} {f : Text → Text → Text → Text → Text} {t : Text} :
    (do let w ← a; let x ← b; let y ← c; let z ← d; return f w x y z) = some t ↔
      ∃ w x y z, a = some w ∧ b = some x ∧ c = some y ∧ d = some z ∧ f w x y z = t := by
  cases a <;> cases b <;> cases c <;> cases d <;> simp

theorem newline_mem_ljust {n : ℕ} {t : Text} : '\n' ∈ ljust n t ↔ '\n' ∈ t := by
  rw [ljust, List.mem_append, or_iff_left]
  exact fun h => absurd (List.eq_of_mem_replicate h) (by decide)

theorem newline_not_mem_natText (n : ℕ) : '\n' ∉ natText n := fun h => absurd (mem_natText _ h) (by decide)

theorem newline_not_mem_strInt {n : ℤ} {t : Text} (h : strInt n = some t) : '\n' ∉ t := by
  unfold strInt at h
  split at h
  · obtain rfl := Option.some.inj h
    exact fun hm => absurd (mem_intText _ hm) (by decide)
  · cases h

theorem newline_not_mem_portText {n : Node} {t : Text} (h : portText n = some t) : '\n' ∉ t := by
  unfold portText at h
  split at h
  · exact newline_not_mem_strInt h
  · obtain rfl := Option.some.inj h
    decide

theorem newline_not_mem_pad2 (n : ℕ) : '\n' ∉ pad2 n := by
  unfold pad2
  split
  · rw [List.mem_cons, not_or]
    exact ⟨by decide, newline_not_mem_natText n⟩
  · exact newline_not_mem_natText n

theorem newline_not_mem_lastOutage {s : NodeState} {now : ℚ} {t : Text} (h : lastOutage s now = some t) : '\n' ∉ t := by
  unfold lastOutage elapsed at h
  split at h
  · obtain rfl := Option.some.inj h
    decide
  · cases hd : sinceOf now s.lastUp with
    | finite q =>
      rw [hd] at h
      obtain rfl := Option.some.inj h
      simp only [List.mem_append, newline_not_mem_pad2, not_or, not_false_eq_true, true_and, and_true]
      exact ⟨by decide, by decide⟩
    | inf neg => rw [hd] at h; cases h
    | nan => rw [hd] at h; cases h

theorem newline_not_mem_typeToName (t : CheckType) : '\n' ∉ typeToName t := by
  cases t <;> decide

theorem newline_not_mem_yesNo (b : Bool) : '\n' ∉ yesNo b := by
  cases b <;> decide

theorem newline_not_mem_errtostr (code : ℤ) : '\n' ∉ errtostr code := by
  unfold errtostr
  split
  · rename_i s _
    cases s <;> decide
  · decide

theorem newline_not_mem_columnsText : '\n' ∉ columnsText := by decide +kernel

theorem heading_mem_textLines {rows : List Row} {label : Text} (h : Line.heading label ∈ textLines rows) :
    label = ungrouped ∨ ∃ r ∈ rows, r.1.group = label := by
  obtain ⟨s, hs, hline⟩ := List.mem_flatMap.mp h
  rcases List.mem_append.mp hline with hline | hline
  · split_ifs at hline with hne
    · obtain rfl : label = s.1 := by simpa using hline
      obtain ⟨r, hr, hlabel⟩ := (mem_labels hne).mp (List.mem_map_of_mem hs)
      rw [← hlabel, labelIn]
      split
      · exact .inl rfl
      · exact .inr ⟨r, hr, rfl⟩
    · cases hline
  · simp at hline

theorem newline_not_mem_heading {states : List Row} {showUpAlso : Bool} (hrows : ∀ r ∈ states, r.1.Unbroken) {label : Text}
    (h : Line.heading label ∈ textDocument states showUpAlso) : '\n' ∉ label := by
  have hlabel {p : Row → Bool} (h : Line.heading label ∈ textLines (states.filter p)) : '\n' ∉ label := by
    rcases heading_mem_textLines h with rfl | ⟨r, hr, rfl⟩
    · decide
    · exact (hrows r (List.mem_of_mem_filter hr)).group
  unfold textDocument at h
  dsimp only at h
  rcases List.mem_append.mp h with h | h
  · rcases List.mem_append.mp h with h | h
    · rcases List.mem_append.mp h with h | h
      · simp at h
      · exact hlabel h
    · split_ifs at h <;> simp at h
  · split_ifs at h
    · rcases List.mem_append.mp h with h | h
      · simp at h
      · exact hlabel h
    · cases h

theorem newline_mem_titleText {org clock : Text} (hclock : '\n' ∉ clock) : '\n' ∈ titleText org clock ↔ '\n' ∈ org := by
  have hfirst : '\n' ∉ "Network status for ".toList := by decide
  have hdash : '\n' ∉ " — ".toList := by decide
  unfold titleText
  generalize "Network status for ".toList = first at hfirst ⊢
  generalize " — ".toList = dash at hdash ⊢
  simp [hfirst, hdash, hclock]

/-- The note is printed as it is. -/
theorem newline_mem_extraText {s : NodeState} : '\n' ∈ extraText s ↔ ∃ note, s.note = some note ∧ '\n' ∈ note := by
  have hack : '\n' ∉ (if s.acked then "  [ACK]".toList else []) := by
    split <;> decide
  rw [extraText, List.mem_append, or_iff_right hack]
  cases s.note with
  | none => exact iff_of_false List.not_mem_nil (by rintro ⟨note, hn, -⟩; cases hn)
  | some note =>
    dsimp only
    split
    · rw [List.mem_append, or_iff_right (by decide)]
      exact ⟨fun h => ⟨note, rfl, h⟩, fun ⟨_, hn, h⟩ => Option.some.inj hn ▸ h⟩
    · rename_i hne
      refine iff_of_false List.not_mem_nil ?_
      rintro ⟨note', hn, h⟩
      obtain rfl := Option.some.inj hn
      exact hne (List.ne_nil_of_mem h)

theorem mem_of_mapM {α β : Type} {f : α → Option β} {l : List α} {bs : List β} (h : l.mapM f = some bs) {b : β} :
    b ∈ bs ↔ ∃ a ∈ l, f a = some b := by
  induction l generalizing bs with
  | nil =>
    obtain rfl : [] = bs := Option.some.inj h
    simp
  | cons a l ih =>
    rw [List.mapM_cons] at h
    obtain ⟨x, hx, h⟩ := Option.bind_eq_some_iff.mp h
    obtain ⟨xs, hxs, h⟩ := Option.bind_eq_some_iff.mp h
    obtain rfl := Option.some.inj h
    simp [ih hxs, hx, eq_comm]

section Lines

variable [Calendar] {now : ℚ}

theorem newline_not_mem_clockTime {epoch : PyFloat} {neverIfZero : Bool} {t : Text}
    (h : clockTime epoch neverIfZero = some t) : '\n' ∉ t := by
  unfold clockTime at h
  split at h
  · obtain rfl := Option.some.inj h
    decide
  · exact Calendar.oneLine h

/-- **A row** holds a newline exactly if its note does. -/
theorem newline_mem_textRow {r : Row} (hr : r.1.Unbroken) {t : Text} (h : textRow now r = some t) :
    '\n' ∈ t ↔ ∃ note, r.2.note = some note ∧ '\n' ∈ note := by
  obtain ⟨port, count, failed, outage, hport, hcount, hfailed, houtage, rfl⟩ := bind4_eq_some_iff.mp h
  simp only [List.mem_append, newline_mem_ljust, hr.hostname, newline_not_mem_typeToName, newline_not_mem_portText hport,
    newline_not_mem_strInt hcount, newline_not_mem_yesNo, newline_not_mem_errtostr, newline_not_mem_clockTime hfailed,
    newline_not_mem_lastOutage houtage, false_or]
  exact newline_mem_extraText

/-- The lines of the page that hold a newline. -/
theorem newline_mem_line {org : Text} {states : List Row} {showUpAlso : Bool} (hrows : ∀ r ∈ states, r.1.Unbroken)
    {line : Line} (hline : line ∈ textDocument states showUpAlso) {t : Text} (h : line.text now org = some t) :
    '\n' ∈ t ↔ (line = .title ∧ '\n' ∈ org) ∨ ∃ r note, line = .row r ∧ r.2.note = some note ∧ '\n' ∈ note := by
  cases line with
  | title =>
    obtain ⟨clock, hclock, rfl⟩ := Option.map_eq_some_iff.mp h
    rw [newline_mem_titleText (newline_not_mem_clockTime hclock)]
    simp
  | columns =>
    have ht : columnsText = t := Option.some.inj h
    rw [← ht]
    exact iff_of_false newline_not_mem_columnsText (by simp)
  | operational =>
    obtain rfl := Option.some.inj h
    exact iff_of_false (by decide) (by simp)
  | blank =>
    obtain rfl := Option.some.inj h
    exact iff_of_false List.not_mem_nil (by simp)
  | healthy n =>
    obtain ⟨count, hcount, rfl⟩ := Option.map_eq_some_iff.mp h
    refine iff_of_false ?_ (by simp)
    simp only [List.mem_append, newline_not_mem_strInt hcount, or_false]
    exact not_or.mpr ⟨by decide, by decide⟩
  | heading label =>
    obtain rfl := Option.some.inj h
    refine iff_of_false ?_ (by simp)
    have hlabel : '\n' ∉ label := newline_not_mem_heading hrows hline
    simp only [List.mem_append, hlabel, or_false]
    exact not_or.mpr ⟨by decide, by decide⟩
  | row r =>
    have hr : r ∈ states := List.mem_of_mem_filter (row_mem_textDocument.mp hline)
    rw [newline_mem_textRow (hrows r hr) h]
    simp

/-- The lines of a page that is rendered. -/
theorem renderText_eq_some_iff {org : Text} {states : List Row} {showUpAlso : Bool} {page : Text} :
    renderText now states org showUpAlso = some page ↔
      ∃ texts, (textDocument states showUpAlso).mapM (Line.text now org) = some texts ∧ page = joinLines texts ++ ['\n'] := by
  rw [renderText_eq, Option.map_eq_some_iff]
  exact exists_congr fun texts => and_congr_right fun _ => eq_comm

end Lines

/-! ### Reachable schedulers -/

/-- The names of the nodes that a parser delivers. -/
theorem Daemon.unbroken_loadRoots [Python] {text : Text} {z : ℤ} {cfg : ParseResult Forest}
    (h : loadRoots text z = .ok cfg) (i : ℕ) : (cfg.roots.node i).Unbroken := by
  unfold loadRoots at h
  split at h
  · exact Modern.unbroken_parse h i
  · cases hp : Legacy.parse text z with
    | error e => rw [hp] at h; cases h
    | ok r =>
      rw [hp] at h
      obtain rfl := Except.ok.inj h
      show ((r.roots.objects 0)[i]?.map Prod.fst |>.getD _).Unbroken
      rw [← List.getElem?_map, Siblings.map_objects]
      cases hn : r.roots.nodes[i]? with
      | none => exact ⟨List.not_mem_nil, List.not_mem_nil⟩
      | some n => exact Legacy.unbroken_parse hp (List.mem_of_getElem? hn)

theorem Sched.On.unbroken {F : Forest} {S : Sched} (h : Sched.On F S) (hF : ∀ i, (F.node i).Unbroken) :
    ∀ r ∈ S.rows, r.1.Unbroken := by
  intro r hr
  obtain ⟨q, hq, rfl⟩ := List.mem_map.mp hr
  obtain ⟨base, hb⟩ := (h.step (a := .nodeStates) rfl).built
  obtain ⟨i, o, ho, rfl⟩ := hb.mem_scheduled.mp hq
  show ((S.nodeStates.objs (base + i)).node).Unbroken
  rw [hb.node i o ho]
  exact hF o.1

/-- The page splits at its newlines into the lines of its document, and among these is one line for every node that is to
be shown. -/
structure OneLineEach [Calendar] (now : ℚ) (org : Text) (states : List Row) (showUpAlso : Bool) (page : Text) : Prop where
  lines : ∃ texts, (textDocument states showUpAlso).mapM (Line.text now org) = some texts ∧
    page.splitOn '\n' = texts ++ [[]]
  rows : ((textDocument states showUpAlso).filterMap Line.row?).Perm (shownRows states showUpAlso)

/-- **The lines of the text page.**  The page of a reachable scheduler whose nodes come from a parser has one line for each
of its parts exactly if neither the title nor a note that it shows holds a newline. -/
theorem textPage_lines_iff [Python] [Calendar] {text : Text} {z : ℤ} {cfg : ParseResult Forest}
    (hcfg : Daemon.loadRoots text z = .ok cfg) {S : Sched} (hS : Sched.On cfg.roots S) {now : ℚ} {org : Text}
    {showUpAlso : Bool} {page : Text} (hpage : renderText now S.rows org showUpAlso = some page) :
    OneLineEach now org S.rows showUpAlso page ↔
      '\n' ∉ org ∧ ∀ r ∈ shownRows S.rows showUpAlso, ∀ note, r.2.note = some note → '\n' ∉ note := by
  have hrows : ∀ r ∈ S.rows, r.1.Unbroken := hS.unbroken (Daemon.unbroken_loadRoots hcfg)
  obtain ⟨texts, htexts, rfl⟩ := renderText_eq_some_iff.mp hpage
  have hprinted : ∀ line ∈ textDocument S.rows showUpAlso, ∃ t ∈ texts, line.text now org = some t := by
    intro line hline
    obtain ⟨t, ht⟩ := Option.isSome_iff_exists.mp (mapM_isSome_iff.mp (Option.isSome_of_eq_some htexts) line hline)
    exact ⟨t, (mem_of_mapM htexts).mpr ⟨line, hline, ht⟩, ht⟩
  have htitle : Line.title ∈ textDocument S.rows showUpAlso := by simp [textDocument]
  obtain ⟨t₀, ht₀, htitle₀⟩ := hprinted _ htitle
  have hsplit : OneLineEach now org S.rows showUpAlso (joinLines texts ++ ['\n']) ↔ ∀ t ∈ texts, '\n' ∉ t := by
    rw [← splitOn_lines_iff (List.ne_nil_of_mem ht₀)]
    constructor
    · rintro ⟨⟨texts', htexts', hpage⟩, -⟩
      obtain rfl := Option.some.inj (htexts.symm.trans htexts')
      exact hpage
    · exact fun h => ⟨⟨texts, htexts, h⟩, rows_textDocument _ _⟩
  rw [hsplit]
  constructor
  · intro h
    refine ⟨fun horg => ?_, fun r hr note hnote hm => ?_⟩
    · exact h t₀ ht₀ ((newline_mem_line hrows htitle htitle₀).mpr (.inl ⟨rfl, horg⟩))
    · have hline := row_mem_textDocument.mpr hr
      obtain ⟨t, ht, htext⟩ := hprinted _ hline
      exact h t ht ((newline_mem_line hrows hline htext).mpr (.inr ⟨r, note, rfl, hnote, hm⟩))
  · rintro ⟨horg, hnotes⟩ t ht hm
    obtain ⟨line, hline, htext⟩ := (mem_of_mapM htexts).mp ht
    rcases (newline_mem_line hrows hline htext).mp hm with ⟨-, h⟩ | ⟨r, note, rfl, hnote, h⟩
    · exact horg h
    · exact hnotes r (row_mem_textDocument.mp hline) note hnote h

/-- A config with one host. -/
def oneHost : Text := "gw ping gateway\n".toList

/-- The scheduler of that host after `set_note`. -/
def noted (F : Forest) (note : Text) : Sched :=
  (Sched.init {} F (fun _ => 0) 0 true).setNote "gw".toList "ping".toList 0 (some note)

theorem on_noted (F : Forest) (note : Text) : Sched.On F (noted F note) :=
  (Sched.On.init {} F (fun _ => 0) 0 true).step
    (a := .setNote "gw".toList "ping".toList 0 (some note)) rfl

/-- A note of one line. -/
theorem textPage_lines_plain : ∃ cfg page, @Daemon.loadRoots Python.ascii oneHost 2 = .ok cfg ∧
    @renderText Calendar.fixed 9 (noted cfg.roots "on it".toList).rows "net".toList true = some page ∧
    @OneLineEach Calendar.fixed 9 "net".toList (noted cfg.roots "on it".toList).rows true page := by
  have hrun : ((@Daemon.loadRoots Python.ascii oneHost 2).toOption.bind fun cfg =>
      (@renderText Calendar.fixed 9 (noted cfg.roots "on it".toList).rows "net".toList true).map fun _ =>
        (noted cfg.roots "on it".toList).rows.map fun r => r.2.note) = some [some "on it".toList] := by decide +kernel
  obtain ⟨cfg, hcfg, hrun⟩ := Option.bind_eq_some_iff.mp hrun
  obtain ⟨page, hpage, hnotes⟩ := Option.map_eq_some_iff.mp hrun
  have hcfg := toOption_eq_some.mp hcfg
  refine ⟨cfg, page, hcfg, hpage, ?_⟩
  refine (@textPage_lines_iff Python.ascii Calendar.fixed _ _ _ hcfg _ (on_noted _ _) _ _ _ _ hpage).mpr
    ⟨by decide, fun r hr note hnote => ?_⟩
  have hmem : r.2.note ∈ (noted cfg.roots "on it".toList).rows.map fun r => r.2.note :=
    List.mem_map_of_mem (List.mem_of_mem_filter hr)
  rw [hnotes, List.mem_singleton, hnote] at hmem
  rw [Option.some.inj hmem]
  decide

/-- The line of a host that is not monitored. -/
def forgedLine : Text :=
  "db                          tcp     5432  9    Yes  Conn Ref        Jan 01 00:00:00 Never".toList

/-- A note with a newline adds a row, here one that reads like the row of a host that is down. -/
theorem textPage_lines_forged : ∃ cfg page, @Daemon.loadRoots Python.ascii oneHost 2 = .ok cfg ∧
    Sched.On cfg.roots (noted cfg.roots ('\n' :: forgedLine)) ∧
    @renderText Calendar.fixed 9 (noted cfg.roots ('\n' :: forgedLine)).rows "net".toList true = some page ∧
    ¬ @OneLineEach Calendar.fixed 9 "net".toList (noted cfg.roots ('\n' :: forgedLine)).rows true page ∧
    forgedLine ∈ page.splitOn '\n' ∧
    @textRow Calendar.fixed 9 (⟨"db".toList, .tcp, 5432, [], [], [], none, none, [], [], [], none, 2, none, none, none⟩,
      { lastcheck := Status.connRefused.code, downct := 9, contacted := true, deathtime := .finite 5 }) = some forgedLine := by
  have hrun : ((@Daemon.loadRoots Python.ascii oneHost 2).toOption.bind fun cfg =>
      (@renderText Calendar.fixed 9 (noted cfg.roots ('\n' :: forgedLine)).rows "net".toList true).bind fun page =>
        ((textDocument (noted cfg.roots ('\n' :: forgedLine)).rows true).mapM
            (@Line.text Calendar.fixed 9 "net".toList)).map fun texts =>
          (decide (page.splitOn '\n' = texts ++ [[]]), decide (forgedLine ∈ page.splitOn '\n'))) = some (false, true) := by
    decide +kernel
  obtain ⟨cfg, hcfg, hrun⟩ := Option.bind_eq_some_iff.mp hrun
  obtain ⟨page, hpage, hrun⟩ := Option.bind_eq_some_iff.mp hrun
  obtain ⟨texts, htexts, hrun⟩ := Option.map_eq_some_iff.mp hrun
  obtain ⟨hsplit, hforged⟩ := Prod.mk.inj hrun
  refine ⟨cfg, page, toOption_eq_some.mp hcfg, on_noted _ _, hpage, ?_, of_decide_eq_true hforged, by decide +kernel⟩
  rintro ⟨⟨texts', htexts', h⟩, -⟩
  obtain rfl := Option.some.inj (htexts.symm.trans htexts')
  exact of_decide_eq_false hsplit h

end Psysmon
