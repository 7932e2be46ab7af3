import Psysmon.Lib.Run
import Psysmon.Engine.Paging

/-!
# Psysmon.Engine.Outage — what a single node's pages may do over a whole run

Two invariants of `NodeRun`, each carried through every branch of `apply_result` and `_handle_paging`:

* `SpacingInv`: a delivered `DOWN` page with no up-transition since is remembered in `contacted` and
  `lastcontacted`, so the next `DOWN` send can only be a re-page that starts more than `pageinterval_s` later.
* `OutageInv`: `contacted` is exactly "since the last up-transition some threshold step was paged, acked, or
  silenced by `contact_on = up`" (`PagedSince`), which is what makes the recovery page.
-/

namespace Psysmon

/-! ### One application, up or not -/

section Split

variable {pod : Bool} {s s' : NodeState} {r : ℤ} {w : ℚ} {i : PageIntent}

/-- An up-transition: the outage is cleared, and its recovery is due exactly if it was contacted. -/
theorem Applied.of_up (h : Applied pod s r w s' i) (hr : r = 0) (hl : s.lastcheck ≠ 0) :
    s'.contacted = false ∧ i = (if s.contacted then .recovery else .none) := by
  cases h with
  | degraded hr' => omega
  | noDns hr' => omega
  | cameUp => exact ⟨rfl, rfl⟩
  | stillUp _ hl' => exact absurd hl' hl
  | sameError he => exact absurd hr he.1
  | newError he => exact absurd hr he.1

/-- Any other result leaves the page marks alone and asks for a page exactly at an uncontacted threshold. -/
theorem Applied.of_not_up (h : Applied pod s r w s' i) (hup : ¬ (r = 0 ∧ s.lastcheck ≠ 0)) :
    s'.contacted = s.contacted ∧ s'.acked = s.acked ∧
      ((i = .down ∧ s.contacted = false ∧ PagingError pod r ∧ s'.maxDown ≤ s'.downct) ∨
        (i = .none ∧ (s.contacted = true ∨ ¬ (PagingError pod r ∧ s'.maxDown ≤ s'.downct)))) := by
  have hdown : ∀ t : NodeState, t.contacted = s.contacted → PagingError pod r →
      (downIntent t = .down ∧ s.contacted = false ∧ PagingError pod r ∧ t.maxDown ≤ t.downct) ∨
        (downIntent t = .none ∧ (s.contacted = true ∨ ¬ (PagingError pod r ∧ t.maxDown ≤ t.downct))) := by
    intro t htc he
    unfold downIntent
    by_cases hd : t.downct ≥ t.maxDown ∧ t.contacted = false
    · exact Or.inl ⟨if_pos hd, htc ▸ hd.2, he, hd.1⟩
    · refine Or.inr ⟨if_neg hd, ?_⟩
      by_cases hk : s.contacted = true
      · exact Or.inl hk
      · exact Or.inr fun hh => hd ⟨hh.2, by simpa [htc] using hk⟩
  cases h with
  | degraded hr hp => exact ⟨rfl, rfl, Or.inr ⟨rfl, Or.inr fun hh => by simp [hh.1.2.2 hr] at hp⟩⟩
  | noDns hr => exact ⟨rfl, rfl, Or.inr ⟨rfl, Or.inr fun hh => hh.1.2.1 hr⟩⟩
  | cameUp hr hl => exact absurd ⟨hr, hl⟩ hup
  | stillUp hr => exact ⟨rfl, rfl, Or.inr ⟨rfl, Or.inr fun hh => hh.1.1 hr⟩⟩
  | sameError he => exact ⟨rfl, rfl, hdown _ rfl he⟩
  | newError he => exact ⟨rfl, rfl, hdown _ rfl he⟩

end Split

/-- What a result that is no up-transition does to the page marks: `th` says whether it was a threshold step. -/
structure Escalation (c : PagingCfg) (s : NodeState) (now : ℚ) (th : Bool) (s' : NodeState) (pg : Option Page) :
    Prop where
  acked : s'.acked = s.acked
  contacted_iff : s'.contacted = true ↔
    s.contacted = true ∨ (th = true ∧ (s.acked = true ∨ c.contactOn = .up))
  lastcontacted : s'.lastcontacted = s.lastcontacted ∨ now ≤ s'.lastcontacted
  page : ∀ p, pg = some p → s.acked = false ∧ c.contactOn.pagesDown = true ∧
    ((p = .first ∧ s.contacted = false ∧ th = true) ∨
      (p = .repage ∧ s.contacted = true ∧ 0 < c.pageintervalS ∧ c.pageintervalS < now - s.lastcontacted))

section Verdict

variable (c : PagingCfg) (s : NodeState) (code : ℤ) (wall now later : ℚ)

/-- The segment of `_run_check` after a verdict, as its two halves; `s₁` is the state between them. -/
theorem applyAndPage_spec : ∃ s₁ i, Applied c.pageOnDegraded { s with suppressed := false } code wall s₁ i ∧
    Paged c.contactOn c.pageintervalS s₁ now later i (applyAndPage c s code wall now later).1
      (applyAndPage c s code wall now later).2.1 ∧
    checkEvents c s code wall now later =
      .applied code (isUp code && !isUp s.lastcheck)
          (decide (PagingError c.pageOnDegraded code ∧ s₁.maxDown ≤ s₁.downct)) s₁.acked ::
        sendStarts (applyAndPage c s code wall now later).2.1 later :=
  ⟨_, _, applied_applyResult _ _ _ _, paged_handlePaging _ _ _ _ _ _, rfl⟩

/-- **An up-transition** clears `contacted` and starts a recovery page exactly if it was set. -/
theorem verdict_up (hup : code = 0 ∧ s.lastcheck ≠ 0) :
    (applyAndPage c s code wall now later).1.contacted = false ∧
    (applyAndPage c s code wall now later).2.1 =
      (if s.contacted && c.contactOn.pagesUp then some .recovery else none) ∧
    ∃ th ak, checkEvents c s code wall now later =
      NodeEvent.applied code true th ak :: sendStarts (applyAndPage c s code wall now later).2.1 later := by
  obtain ⟨s₁, i, ha, hp, hev⟩ := applyAndPage_spec c s code wall now later
  have hflag : (isUp code && !isUp s.lastcheck) = true := by simp [isUp, hup.1, hup.2]
  rw [hflag] at hev
  obtain ⟨hc1, hi⟩ := ha.of_up hup.1 hup.2
  have hi : i = if s.contacted then .recovery else .none := hi
  generalize (applyAndPage c s code wall now later).1 = s₂ at hp ⊢
  generalize (applyAndPage c s code wall now later).2.1 = pg at hp hev ⊢
  refine ⟨?_, ?_, _, _, hev⟩
  · cases hp with
    | ackedDown | markUp => cases hk : s.contacted <;> simp [hk] at hi
    | _ => exact hc1
  · cases hk : s.contacted with
    | true =>
      rw [hk] at hi
      subst hi
      cases hp with
      | sendRecovery hc => simp [hc]
      | noRecovery hc => simp [hc]
    | false =>
      rw [hk] at hi
      subst hi
      cases hp with
      | repage hk' => rw [hc1] at hk'; exact absurd hk' (by simp)
      | postpone => rfl
      | quiet => rfl

/-- **Any other result** marks and pages as `Escalation` says. -/
theorem verdict_quiet (hup : ¬ (code = 0 ∧ s.lastcheck ≠ 0)) :
    ∃ th, checkEvents c s code wall now later =
        NodeEvent.applied code false th s.acked :: sendStarts (applyAndPage c s code wall now later).2.1 later ∧
      (now ≤ later → Escalation c s now th (applyAndPage c s code wall now later).1
        (applyAndPage c s code wall now later).2.1) := by
  obtain ⟨s₁, i, ha, hp, hev⟩ := applyAndPage_spec c s code wall now later
  have hflag : (isUp code && !isUp s.lastcheck) = false := by
    by_contra hne
    simp only [Bool.not_eq_false, Bool.and_eq_true, isUp_iff, Bool.not_eq_true', isUp_eq_false_iff] at hne
    exact hup hne
  obtain ⟨hc1, hak, hi⟩ := ha.of_not_up hup
  have hlc : s₁.lastcontacted = s.lastcontacted := ha.lastcontacted_eq
  have hc1 : s₁.contacted = s.contacted := hc1
  have hak : s₁.acked = s.acked := hak
  rw [hflag, hak] at hev
  refine ⟨_, hev, fun hl => ?_⟩
  generalize (applyAndPage c s code wall now later).1 = s₂ at hp ⊢
  generalize (applyAndPage c s code wall now later).2.1 = pg at hp ⊢
  rcases hi with ⟨rfl, hk, hth⟩ | ⟨rfl, hth⟩
  · -- an uncontacted threshold step
    have hk : s.contacted = false := hk
    cases hp with
    | ackedDown ha' => exact ⟨hak, by simp [hth, ← hak, ha'], Or.inr le_rfl, by simp⟩
    | sendDown ha' hc =>
      refine ⟨hak, ?_, Or.inl hlc, ?_⟩
      · have hnu : c.contactOn ≠ .up := by rintro h; simp [h, ContactOn.pagesDown] at hc
        simp [hc1, hk, ← hak, ha', hnu]
      · rintro p ⟨rfl⟩
        exact ⟨hak ▸ ha', hc, Or.inl ⟨rfl, hk, by simpa using hth⟩⟩
    | markUp ha' hc => exact ⟨hak, by simp [hth, hc], Or.inr le_rfl, by simp⟩
    | silent ha' hc => exact ⟨hak, by simp [hc1, hk, ← hak, ha', hc], Or.inl hlc, by simp⟩
  · -- below the threshold, or contacted already: only the re-page timer can act
    have hth : s.contacted = true ∨ ¬ (PagingError c.pageOnDegraded code ∧ s₁.maxDown ≤ s₁.downct) := hth
    have hcon : ∀ t : NodeState, t.contacted = s₁.contacted → (t.contacted = true ↔ s.contacted = true ∨
        (decide (PagingError c.pageOnDegraded code ∧ s₁.maxDown ≤ s₁.downct) = true ∧
          (s.acked = true ∨ c.contactOn = .up))) := by
      intro t ht
      rw [ht, hc1, decide_eq_true_eq]
      exact ⟨Or.inl, fun h => h.elim id fun h => hth.resolve_right (fun hn => hn h.1)⟩
    cases hp with
    | repage hk hpi ht ha' hc =>
      refine ⟨hak, hcon _ rfl, Or.inl hlc, ?_⟩
      rintro p ⟨rfl⟩
      exact ⟨hak ▸ ha', hc, Or.inr ⟨rfl, hc1 ▸ hk, hpi, hlc ▸ ht⟩⟩
    | postpone => exact ⟨hak, hcon _ rfl, Or.inr hl, by simp⟩
    | quiet => exact ⟨hak, hcon _ rfl, Or.inl hlc, by simp⟩

end Verdict

/-! ## Spacing of `DOWN` pages -/

/-- A `DOWN` page was delivered at `e` and no up-transition has been applied since. -/
def OpenPage (evs : List NodeEvent) (e : ℚ) : Prop :=
  ∃ a p b, evs = a ++ NodeEvent.sendEnd p true e :: b ∧ p.intent = .down ∧ ∀ x ∈ b, x.isUpTransition = false

theorem not_openPage_nil (e : ℚ) : ¬ OpenPage [] e := by
  rintro ⟨a, p, b, h, -⟩
  simp at h

theorem openPage_concat {evs : List NodeEvent} {x : NodeEvent} {e : ℚ} :
    OpenPage (evs ++ [x]) e ↔
      (x.isUpTransition = false ∧ OpenPage evs e) ∨ ∃ p, x = .sendEnd p true e ∧ p.intent = .down := by
  constructor
  · rintro ⟨a, p, b, h, hp, hb⟩
    rcases List.eq_nil_or_concat b with rfl | ⟨b', y, rfl⟩
    · obtain ⟨-, hx⟩ := List.append_inj' h rfl
      exact Or.inr ⟨p, by simpa using hx, hp⟩
    · rw [List.concat_eq_append] at h hb
      rw [← List.cons_append, ← List.append_assoc] at h
      obtain ⟨h1, h2⟩ := List.append_inj' h rfl
      have hxy : x = y := by simpa using h2
      subst hxy
      exact Or.inl ⟨hb x (by simp), a, p, b', h1, hp, fun z hz => hb z (by simp [hz])⟩
  · rintro (⟨hx, a, p, b, h, hp, hb⟩ | ⟨p, rfl, hp⟩)
    · refine ⟨a, p, b ++ [x], by rw [h]; simp, hp, fun z hz => ?_⟩
      rcases List.mem_append.mp hz with hz | hz
      · exact hb z hz
      · rw [List.mem_singleton.mp hz]; exact hx
    · exact ⟨evs, p, [], rfl, hp, by simp⟩

@[simp] theorem openPage_applied {evs : List NodeEvent} {k : ℤ} {up th ak : Bool} {e : ℚ} :
    OpenPage (evs ++ [NodeEvent.applied k up th ak]) e ↔ up = false ∧ OpenPage evs e := by
  simp [openPage_concat, NodeEvent.isUpTransition]

@[simp] theorem openPage_sendStart {evs : List NodeEvent} {p : Page} {t e : ℚ} :
    OpenPage (evs ++ [NodeEvent.sendStart p t]) e ↔ OpenPage evs e := by
  simp [openPage_concat, NodeEvent.isUpTransition]

theorem openPage_sendEnd {evs : List NodeEvent} {p : Page} {ok : Bool} {t e : ℚ} :
    OpenPage (evs ++ [NodeEvent.sendEnd p ok t]) e ↔ OpenPage evs e ∨ (ok = true ∧ p.intent = .down ∧ t = e) := by
  simp only [openPage_concat, NodeEvent.isUpTransition, true_and, NodeEvent.sendEnd.injEq]
  constructor
  · rintro (h | ⟨q, ⟨rfl, rfl, rfl⟩, hq⟩)
    · exact Or.inl h
    · exact Or.inr ⟨rfl, hq, rfl⟩
  · rintro (h | ⟨rfl, hq, rfl⟩)
    · exact Or.inl h
    · exact Or.inr ⟨p, ⟨rfl, rfl, rfl⟩, hq⟩

/-- The invariant behind the re-page interval. -/
structure SpacingInv (c : PagingCfg) (v : NodeView) (evs : List NodeEvent) : Prop where
  paged : ∀ e, OpenPage evs e → v.st.contacted = true ∧ e ≤ v.st.lastcontacted ∧ e ≤ v.clk
  sending : ∀ p ch, v.task = some (.sending p ch) → ∃ x t, evs = x ++ [NodeEvent.sendStart p t] ∧
    (p.intent = .down → ∀ e, OpenPage x e → 0 < c.pageintervalS ∧ c.pageintervalS < t - e)
  repaging : ∀ ch, v.task = some (.sending .repage ch) → v.st.contacted = true

theorem SpacingInv.init (c : PagingCfg) {v : NodeView} (hv : v.task = none) : SpacingInv c v [] :=
  ⟨fun e h => absurd h (not_openPage_nil e), fun p ch h => by simp [hv] at h, fun ch h => by simp [hv] at h⟩

@[simp] theorem openPage_sendStarts {evs : List NodeEvent} {x : NodeEvent} {pg : Option Page} {t e : ℚ} :
    OpenPage (evs ++ x :: sendStarts pg t) e ↔ OpenPage (evs ++ [x]) e := by
  cases pg with
  | none => rfl
  | some p =>
    rw [List.append_cons]
    exact openPage_sendStart

/-- The verdict step: `first` is asked for only when uncontacted, `repage` only past the interval. -/
theorem SpacingInv.check {c : PagingCfg} {v : NodeView} {evs : List NodeEvent} (h : SpacingInv c v evs)
    (code : ℤ) (wall now later : ℚ) (hn : v.clk ≤ now) (hl : now ≤ later) :
    SpacingInv c
      ⟨(applyAndPage c v.st code wall now later).1,
        (applyAndPage c v.st code wall now later).2.1.map
          (fun p => .sending p (applyAndPage c v.st code wall now later).2.2), later⟩
      (evs ++ checkEvents c v.st code wall now later) := by
  by_cases hup : code = 0 ∧ v.st.lastcheck ≠ 0
  · -- an up-transition closes every open page; only a recovery can be sent
    obtain ⟨-, hpg, th, ak, hev⟩ := verdict_up c v.st code wall now later hup
    rw [hev]
    have hrec : ∀ p ch, Option.map (fun p => Phase.sending p (applyAndPage c v.st code wall now later).2.2)
        (applyAndPage c v.st code wall now later).2.1 = some (.sending p ch) → p = .recovery := by
      intro p ch hp
      rw [hpg] at hp
      split at hp <;> simp_all
    refine ⟨fun e he => ?_, fun p ch hp => ?_, fun ch hp => ?_⟩
    · simp at he
    · obtain rfl := hrec p ch hp
      obtain ⟨p', hp', -⟩ := Option.map_eq_some_iff.mp hp
      refine ⟨evs ++ [NodeEvent.applied code true th ak], later, ?_, fun hd => by simp [Page.intent] at hd⟩
      rw [hpg] at hp' ⊢
      split at hp' <;> simp_all
    · exact absurd (hrec _ ch hp) (by simp)
  · obtain ⟨th, hev, hesc⟩ := verdict_quiet c v.st code wall now later hup
    have hesc := hesc hl
    rw [hev]
    refine ⟨fun e he => ?_, fun p ch hp => ?_, fun ch hp => ?_⟩
    · obtain ⟨h1, h2, h3⟩ := h.paged e (by simpa using he)
      have hle : e ≤ now := h3.trans hn
      refine ⟨hesc.contacted_iff.mpr (Or.inl h1), ?_, hle.trans hl⟩
      rcases hesc.lastcontacted with hlc | hlc
      · rw [hlc]; exact h2
      · exact hle.trans hlc
    · obtain ⟨p', hp', hph⟩ := Option.map_eq_some_iff.mp hp
      obtain ⟨rfl, -⟩ := Phase.sending.inj hph
      refine ⟨evs ++ [NodeEvent.applied code false th v.st.acked], later, by rw [hp']; simp, fun _ e he => ?_⟩
      obtain ⟨h1, h2, -⟩ := h.paged e (by simpa using he)
      obtain ⟨-, -, ⟨-, hk, -⟩ | ⟨-, -, hpi, ht⟩⟩ := hesc.page p' hp'
      · -- a first page means the outage was not contacted, so no page is open
        rw [hk] at h1
        exact absurd h1 (by simp)
      · exact ⟨hpi, by linarith⟩
    · obtain ⟨p', hp', hph⟩ := Option.map_eq_some_iff.mp hp
      obtain ⟨rfl, -⟩ := Phase.sending.inj hph
      obtain ⟨-, -, ⟨hf, -⟩ | ⟨-, hk, -⟩⟩ := hesc.page _ hp'
      · exact absurd hf (by simp)
      · exact hesc.contacted_iff.mpr (Or.inl hk)

theorem SpacingInv.step {c : PagingCfg} {v v' : NodeView} {evs o : List NodeEvent} (h : SpacingInv c v evs)
    (hs : NodeStep c v o v') : SpacingInv c v' (evs ++ o) := by
  have hclk : ∀ {t : ℚ}, v.clk ≤ t → ∀ e, OpenPage evs e →
      v.st.contacted = true ∧ e ≤ v.st.lastcontacted ∧ e ≤ t := fun ht e he =>
    ⟨(h.paged e he).1, (h.paged e he).2.1, (h.paged e he).2.2.trans ht⟩
  cases hs with
  | quiet b n d ht => rw [List.append_nil]; exact ⟨hclk ht, h.sending, h.repaging⟩
  | ack ht => rw [List.append_nil]; exact ⟨hclk ht, h.sending, h.repaging⟩
  | dispatch ht => rw [List.append_nil]; exact ⟨hclk ht, by simp, by simp⟩
  | drop ht => rw [List.append_nil]; exact ⟨hclk ht, by simp, by simp⟩
  | check _ code wall now later hn hl => exact h.check code wall now later hn hl
  | @sent p ch htask out ended now he hn =>
    refine ⟨fun e hopen => ?_, by simp, by simp⟩
    rw [openPage_sendEnd] at hopen
    rcases hopen with hopen | ⟨hok, hdown, rfl⟩
    · obtain ⟨h1, h2, h3⟩ := hclk (he.trans hn) e hopen
      refine ⟨?_, ?_, h3⟩
      · cases p <;> cases out <;> first | rfl | exact h1
      · cases p <;> cases out <;> first | exact h3 | exact h2
    · have hout : out = .delivered := by simpa using hok
      subst hout
      cases p with
      | first => exact ⟨rfl, hn, hn⟩
      | repage => exact ⟨h.repaging ch htask, hn, hn⟩
      | recovery => simp [Page.intent] at hdown

/-- A send ends right after its own start, and a `DOWN` send starts only if every page still open lies more than
the interval back. -/
def SendRule (pi : ℚ) (evs : List NodeEvent) : NodeEvent → Prop
  | .applied _ _ _ _ => True
  | .sendStart p t => p.intent = .down → ∀ e, OpenPage evs e → 0 < pi ∧ pi < t - e
  | NodeEvent.sendEnd p _ _ => ∃ x t, evs = x ++ [NodeEvent.sendStart p t]

/-- **Every send of a node keeps the rule**, over any run of the node. -/
theorem NodeRun.sendRule {c : PagingCfg} {v₀ v : NodeView} {tr : List NodeEvent} (h0 : v₀.task = none)
    (h : NodeRun c v₀ tr v) : Lib.Each (SendRule c.pageintervalS) tr := by
  suffices hI : SpacingInv c v tr ∧ Lib.Each (SendRule c.pageintervalS) tr from hI.2
  refine h.inv (fun v tr => SpacingInv c v tr ∧ Lib.Each (SendRule c.pageintervalS) tr)
    ⟨.init c h0, Lib.each_nil _⟩ ?_
  rintro v tr o v' ⟨hI, hE⟩ hs
  refine ⟨hI.step hs, ?_⟩
  cases hs with
  | quiet => rwa [List.append_nil]
  | ack => rwa [List.append_nil]
  | dispatch => rwa [List.append_nil]
  | drop => rwa [List.append_nil]
  | check _ code wall now later hn hl =>
    have hI' := hI.check code wall now later hn hl
    obtain ⟨s₁, i, -, -, hev⟩ := applyAndPage_spec c v.st code wall now later
    rw [hev] at hI' ⊢
    cases hpg : (applyAndPage c v.st code wall now later).2.1 with
    | none => exact Lib.each_concat.mpr ⟨hE, trivial⟩
    | some p =>
      rw [sendStarts_some, List.append_cons]
      refine Lib.each_concat.mpr ⟨Lib.each_concat.mpr ⟨hE, trivial⟩, ?_⟩
      obtain ⟨x, t, hx, hsp⟩ := hI'.sending p _ (by rw [hpg]; rfl)
      rw [hpg, sendStarts_some, List.append_cons] at hx
      obtain ⟨rfl, ht⟩ := List.append_inj' hx rfl
      obtain ⟨-, rfl⟩ : p = p ∧ later = t := by simpa using ht
      exact hsp
  | sent htask =>
    obtain ⟨x, t, hx, -⟩ := hI.sending _ _ htask
    exact Lib.each_concat.mpr ⟨hE, x, t, hx⟩

/-! ## What makes a recovery page -/

/-- The events since the last up-transition. -/
def sinceUp (evs : List NodeEvent) : List NodeEvent := evs.rtakeWhile (fun x => !x.isUpTransition)

/-- Some threshold step of `evs` was acked, or silenced by `contact_on = up`, or its `DOWN` page delivered. -/
def PagedIn (co : ContactOn) (evs : List NodeEvent) : Prop :=
  ∃ a k ak b, evs = a ++ NodeEvent.applied k false true ak :: b ∧
    (ak = true ∨ co = .up ∨ ∃ p t e b', b = NodeEvent.sendStart p t :: NodeEvent.sendEnd p true e :: b' ∧ p.intent = .down)

/-- The condition for a recovery page, as a property of the outage's history. -/
def PagedSince (co : ContactOn) (evs : List NodeEvent) : Prop := PagedIn co (sinceUp evs)

@[simp] theorem sinceUp_nil : sinceUp [] = [] := rfl

theorem sinceUp_concat (evs : List NodeEvent) (x : NodeEvent) :
    sinceUp (evs ++ [x]) = if x.isUpTransition then [] else sinceUp evs ++ [x] := by
  unfold sinceUp
  rw [List.rtakeWhile_concat]
  cases x.isUpTransition <;> simp

theorem not_pagedIn_nil (co : ContactOn) : ¬ PagedIn co [] := by
  rintro ⟨a, k, ak, b, h, -⟩
  simp at h

/-- One more event: it is a decisive threshold itself, or it ends the `DOWN` send of the threshold just before. -/
theorem pagedIn_concat {co : ContactOn} {evs : List NodeEvent} {x : NodeEvent} :
    PagedIn co (evs ++ [x]) ↔ PagedIn co evs ∨
      (∃ k ak, x = .applied k false true ak ∧ (ak = true ∨ co = .up)) ∨
      ∃ a k ak p t e, evs = a ++ [NodeEvent.applied k false true ak, NodeEvent.sendStart p t] ∧ x = NodeEvent.sendEnd p true e ∧
        p.intent = .down := by
  constructor
  · rintro ⟨a, k, ak, b, h, hb⟩
    rcases List.eq_nil_or_concat b with rfl | ⟨b₁, y, rfl⟩
    · obtain ⟨-, hx⟩ := List.append_inj' h rfl
      refine Or.inr (Or.inl ⟨k, ak, by simpa using hx, ?_⟩)
      rcases hb with hb | hb | ⟨p, t, e, b', hb, -⟩
      · exact Or.inl hb
      · exact Or.inr hb
      · simp at hb
    · rw [List.concat_eq_append] at h hb
      rw [← List.cons_append, ← List.append_assoc] at h
      obtain ⟨h1, h2⟩ := List.append_inj' h rfl
      have hxy : x = y := by simpa using h2
      subst hxy
      rcases hb with hb | hb | ⟨p, t, e, b', hb, hp⟩
      · exact Or.inl ⟨a, k, ak, b₁, h1, Or.inl hb⟩
      · exact Or.inl ⟨a, k, ak, b₁, h1, Or.inr (Or.inl hb)⟩
      · rcases List.eq_nil_or_concat b' with rfl | ⟨b₂, z, rfl⟩
        · have hb : b₁ ++ [x] = [NodeEvent.sendStart p t] ++ [NodeEvent.sendEnd p true e] := hb
          obtain ⟨hb1, hb2⟩ := List.append_inj' hb rfl
          refine Or.inr (Or.inr ⟨a, k, ak, p, t, e, by rw [h1, hb1], by simpa using hb2, hp⟩)
        · rw [List.concat_eq_append] at hb
          have hb : b₁ ++ [x] = (NodeEvent.sendStart p t :: NodeEvent.sendEnd p true e :: b₂) ++ [z] := hb
          obtain ⟨hb1, -⟩ := List.append_inj' hb rfl
          exact Or.inl ⟨a, k, ak, b₁, h1, Or.inr (Or.inr ⟨p, t, e, b₂, hb1, hp⟩)⟩
  · rintro (⟨a, k, ak, b, h, hb⟩ | ⟨k, ak, rfl, hak⟩ | ⟨a, k, ak, p, t, e, h, rfl, hp⟩)
    · refine ⟨a, k, ak, b ++ [x], by rw [h]; simp, ?_⟩
      rcases hb with hb | hb | ⟨p, t, e, b', rfl, hp⟩
      · exact Or.inl hb
      · exact Or.inr (Or.inl hb)
      · exact Or.inr (Or.inr ⟨p, t, e, b' ++ [x], rfl, hp⟩)
    · refine ⟨evs, k, ak, [], rfl, ?_⟩
      rcases hak with hak | hak
      · exact Or.inl hak
      · exact Or.inr (Or.inl hak)
    · exact ⟨a, k, ak, [.sendStart p t, .sendEnd p true e], by rw [h]; simp,
        Or.inr (Or.inr ⟨p, t, e, [], rfl, hp⟩)⟩

section Since

variable {co : ContactOn} {evs : List NodeEvent}

theorem pagedSince_concat {x : NodeEvent} (hx : x.isUpTransition = false) :
    PagedSince co (evs ++ [x]) ↔ PagedIn co (sinceUp evs ++ [x]) := by
  unfold PagedSince
  rw [sinceUp_concat, if_neg (by simp [hx])]

theorem not_pagedSince_up {k : ℤ} {th ak : Bool} : ¬ PagedSince co (evs ++ [NodeEvent.applied k true th ak]) := by
  unfold PagedSince
  rw [sinceUp_concat]
  exact not_pagedIn_nil co

theorem pagedSince_applied {k : ℤ} {th ak : Bool} :
    PagedSince co (evs ++ [NodeEvent.applied k false th ak]) ↔
      PagedSince co evs ∨ (th = true ∧ (ak = true ∨ co = .up)) := by
  rw [pagedSince_concat rfl, pagedIn_concat]
  constructor
  · rintro (h | ⟨k', ak', hx, h⟩ | ⟨a, k', ak', p, t, e, -, hx, -⟩)
    · exact Or.inl h
    · obtain ⟨-, -, rfl, rfl⟩ := NodeEvent.applied.inj hx
      exact Or.inr ⟨rfl, h⟩
    · exact absurd hx (by simp)
  · rintro (h | ⟨rfl, h⟩)
    · exact Or.inl h
    · exact Or.inr (Or.inl ⟨k, ak, rfl, h⟩)

theorem pagedSince_sendStart {p : Page} {t : ℚ} :
    PagedSince co (evs ++ [NodeEvent.sendStart p t]) ↔ PagedSince co evs := by
  rw [pagedSince_concat rfl, pagedIn_concat]
  simp [PagedSince]

theorem pagedSince_sendStarts {x : NodeEvent} {pg : Option Page} {t : ℚ} :
    PagedSince co (evs ++ x :: sendStarts pg t) ↔ PagedSince co (evs ++ [x]) := by
  cases pg with
  | none => rfl
  | some p =>
    rw [List.append_cons]
    exact pagedSince_sendStart

theorem PagedSince.sendEnd {p : Page} {ok : Bool} {e : ℚ} (h : PagedSince co evs) :
    PagedSince co (evs ++ [NodeEvent.sendEnd p ok e]) := by
  rw [pagedSince_concat rfl, pagedIn_concat]
  exact Or.inl h

/-- Only a delivered `DOWN` page can turn the condition on. -/
theorem pagedSince_sendEnd_idle {p : Page} {ok : Bool} {e : ℚ} (h : ok = false ∨ p.intent ≠ .down) :
    PagedSince co (evs ++ [NodeEvent.sendEnd p ok e]) ↔ PagedSince co evs := by
  refine ⟨?_, PagedSince.sendEnd⟩
  rw [pagedSince_concat rfl, pagedIn_concat]
  rintro (h' | ⟨k', ak', hx, -⟩ | ⟨a, k', ak', p', t, e', -, hx, hp⟩)
  · exact h'
  · exact absurd hx (by simp)
  · obtain ⟨rfl, rfl, -⟩ := NodeEvent.sendEnd.inj hx
    rcases h with h | h
    · exact absurd h (by simp)
    · exact absurd hp h

theorem pagedSince_delivered {p : Page} {k : ℤ} {ak : Bool} {t e : ℚ} (hp : p.intent = .down) :
    PagedSince co (evs ++ [NodeEvent.applied k false true ak, NodeEvent.sendStart p t] ++ [NodeEvent.sendEnd p true e]) := by
  rw [pagedSince_concat rfl, pagedIn_concat]
  refine Or.inr (Or.inr ⟨sinceUp evs, k, ak, p, t, e, ?_, rfl, hp⟩)
  have hsplit : evs ++ [NodeEvent.applied k false true ak, NodeEvent.sendStart p t] =
      evs ++ [NodeEvent.applied k false true ak] ++ [NodeEvent.sendStart p t] := by simp
  rw [hsplit, sinceUp_concat, sinceUp_concat]
  simp [NodeEvent.isUpTransition]

end Since

def NodeEvent.isRecoveryStart : NodeEvent → Bool
  | .sendStart .recovery _ => true
  | _ => false

/-- Recovery pages started since the last up-transition. -/
def recoveries (evs : List NodeEvent) : ℕ := (sinceUp evs).countP NodeEvent.isRecoveryStart

theorem recoveries_concat (evs : List NodeEvent) (x : NodeEvent) :
    recoveries (evs ++ [x]) =
      if x.isUpTransition then 0 else recoveries evs + if x.isRecoveryStart then 1 else 0 := by
  unfold recoveries
  rw [sinceUp_concat]
  cases x.isUpTransition with
  | true => rfl
  | false => rw [if_neg (by simp), if_neg (by simp), List.countP_append, List.countP_singleton]

/-- The invariant behind the recovery page. -/
structure OutageInv (c : PagingCfg) (v : NodeView) (evs : List NodeEvent) : Prop where
  contacted_iff : v.st.contacted = true ↔ PagedSince c.contactOn evs
  firstPage : ∀ ch, v.task = some (.sending .first ch) →
    ∃ x k ak t, evs = x ++ [NodeEvent.applied k false true ak, NodeEvent.sendStart .first t]
  repaging : ∀ ch, v.task = some (.sending .repage ch) → v.st.contacted = true
  oneRecovery : recoveries evs ≤ 1

theorem OutageInv.init (c : PagingCfg) {v : NodeView} (hv : v.task = none) (hc : v.st.contacted = false) :
    OutageInv c v [] where
  contacted_iff := by
    simp only [hc, Bool.false_eq_true, false_iff]
    exact not_pagedIn_nil _
  firstPage ch h := by simp [hv] at h
  repaging ch h := by simp [hv] at h
  oneRecovery := by simp [recoveries]

/-- The verdict step keeps `contacted` in line with the history. -/
theorem OutageInv.check {c : PagingCfg} {v : NodeView} {evs : List NodeEvent} (h : OutageInv c v evs)
    (code : ℤ) (wall now later : ℚ) (hl : now ≤ later) :
    OutageInv c
      ⟨(applyAndPage c v.st code wall now later).1,
        (applyAndPage c v.st code wall now later).2.1.map
          (fun p => .sending p (applyAndPage c v.st code wall now later).2.2), later⟩
      (evs ++ checkEvents c v.st code wall now later) := by
  by_cases hup : code = 0 ∧ v.st.lastcheck ≠ 0
  · obtain ⟨hk, hpg, th, ak, hev⟩ := verdict_up c v.st code wall now later hup
    rw [hev]
    refine ⟨?_, fun ch hp => ?_, fun ch hp => ?_, ?_⟩
    · rw [pagedSince_sendStarts, hk]
      simp [not_pagedSince_up]
    · rw [hpg] at hp
      split at hp <;> simp at hp
    · rw [hpg] at hp
      split at hp <;> simp at hp
    · rw [hpg]
      split
      · rw [sendStarts_some, List.append_cons, recoveries_concat, recoveries_concat]
        simp [NodeEvent.isUpTransition, NodeEvent.isRecoveryStart]
      · rw [sendStarts_none, recoveries_concat]
        simp [NodeEvent.isUpTransition]
  · obtain ⟨th, hev, hesc⟩ := verdict_quiet c v.st code wall now later hup
    have hesc := hesc hl
    rw [hev]
    refine ⟨?_, fun ch hp => ?_, fun ch hp => ?_, ?_⟩
    · rw [pagedSince_sendStarts, pagedSince_applied, ← h.contacted_iff]
      exact hesc.contacted_iff
    · obtain ⟨p', hp', hph⟩ := Option.map_eq_some_iff.mp hp
      obtain ⟨rfl, -⟩ := Phase.sending.inj hph
      obtain ⟨-, -, ⟨-, -, rfl⟩ | ⟨hf, -⟩⟩ := hesc.page _ hp'
      · exact ⟨evs, code, v.st.acked, later, by rw [hp', sendStarts_some]⟩
      · exact absurd hf (by simp)
    · obtain ⟨p', hp', hph⟩ := Option.map_eq_some_iff.mp hp
      obtain ⟨rfl, -⟩ := Phase.sending.inj hph
      obtain ⟨-, -, ⟨hf, -⟩ | ⟨-, hk, -⟩⟩ := hesc.page _ hp'
      · exact absurd hf (by simp)
      · exact hesc.contacted_iff.mpr (Or.inl hk)
    · have hone := h.oneRecovery
      cases hpg : (applyAndPage c v.st code wall now later).2.1 with
      | none => rw [sendStarts_none, recoveries_concat]; simpa [NodeEvent.isUpTransition, NodeEvent.isRecoveryStart]
      | some p =>
        have hnr : NodeEvent.isRecoveryStart (.sendStart p later) = false := by
          obtain ⟨-, -, ⟨rfl, -⟩ | ⟨rfl, -⟩⟩ := hesc.page _ hpg <;> rfl
        rw [sendStarts_some, List.append_cons, recoveries_concat, recoveries_concat, hnr]
        simpa [NodeEvent.isUpTransition, NodeEvent.isRecoveryStart]

theorem OutageInv.step {c : PagingCfg} {v v' : NodeView} {evs o : List NodeEvent} (h : OutageInv c v evs)
    (hs : NodeStep c v o v') : OutageInv c v' (evs ++ o) := by
  cases hs with
  | quiet => rw [List.append_nil]; exact ⟨h.contacted_iff, h.firstPage, h.repaging, h.oneRecovery⟩
  | ack => rw [List.append_nil]; exact ⟨h.contacted_iff, h.firstPage, h.repaging, h.oneRecovery⟩
  | dispatch => rw [List.append_nil]; exact ⟨h.contacted_iff, by simp, by simp, h.oneRecovery⟩
  | drop => rw [List.append_nil]; exact ⟨h.contacted_iff, by simp, by simp, h.oneRecovery⟩
  | check _ code wall now later _ hl => exact h.check code wall now later hl
  | @sent p ch htask out ended now he hn =>
    refine ⟨?_, by simp, by simp, ?_⟩
    · by_cases hd : out = .delivered ∧ p.intent = .down
      · -- a delivered `DOWN` page: the flag is set, and the history shows the page
        obtain ⟨rfl, hp⟩ := hd
        cases p with
        | first =>
          obtain ⟨x, k, ak, t, rfl⟩ := h.firstPage ch htask
          simp only [afterSend, decide_true, true_iff]
          exact pagedSince_delivered hp
        | repage =>
          have hk := h.repaging ch htask
          simp only [afterSend, hk, true_iff]
          exact (h.contacted_iff.mp hk).sendEnd
        | recovery => simp [Page.intent] at hp
      · have hidle : (decide (out = .delivered) = false) ∨ p.intent ≠ .down := by
          by_contra hne
          push Not at hne
          exact hd ⟨by simpa using hne.1, hne.2⟩
        rw [pagedSince_sendEnd_idle hidle, ← h.contacted_iff]
        cases p <;> cases out <;> first | rfl | exact absurd ⟨rfl, rfl⟩ hd
    · rw [recoveries_concat]
      simpa [NodeEvent.isUpTransition, NodeEvent.isRecoveryStart] using h.oneRecovery

/-- `contacted` tells the history of the outage, over any run of the node. -/
theorem NodeRun.outage {c : PagingCfg} {v₀ v : NodeView} {tr : List NodeEvent} (h0 : v₀.task = none)
    (hc : v₀.st.contacted = false) (h : NodeRun c v₀ tr v) : OutageInv c v tr :=
  h.inv (OutageInv c) (.init c h0 hc) fun _ _ _ _ hI hs => hI.step hs

end Psysmon
