import Psysmon.Engine.State

/-!
# Psysmon.Engine.Paging — the paging decision and the life of one node

`handlePaging` is the part of `Scheduler._handle_paging` up to its first suspension: it marks the state, or asks
for one of the three `notifier.send` calls.  `afterSend` is the part after that call.  `Paged` lists the branches
of `handlePaging` as `Applied` lists those of `apply_result`.

`NodeStep` is the abstract machine of a single node: its runtime state, its check task and the monotonic clock.
The scheduler moves every node by such steps (`Psysmon.Engine.Project`); what an outage may do over any run
of one node is proved here once, for this machine.
-/

namespace Psysmon

/-- The three `notifier.send` calls of `_handle_paging`: the first `DOWN` page of an outage, a re-page, and the
recovery. -/
inductive Page
  | first | repage | recovery
  deriving DecidableEq, Repr

/-- The intent a send carries. -/
def Page.intent : Page → PageIntent
  | .first | .repage => .down
  | .recovery => .recovery

/-- How a `notifier.send` ends: it returns `True`, returns `False`, or raises. -/
inductive SendOutcome
  | delivered | failed | raised
  deriving DecidableEq, Repr

/-- `_handle_paging` up to its first suspension.  `now` is its first reading of the monotonic clock, `later` the
reading after `maybe_repage`. -/
def handlePaging (contactOn : ContactOn) (pageintervalS : ℚ) (s : NodeState) (intent : PageIntent)
    (now later : ℚ) : NodeState × Option Page :=
  match intent with
  | .down =>
    if s.acked then ({ s with contacted := true, lastcontacted := now }, none)
    else if contactOn.pagesDown then (s, some .first)
    else if contactOn = .up then ({ s with contacted := true, lastcontacted := now }, none)
    else (s, none)
  | .recovery => (s, if contactOn.pagesUp then some .recovery else none)
  | .none =>
    if s.contacted && maybeRepage s now pageintervalS then
      if !s.acked && contactOn.pagesDown then (s, some .repage)
      else ({ s with lastcontacted := later }, none)
    else (s, none)

/-- `_handle_paging` after the send has ended; `now` is the reading that stamps a delivered page. -/
def afterSend (s : NodeState) (p : Page) (out : SendOutcome) (now : ℚ) : NodeState :=
  match p, out with
  | .first, .delivered => { s with contacted := true, lastcontacted := now }
  | .repage, .delivered => { s with lastcontacted := now }
  | _, _ => s

/-- The branches of `handlePaging`. -/
inductive Paged (co : ContactOn) (pi : ℚ) (s : NodeState) (now later : ℚ) :
    PageIntent → NodeState → Option Page → Prop
  | ackedDown (ha : s.acked = true) :
    Paged co pi s now later .down { s with contacted := true, lastcontacted := now } none
  | sendDown (ha : s.acked = false) (hc : co.pagesDown = true) : Paged co pi s now later .down s (some .first)
  | markUp (ha : s.acked = false) (hc : co = .up) :
    Paged co pi s now later .down { s with contacted := true, lastcontacted := now } none
  | silent (ha : s.acked = false) (hc : co = .none) : Paged co pi s now later .down s none
  | sendRecovery (hc : co.pagesUp = true) : Paged co pi s now later .recovery s (some .recovery)
  | noRecovery (hc : co.pagesUp = false) : Paged co pi s now later .recovery s none
  | repage (hk : s.contacted = true) (hp : 0 < pi) (ht : pi < now - s.lastcontacted) (ha : s.acked = false)
      (hc : co.pagesDown = true) : Paged co pi s now later .none s (some .repage)
  | postpone (hk : s.contacted = true) (hp : 0 < pi) (ht : pi < now - s.lastcontacted)
      (ha : s.acked = true ∨ co.pagesDown = false) :
    Paged co pi s now later .none { s with lastcontacted := later } none
  | quiet : Paged co pi s now later .none s none

theorem maybeRepage_iff {s : NodeState} {now pi : ℚ} :
    maybeRepage s now pi = true ↔ s.contacted = true ∧ 0 < pi ∧ pi < now - s.lastcontacted := by
  unfold maybeRepage
  by_cases hk : s.contacted = false
  · simp [hk]
  · by_cases hp : pi ≤ 0
    · simp [hp, not_lt.mpr hp]
    · rw [if_neg (by simp [hk, hp])]
      simp at hk hp
      simp [hk, hp]

theorem paged_handlePaging (co : ContactOn) (pi : ℚ) (s : NodeState) (i : PageIntent) (now later : ℚ) :
    Paged co pi s now later i (handlePaging co pi s i now later).1 (handlePaging co pi s i now later).2 := by
  cases i with
  | down =>
    dsimp only [handlePaging]
    by_cases ha : s.acked = true
    · rw [if_pos ha]
      exact .ackedDown ha
    · rw [if_neg ha]
      have ha : s.acked = false := by simpa using ha
      cases co with
      | down => exact .sendDown ha rfl
      | both => exact .sendDown ha rfl
      | up => exact .markUp ha rfl
      | none => exact .silent ha rfl
  | recovery =>
    dsimp only [handlePaging]
    cases hc : co.pagesUp with
    | true => exact .sendRecovery hc
    | false => exact .noRecovery hc
  | none =>
    dsimp only [handlePaging]
    by_cases hr : (s.contacted && maybeRepage s now pi) = true
    · obtain ⟨hk, hp, ht⟩ := maybeRepage_iff.mp (Bool.and_eq_true_iff.mp hr).2
      rw [if_pos hr]
      by_cases ha : (!s.acked && co.pagesDown) = true
      · rw [if_pos ha]
        simp only [Bool.and_eq_true, Bool.not_eq_true'] at ha
        exact .repage hk hp ht ha.1 ha.2
      · rw [if_neg ha]
        refine .postpone hk hp ht ?_
        cases h1 : s.acked <;> simp_all
    · rw [if_neg hr]
      exact .quiet

/-! ## The abstract machine of one node -/

/-- What paging reads of the configuration: the node's effective `contact_on` and two global settings. -/
structure PagingCfg where
  contactOn : ContactOn
  pageintervalS : ℚ
  pageOnDegraded : Bool

/-- Where the check task of a node stands: waiting for its check, or for a `notifier.send` (`changed` is the
transition's `state_changed`, still to be published). -/
inductive Phase
  | running
  | sending (page : Page) (changed : Bool)
  deriving DecidableEq

/-- A node as its task sees it; `clk` is the last instant of the monotonic clock. -/
structure NodeView where
  st : NodeState
  task : Option Phase
  clk : ℚ

/-- What an observer sees of a node. -/
inductive NodeEvent
  /-- A result was applied; `up`: an up-transition; `threshold`: a paging error that leaves
  `downct >= max_down`; `acked`: the ack flag when the page was decided. -/
  | applied (code : ℤ) (up threshold acked : Bool)
  | sendStart (page : Page) (time : ℚ)
  | sendEnd (page : Page) (ok : Bool) (time : ℚ)
  deriving DecidableEq

namespace NodeEvent

def isUpTransition : NodeEvent → Bool
  | .applied _ up _ _ => up
  | _ => false

end NodeEvent

/-- The synchronous segment of `_run_check` from the applied result to the first suspension: the new state, the
send it waits for, and `state_changed`. -/
def applyAndPage (c : PagingCfg) (s : NodeState) (code : ℤ) (wall now later : ℚ) :
    NodeState × Option Page × Bool :=
  let a := applyResult { s with suppressed := false } code wall c.pageOnDegraded
  let p := handlePaging c.contactOn c.pageintervalS a.1 a.2.intent now later
  (p.1, p.2, a.2.stateChanged)

/-- The start of the send that is asked for, if any. -/
def sendStarts (pg : Option Page) (t : ℚ) : List NodeEvent :=
  match pg with
  | some p => [.sendStart p t]
  | none => []

@[simp] theorem sendStarts_none (t : ℚ) : sendStarts none t = [] := rfl

@[simp] theorem sendStarts_some (p : Page) (t : ℚ) : sendStarts (some p) t = [.sendStart p t] := rfl

/-- The events of that segment: the applied result, then the start of a send (at the instant `later`). -/
def checkEvents (c : PagingCfg) (s : NodeState) (code : ℤ) (wall now later : ℚ) : List NodeEvent :=
  let a := applyResult { s with suppressed := false } code wall c.pageOnDegraded
  .applied code (isUp code && !isUp s.lastcheck)
      (decide (PagingError c.pageOnDegraded code ∧ a.1.downct ≥ a.1.maxDown)) a.1.acked ::
    sendStarts (applyAndPage c s code wall now later).2.1 later

/-- The steps of one node. -/
inductive NodeStep (c : PagingCfg) : NodeView → List NodeEvent → NodeView → Prop
  /-- Nothing an outage depends on: display fields, a step of another node, a note. -/
  | quiet {v : NodeView} (b : Bool) (n : Option Lib.Text) (d : List Lib.Text) {t : ℚ} (ht : v.clk ≤ t) :
    NodeStep c v [] ⟨{ v.st with suppressed := b, note := n, downParents := d }, v.task, t⟩
  | ack {v : NodeView} {t : ℚ} (ht : v.clk ≤ t) : NodeStep c v [] ⟨{ v.st with acked := true }, v.task, t⟩
  /-- `tick` creates the check task. -/
  | dispatch {v : NodeView} {t : ℚ} (ht : v.clk ≤ t) (h : v.task = none) :
    NodeStep c v [] ⟨v.st, some .running, t⟩
  /-- The check ends without a verdict: it raised, or its result is discarded. -/
  | drop {v : NodeView} {t : ℚ} (ht : v.clk ≤ t) (h : v.task = some .running) (b : Bool) :
    NodeStep c v [] ⟨{ v.st with suppressed := b }, none, t⟩
  | check {v : NodeView} (h : v.task = some .running) (code : ℤ) (wall now later : ℚ) (hn : v.clk ≤ now)
      (hl : now ≤ later) :
    NodeStep c v (checkEvents c v.st code wall now later)
      ⟨(applyAndPage c v.st code wall now later).1,
        (applyAndPage c v.st code wall now later).2.1.map
          (fun p => .sending p (applyAndPage c v.st code wall now later).2.2), later⟩
  | sent {v : NodeView} {p : Page} {ch : Bool} (h : v.task = some (.sending p ch)) (out : SendOutcome)
      (ended now : ℚ) (he : v.clk ≤ ended) (hn : ended ≤ now) :
    NodeStep c v [.sendEnd p (out = .delivered) ended] ⟨afterSend v.st p out now, none, now⟩

/-- Runs of one node from `v₀`, with the events so far. -/
inductive NodeRun (c : PagingCfg) (v₀ : NodeView) : List NodeEvent → NodeView → Prop
  | start : NodeRun c v₀ [] v₀
  | step {tr o : List NodeEvent} {v v' : NodeView} (h : NodeRun c v₀ tr v) (hs : NodeStep c v o v') :
    NodeRun c v₀ (tr ++ o) v'

/-- Invariant rule for one node. -/
theorem NodeRun.inv {c : PagingCfg} {v₀ : NodeView} (I : NodeView → List NodeEvent → Prop) (h0 : I v₀ [])
    (hstep : ∀ v tr o v', I v tr → NodeStep c v o v' → I v' (tr ++ o)) {tr : List NodeEvent} {v : NodeView}
    (h : NodeRun c v₀ tr v) : I v tr := by
  induction h with
  | start => exact h0
  | step _ hs ih => exact hstep _ _ _ _ ih hs

end Psysmon
