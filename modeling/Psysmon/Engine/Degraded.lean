import Psysmon.Engine.Health

/-!
# Psysmon.Engine.Degraded — degraded readings inside an outage

With `page_on_degraded` off a `DEGRADED` reading changes `lastcheck` only, and `apply_result` documents that it is
never "allowed to reset an existing outage's counters".  We compare a sequence of results with the same sequence
without its `DEGRADED` readings.

* `Lock` relates the two runs after each result; they agree on the counters while no reading has come between two
  equal failures (`Lock.degraded`, `Lock.result`), and part at the first such pair (`Lock.bridged`).
* `neutral_iff_unbridged`: the readings are neutral at every point of the sequence iff the sequence is `Unbridged`.
* `degraded_resets_outage`: one reading between two equal failures restarts the count.
-/

namespace Psysmon

/-- The notifier's part: a `DOWN` intent marks the outage as paged. -/
def marked (s : NodeState) (i : PageIntent) : NodeState := if i = .down then { s with contacted := true } else s

/-- One result, applied with `page_on_degraded` off and followed by the notifier. -/
def applyMarked (s : NodeState) (x : ℤ × ℚ) : NodeState × PageIntent :=
  let a := applyResult s x.1 x.2 false
  (marked a.1 a.2.intent, a.2.intent)

/-- The page a result asks for; a `DEGRADED` reading is not counted. -/
def emitted (x : ℤ × ℚ) (i : PageIntent) : List PageIntent :=
  if x.1 = Status.degraded.code ∨ i = .none then [] else [i]

/-- A sequence of results (code and wall-clock time): the final state, and the pages asked for. -/
def feed : NodeState → List (ℤ × ℚ) → NodeState × List PageIntent
  | s, [] => (s, [])
  | s, x :: xs =>
    let a := applyMarked s x
    ((feed a.1 xs).1, emitted x a.2 ++ (feed a.1 xs).2)

/-- The results without the `DEGRADED` readings. -/
def withoutDegraded (xs : List (ℤ × ℚ)) : List (ℤ × ℚ) := xs.filter fun x => x.1 ≠ Status.degraded.code

/-- What an outage consists of: the counters, and the pages asked for. -/
def outcome (q : NodeState × List PageIntent) : ℤ × Bool × Lib.Number.PyFloat × List PageIntent :=
  (q.1.downct, q.1.contacted, q.1.deathtime, q.2)

/-- Deleting the `DEGRADED` readings changes nothing.  (Readings after the last other result leave the counters
alone, so the final state may be compared.) -/
def Neutral (s : NodeState) (xs : List (ℤ × ℚ)) : Prop := outcome (feed s xs) = outcome (feed s (withoutDegraded xs))

instance (s : NodeState) (xs : List (ℤ × ℚ)) : Decidable (Neutral s xs) := inferInstanceAs (Decidable (_ = _))

/-- **No failure is bridged**: no result other than `OK` follows a `DEGRADED` reading that came after the same result.
The one exception is a DNS failure, which is not counted: it may repeat, at the very time its outage began.
`last` is the last result that was not `DEGRADED`, `since` the time that result first came, and `bridge` tells whether
a reading came after it. -/
def Unbridged (last : ℤ) (since : Lib.Number.PyFloat) (bridge : Bool) : List (ℤ × ℚ) → Prop
  | [] => True
  | x :: xs =>
    if x.1 = Status.degraded.code then Unbridged last since true xs
    else
      (bridge = true → x.1 = last → x.1 ≠ Status.ok.code → x.1 = Status.noDns.code ∧ x.2 = since) ∧
        Unbridged x.1 (if x.1 = last then since else x.2) false xs

/-- The run with the readings (`a`) and the run without (`b`), after the same results. -/
structure Lock (a b : NodeState) (last : ℤ) (since : Lib.Number.PyFloat) (bridge : Bool) : Prop where
  downct : a.downct = b.downct
  contacted : a.contacted = b.contacted
  deathtime : a.deathtime = b.deathtime
  maxDown : a.maxDown = b.maxDown
  here : a.lastcheck = if bridge then 14 else last
  there : b.lastcheck = last
  since : last ≠ 0 → b.deathtime = since
  ok : Healthy b

section Step

variable {a b : NodeState} {last : ℤ} {since : Lib.Number.PyFloat} {bridge : Bool}

theorem Lock.start {s : NodeState} (h : Healthy s) : Lock s s s.lastcheck s.deathtime false :=
  ⟨rfl, rfl, rfl, rfl, rfl, rfl, fun _ => rfl, h⟩

theorem Lock.downIntent_eq (h : Lock a b last since bridge) {a' b' : NodeState} (hd : a'.downct = b'.downct)
    (ha : a'.contacted = a.contacted ∧ a'.maxDown = a.maxDown)
    (hb : b'.contacted = b.contacted ∧ b'.maxDown = b.maxDown) : downIntent a' = downIntent b' := by
  unfold downIntent
  rw [hd, ha.1, ha.2, hb.1, hb.2, h.contacted, h.maxDown]

/-- A reading leaves the counters alone. -/
theorem Lock.degraded (h : Lock a b last since bridge) {a' : NodeState} {i : PageIntent} {r : ℤ} {w : ℚ}
    (ha : Applied false a r w a' i) (hr : r = 14) : Lock (marked a' i) b last since true := by
  cases ha with
  | degraded => exact ⟨h.downct, h.contacted, h.deathtime, h.maxDown, rfl, h.there, h.since, h.ok⟩
  | sameError he => exact absurd (he.2.2 hr) (by decide)
  | newError he => exact absurd (he.2.2 hr) (by decide)
  | _ => omega

/-- Both runs are marked alike. -/
theorem Lock.marked (h : Lock a b last since bridge) {i : PageIntent} (hi : i = .down → last ≠ 0) :
    Lock (marked a i) (marked b i) last since bridge := by
  unfold Psysmon.marked
  split
  · rename_i hd
    have hl : b.lastcheck ≠ 0 := h.there ▸ hi hd
    exact ⟨h.downct, rfl, h.deathtime, h.maxDown, h.here, h.there, h.since, fun h0 => absurd h0 hl, h.ok.nonneg, h.ok.hot⟩
  · exact h

section Result

variable {r : ℤ} {w : ℚ} {a' b' : NodeState} {i j : PageIntent} (h : Lock a b last since bridge)
  (ha : Applied false a r w a' i) (hb : Applied false b r w b' j)

include h ha hb

theorem Lock.noDns (hr : r = 5) (hok : bridge = true → r = last → w = since) :
    i = j ∧ Lock a' b' r (if r = last then since else w) false := by
  have hok' := h.ok.applied hb
  obtain ⟨rfl, rfl⟩ := ha.eq_of_noDns hr
  obtain ⟨rfl, rfl⟩ := hb.eq_of_noDns hr
  have hthere : (if b.lastcheck ≠ 5 then ↑w else b.deathtime) = if r = last then since else w := by
    rw [h.there, ← hr]
    by_cases hl : r = last
    · rw [if_neg (not_not.mpr hl.symm), if_pos hl]
      exact h.since (by omega)
    · rw [if_pos (Ne.symm hl), if_neg hl]
  have hhere : (if a.lastcheck ≠ 5 then ↑w else a.deathtime) = if r = last then since else w := by
    cases bridge with
    | false =>
      have hl : a.lastcheck = b.lastcheck := h.here.trans h.there.symm
      rw [hl, h.deathtime]
      exact hthere
    | true =>
      have hl : a.lastcheck = 14 := h.here
      rw [hl, if_pos (by decide)]
      by_cases hl : r = last
      · rw [if_pos hl, hok rfl hl]
      · rw [if_neg hl]
  exact ⟨rfl, h.downct, h.contacted, hhere.trans hthere.symm, h.maxDown, hr.symm, hr.symm, fun _ => hthere, hok'⟩

theorem Lock.up (hr : r = 0) : i = j ∧ Lock a' b' r (if r = last then since else w) false := by
  have hok' := h.ok.applied hb
  rcases ha.eq_of_up hr with ⟨hal, rfl, rfl⟩ | ⟨hal, rfl, rfl⟩ <;>
    rcases hb.eq_of_up hr with ⟨hbl, rfl, rfl⟩ | ⟨hbl, rfl, rfl⟩
  · exact ⟨by rw [h.contacted], rfl, rfl, h.deathtime, h.maxDown, hr.symm, hr.symm, fun h0 => absurd hr h0, hok'⟩
  · -- a reading came while the node was up: coming up from it changes nothing
    obtain ⟨hd, hc⟩ := h.ok.up hbl
    exact ⟨by rw [h.contacted, hc]; rfl, hd.symm, hc.symm, h.deathtime, h.maxDown, hr.symm, hbl.trans hr.symm,
      fun h0 => absurd hr h0, hok'⟩
  · have hl := h.there
    have := h.here
    split at this <;> omega
  · exact ⟨rfl, h.downct, h.contacted, h.deathtime, h.maxDown, hal.trans hr.symm, hbl.trans hr.symm,
      fun h0 => absurd hr h0, hok'⟩

theorem Lock.error (he : PagingError false r) (hok : ¬ (bridge = true ∧ r = last)) :
    i = j ∧ Lock a' b' r (if r = last then since else w) false := by
  have hok' := h.ok.applied hb
  by_cases hl : r = last
  · have hbr : bridge = false := by simpa [hl] using hok
    have hal : a.lastcheck = r := by rw [h.here, hbr, hl]; rfl
    rw [if_pos hl]
    rcases ha.eq_of_error he with ⟨-, rfl, rfl⟩ | ⟨hne, -⟩
    · rcases hb.eq_of_error he with ⟨-, rfl, rfl⟩ | ⟨hne, -⟩
      · have hd : a.downct + 1 = b.downct + 1 := by rw [h.downct]
        exact ⟨h.downIntent_eq hd ⟨rfl, rfl⟩ ⟨rfl, rfl⟩, hd, h.contacted, h.deathtime, h.maxDown, hal,
          h.there.trans hl.symm, fun h0 => h.since (hl ▸ h0), hok'⟩
      · exact absurd (h.there.trans hl.symm) hne
    · exact absurd hal hne
  · have hbl : b.lastcheck ≠ r := fun hc => hl (hc.symm.trans h.there)
    have hal : a.lastcheck ≠ r := by
      rw [h.here]
      split
      · exact fun hc => absurd (he.2.2 hc.symm) (by decide)
      · exact Ne.symm hl
    rw [if_neg hl]
    rcases ha.eq_of_error he with ⟨hc, -⟩ | ⟨-, rfl, rfl⟩
    · exact absurd hc hal
    · rcases hb.eq_of_error he with ⟨hc, -⟩ | ⟨-, rfl, rfl⟩
      · exact absurd hc hbl
      · exact ⟨h.downIntent_eq rfl ⟨rfl, rfl⟩ ⟨rfl, rfl⟩, rfl, h.contacted, rfl, h.maxDown, rfl, rfl, fun _ => rfl, hok'⟩

/-- A result other than `DEGRADED`: the runs move alike unless the readings bridge two equal failures. -/
theorem Lock.result (hr : r ≠ 14) (hok : bridge = true → r = last → r ≠ 0 → r = 5 ∧ w = since) :
    i = j ∧ Lock a' b' r (if r = last then since else w) false := by
  by_cases h5 : r = 5
  · exact h.noDns ha hb h5 fun hbr hl => (hok hbr hl (by omega)).2
  by_cases h0 : r = 0
  · exact h.up ha hb h0
  exact h.error ha hb ⟨h0, h5, fun h14 => absurd h14 hr⟩ fun hc => h5 (hok hc.1 hc.2 h0).1

/-- **A bridged failure**: the run with the readings counts from one again, and dates the outage anew. -/
theorem Lock.bridged (hr : r ≠ 14) (hbr : bridge = true) (hl : r = last) (h0 : r ≠ 0)
    (hbad : ¬ (r = 5 ∧ w = since)) : a'.downct ≠ b'.downct ∨ a'.deathtime ≠ b'.deathtime := by
  have hal : a.lastcheck = 14 := by rw [h.here, hbr]; rfl
  have hbl : b.lastcheck = r := h.there.trans hl.symm
  by_cases h5 : r = 5
  · obtain ⟨rfl, -⟩ := ha.eq_of_noDns h5
    obtain ⟨rfl, -⟩ := hb.eq_of_noDns h5
    right
    dsimp only
    rw [hal, hbl, if_pos (by decide), if_neg (not_not.mpr h5), h.since (hl ▸ h0)]
    exact fun hw => hbad ⟨h5, hw⟩
  · have he : PagingError false r := ⟨h0, h5, fun h14 => absurd h14 hr⟩
    left
    rcases ha.eq_of_error he with ⟨hc, -⟩ | ⟨-, rfl, -⟩
    · omega
    rcases hb.eq_of_error he with ⟨-, rfl, -⟩ | ⟨hc, -⟩
    · have := h.ok.hot (hbl ▸ he)
      dsimp only
      omega
    · exact absurd hbl hc

end Result

/-! ### Whole sequences -/

theorem feed_cons (s : NodeState) (x : ℤ × ℚ) (xs : List (ℤ × ℚ)) :
    feed s (x :: xs) = ((feed (applyMarked s x).1 xs).1, emitted x (applyMarked s x).2 ++ (feed (applyMarked s x).1 xs).2) :=
  rfl

theorem outcome_append_inj (q q' : NodeState × List PageIntent) (l : List PageIntent) :
    outcome (q.1, l ++ q.2) = outcome (q'.1, l ++ q'.2) ↔ outcome q = outcome q' := by
  simp [outcome]

theorem forall_isPrefix_cons {α : Type*} {P : List α → Prop} (x : α) (xs : List α) :
    (∀ p, p <+: x :: xs → P p) ↔ P [] ∧ ∀ p, p <+: xs → P (x :: p) := by
  simp only [List.prefix_cons_iff]
  constructor
  · exact fun h => ⟨h [] (.inl rfl), fun p hp => h _ (.inr ⟨p, rfl, hp⟩)⟩
  · rintro ⟨h0, h⟩ p (rfl | ⟨q, rfl, hq⟩)
    · exact h0
    · exact h q hq

theorem Lock.outcome_nil (h : Lock a b last since bridge) : outcome (feed a []) = outcome (feed b []) := by
  simp [outcome, feed, h.downct, h.contacted, h.deathtime]

/-- A reading moves one run only. -/
theorem Lock.agree_reading (h : Lock a b last since bridge) {x : ℤ × ℚ} (hx : x.1 = 14) (p : List (ℤ × ℚ)) :
    Lock (applyMarked a x).1 b last since true ∧
      (outcome (feed a (x :: p)) = outcome (feed b (withoutDegraded (x :: p))) ↔
        outcome (feed (applyMarked a x).1 p) = outcome (feed b (withoutDegraded p))) := by
  have hw : withoutDegraded (x :: p) = withoutDegraded p := List.filter_cons_of_neg (by simp [hx])
  have he : emitted x (applyMarked a x).2 = [] := if_pos (.inl hx)
  rw [hw, feed_cons, he]
  exact ⟨h.degraded (applied_applyResult false a x.1 x.2) hx, Iff.rfl⟩

/-- Any other result moves both runs. -/
theorem Lock.agree_result (h : Lock a b last since bridge) {x : ℤ × ℚ} (hx : x.1 ≠ 14)
    (hok : bridge = true → x.1 = last → x.1 ≠ 0 → x.1 = 5 ∧ x.2 = since) (p : List (ℤ × ℚ)) :
    Lock (applyMarked a x).1 (applyMarked b x).1 x.1 (if x.1 = last then since else x.2) false ∧
      (outcome (feed a (x :: p)) = outcome (feed b (withoutDegraded (x :: p))) ↔
        outcome (feed (applyMarked a x).1 p) = outcome (feed (applyMarked b x).1 (withoutDegraded p))) := by
  have ha := applied_applyResult false a x.1 x.2
  have hb := applied_applyResult false b x.1 x.2
  obtain ⟨hij, hlock⟩ := h.result ha hb hx hok
  have hw : withoutDegraded (x :: p) = x :: withoutDegraded p := List.filter_cons_of_pos (decide_eq_true hx)
  have hi : (applyMarked a x).2 = (applyMarked b x).2 := hij
  have hm := hlock.marked (i := (applyResult b x.1 x.2 false).2.intent) fun hd => hb.lastcheck_eq ▸ hb.lastcheck_ne_zero hd
  rw [hw, feed_cons, feed_cons, hi, outcome_append_inj]
  refine ⟨?_, Iff.rfl⟩
  show Lock (Psysmon.marked _ _) (Psysmon.marked _ _) _ _ _
  rw [hij]
  exact hm

/-- At a bridged failure the runs disagree. -/
theorem Lock.disagree (h : Lock a b last since bridge) {x : ℤ × ℚ} (hx : x.1 ≠ 14) (hbr : bridge = true)
    (hl : x.1 = last) (h0 : x.1 ≠ 0) (hbad : ¬ (x.1 = 5 ∧ x.2 = since)) :
    outcome (feed a [x]) ≠ outcome (feed b (withoutDegraded [x])) := by
  have hw : withoutDegraded [x] = [x] := List.filter_cons_of_pos (decide_eq_true hx)
  have hmark : ∀ (s : NodeState) (i : PageIntent), (Psysmon.marked s i).downct = s.downct ∧
      (Psysmon.marked s i).deathtime = s.deathtime := fun s i => by unfold Psysmon.marked; split <;> exact ⟨rfl, rfl⟩
  intro heq
  rw [hw, feed_cons, feed_cons] at heq
  simp only [outcome, feed, applyMarked, hmark, Prod.mk.injEq] at heq
  rcases h.bridged (applied_applyResult false a x.1 x.2) (applied_applyResult false b x.1 x.2) hx hbr hl h0 hbad
    with hd | hd
  · exact hd heq.1
  · exact hd heq.2.2.1

/-- From locked states, the two runs agree at every point iff no failure is bridged. -/
theorem Lock.agree_iff (xs : List (ℤ × ℚ)) (h : Lock a b last since bridge) :
    (∀ p, p <+: xs → outcome (feed a p) = outcome (feed b (withoutDegraded p))) ↔ Unbridged last since bridge xs := by
  induction xs generalizing a b last since bridge with
  | nil =>
    refine ⟨fun _ => trivial, fun _ p hp => ?_⟩
    rw [List.prefix_nil.mp hp]
    exact h.outcome_nil
  | cons x xs ih =>
    rw [forall_isPrefix_cons, Unbridged]
    refine (and_iff_right (show _ = _ from h.outcome_nil)).trans ?_
    by_cases hx : x.1 = Status.degraded.code
    · rw [if_pos hx, ← ih (h.agree_reading hx []).1]
      exact forall₂_congr fun p _ => (h.agree_reading hx p).2
    · rw [if_neg hx]
      by_cases hok : bridge = true → x.1 = last → x.1 ≠ Status.ok.code → x.1 = Status.noDns.code ∧ x.2 = since
      · rw [and_iff_right hok, ← ih (h.agree_result hx hok []).1]
        exact forall₂_congr fun p _ => (h.agree_result hx hok p).2
      · refine iff_of_false (fun hall => ?_) fun hu => hok hu.1
        simp only [Classical.not_imp] at hok
        obtain ⟨hbr, hl, h0, hbad⟩ := hok
        exact h.disagree hx hbr hl h0 hbad (hall [] List.nil_prefix)

end Step

/-- **Degraded readings are neutral, at every point of a sequence of results, iff they bridge no failure**: for the
state of any node of a reachable scheduler. -/
theorem neutral_iff_unbridged (S : Sched) (hS : Reachable Sched.NoPendingPage S) (r : ℕ) (hr : r ∈ S.scheduled)
    (xs : List (ℤ × ℚ)) :
    (∀ p, p <+: xs → Neutral (S.objs r).state p) ↔
      Unbridged (S.objs r).state.lastcheck (S.objs r).state.deathtime false xs :=
  (Lock.start (hS.schedHealth.health r (hS.schedHealth.queue.sched_lt r hr)).ok).agree_iff xs

/-- A reading between two different failures, on a node that has just been scheduled. -/
theorem neutral_between_different_failures : ∃ S, Reachable Sched.NoPendingPage S ∧ 0 ∈ S.scheduled ∧
    ∀ p, p <+: [((1 : ℤ), (10 : ℚ)), (14, 20), (3, 30)] → Neutral (S.objs 0).state p := by
  have hS : Reachable Sched.NoPendingPage (Sched.init {} gatewayForest (fun _ => 0) 0 true) := .init _ _ _ _ _
  have hmem : 0 ∈ (Sched.init {} gatewayForest (fun _ => 0) 0 true).scheduled := by decide +kernel
  have hun : Unbridged 0 (.finite 0) false [((1 : ℤ), (10 : ℚ)), (14, 20), (3, 30)] := by
    simp [Unbridged]
  have hst : ((Sched.init {} gatewayForest (fun _ => 0) 0 true).objs 0).state.lastcheck = 0 ∧
      ((Sched.init {} gatewayForest (fun _ => 0) 0 true).objs 0).state.deathtime = .finite 0 := by decide +kernel
  refine ⟨_, hS, hmem, (neutral_iff_unbridged _ hS 0 hmem _).mpr ?_⟩
  rw [hst.1, hst.2]
  exact hun

/-- **One degraded reading restarts an outage**: the second failure counts as the first. -/
theorem degraded_resets_outage : ∃ S, Reachable Sched.NoPendingPage S ∧ 0 ∈ S.scheduled ∧
    outcome (feed (S.objs 0).state [(1, 10), (14, 20), (1, 30)]) = (1, false, .finite 30, []) ∧
    outcome (feed (S.objs 0).state (withoutDegraded [(1, 10), (14, 20), (1, 30)])) = (2, true, .finite 10, [.down]) :=
  ⟨_, .init {} gatewayForest (fun _ => 0) 0 true, by decide +kernel, by decide +kernel, by decide +kernel⟩

end Psysmon
