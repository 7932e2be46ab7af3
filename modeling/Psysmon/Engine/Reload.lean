import Psysmon.Engine.Gate
import Psysmon.Engine.Health

/-!
# Psysmon.Engine.Reload — the page mark of an outage across reloads

`reload` copies `contacted` to the node that survives it, and the check task of the old object may still write the flag
there afterwards.  `pageMark` is the flag as the pages of a key would set it, whichever object sent them.

* `NodeRun.mark`: one object's `contacted` never falls behind the mark its own events leave.
* `MarkInv`: nor does the surviving object's, over the events of all objects with its key, as long as no reload falls
  into a first `DOWN` send; that is the window between the state's copy and its `contacted = True`.
* `reload_keeps_mark_iff`: a reload keeps the mark of a surviving node, in every state reached later, iff no such send
  is pending.
* `second_first_page`: a run in which one does, and the outage is paged twice.
-/

namespace Psysmon

open Lib

/-! ## One object -/

/-- The mark after one more event: an up-transition clears it, a delivered first `DOWN` page or the start of a re-page
shows that it is set. -/
def markStep (b : Bool) : NodeEvent → Bool
  | .applied _ up _ _ => b && !up
  | .sendStart p _ => b || p = .repage
  | .sendEnd p ok _ => b || (ok && p = .first)

/-- The page mark the events of an outage leave. -/
def pageMark (evs : List NodeEvent) : Bool := evs.foldl markStep false

/-- Without an up-transition a set mark stays. -/
theorem foldl_markStep_true : ∀ {evs : List NodeEvent}, (∀ ev ∈ evs, ev.isUpTransition = false) →
    evs.foldl markStep true = true
  | [], _ => rfl
  | ev :: evs, h => by
    have hev : markStep true ev = true := by
      have := h ev (by simp)
      cases ev <;> simp_all [markStep, NodeEvent.isUpTransition]
    rw [List.foldl_cons, hev]
    exact foldl_markStep_true fun x hx => h x (by simp [hx])

/-- A verdict: the mark of its events is backed by `contacted`, and a first page starts only without one. -/
theorem mark_check {c : PagingCfg} {s : NodeState} {b : Bool} (h : b = true → s.contacted = true) (code : ℤ)
    (wall : ℚ) {now later : ℚ} (hl : now ≤ later) :
    ((checkEvents c s code wall now later).foldl markStep b = true →
      (applyAndPage c s code wall now later).1.contacted = true) ∧
    ∀ x t z, checkEvents c s code wall now later = x ++ NodeEvent.sendStart .first t :: z →
      x.foldl markStep b = false ∧ (∀ ev ∈ x, ev.isUpTransition = false) ∧
      (applyAndPage c s code wall now later).1.contacted = false := by
  by_cases hup : code = 0 ∧ s.lastcheck ≠ 0
  · obtain ⟨-, hpg, th, ak, hev⟩ := verdict_up c s code wall now later hup
    rw [hev]
    generalize (applyAndPage c s code wall now later).2.1 = pg at hpg ⊢
    split at hpg
    · subst hpg
      refine ⟨by simp [markStep], fun x t z hx => ?_⟩
      rcases x with _ | ⟨y, _ | ⟨y', x⟩⟩ <;> simp at hx
    · subst hpg
      refine ⟨by simp [markStep], fun x t z hx => ?_⟩
      rcases x with _ | ⟨y, x⟩ <;> simp at hx
  · obtain ⟨th, hev, hesc⟩ := verdict_quiet c s code wall now later hup
    have hesc := hesc hl
    rw [hev]
    generalize (applyAndPage c s code wall now later).1 = s' at hesc ⊢
    generalize (applyAndPage c s code wall now later).2.1 = pg at hesc ⊢
    cases pg with
    | none =>
      refine ⟨fun hm => hesc.contacted_iff.mpr (.inl (h (by simpa [markStep] using hm))), fun x t z hx => ?_⟩
      rcases x with _ | ⟨y, x⟩ <;> simp at hx
    | some p =>
      obtain ⟨hak, hco, hp⟩ := hesc.page p rfl
      rcases hp with ⟨rfl, hk, hth⟩ | ⟨rfl, hk, -⟩
      · have hb : b = false := by
          cases hb : b with
          | true => rw [h hb] at hk; exact absurd hk (by simp)
          | false => rfl
        have hk' : s'.contacted = false := by
          rw [← Bool.not_eq_true, hesc.contacted_iff]
          rintro (hc | ⟨-, hc | hc⟩)
          · rw [hk] at hc; exact absurd hc (by simp)
          · rw [hak] at hc; exact absurd hc (by simp)
          · rw [hc] at hco; exact absurd hco (by decide)
        refine ⟨fun hm => absurd hm (by simp [markStep, hb]), fun x t z hx => ?_⟩
        rcases x with _ | ⟨y, _ | ⟨y', x⟩⟩
        · simp at hx
        · simp only [sendStarts_some, List.cons_append, List.nil_append, List.cons.injEq] at hx
          rw [← hx.1, hb]
          exact ⟨rfl, by simp [NodeEvent.isUpTransition], hk'⟩
        · simp at hx
      · refine ⟨fun _ => hesc.contacted_iff.mpr (.inl hk), fun x t z hx => ?_⟩
        rcases x with _ | ⟨y, _ | ⟨y', x⟩⟩ <;> simp at hx

/-- A first `DOWN` page starts only without a mark. -/
def FirstRule (b : Bool) (before : List NodeEvent) (ev : NodeEvent) : Prop :=
  ∀ t, ev = .sendStart .first t → before.foldl markStep b = false

/-- **One object**: `contacted` backs the mark, and a first `DOWN` page starts only without one. -/
theorem NodeRun.mark {c : PagingCfg} {v₀ v : NodeView} {evs : List NodeEvent} {b : Bool}
    (h0 : b = true → v₀.st.contacted = true) (h : NodeRun c v₀ evs v) :
    (evs.foldl markStep b = true → v.st.contacted = true) ∧ Each (FirstRule b) evs := by
  refine h.inv (fun v evs => (evs.foldl markStep b = true → v.st.contacted = true) ∧ Each (FirstRule b) evs)
    ⟨h0, each_nil _⟩ ?_
  rintro v evs o v' ⟨h1, h2⟩ hs
  rw [List.foldl_append, each_append]
  cases hs with
  | quiet => exact ⟨h1, h2, each_nil _⟩
  | ack => exact ⟨h1, h2, each_nil _⟩
  | dispatch => exact ⟨h1, h2, each_nil _⟩
  | drop => exact ⟨h1, h2, each_nil _⟩
  | check _ code wall now later hn hl =>
    obtain ⟨h3, h4⟩ := mark_check (c := c) h1 code wall hl
    refine ⟨h3, h2, ?_⟩
    rintro x ev z hx t rfl
    rw [List.foldl_append]
    exact (h4 x t z hx).1
  | @sent p ch htask out ended now =>
    refine ⟨fun hm => ?_, h2, ?_⟩
    · cases p <;> cases out <;> simp_all [markStep, afterSend]
    · rintro x ev z hx t rfl
      rcases x with _ | ⟨y, x⟩ <;> simp at hx

/-- A send is pending since the start of the run, or was started by its last event. -/
theorem NodeRun.sending {c : PagingCfg} {v₀ v : NodeView} {evs : List NodeEvent} (h : NodeRun c v₀ evs v) {p : Page}
    {ch : Bool} (hv : v.task = some (.sending p ch)) :
    (evs = [] ∧ v₀.task = some (.sending p ch)) ∨ ∃ x t, evs = x ++ [NodeEvent.sendStart p t] := by
  refine h.inv (fun v evs => v.task = some (.sending p ch) → (evs = [] ∧ v₀.task = some (.sending p ch)) ∨
    ∃ x t, evs = x ++ [NodeEvent.sendStart p t]) (fun h => .inl ⟨rfl, h⟩) ?_ hv
  rintro v evs o v' ih hs hv
  cases hs with
  | quiet => rw [List.append_nil]; exact ih hv
  | ack => rw [List.append_nil]; exact ih hv
  | dispatch => simp at hv
  | drop => simp at hv
  | check _ code wall now later =>
    obtain ⟨s₁, i, -, -, hev⟩ := applyAndPage_spec c v.st code wall now later
    obtain ⟨p', hp', hph⟩ := Option.map_eq_some_iff.mp hv
    obtain ⟨rfl, -⟩ := Phase.sending.inj hph
    rw [hev, hp', sendStarts_some, List.append_cons]
    exact .inr ⟨_, later, rfl⟩
  | sent => simp at hv

/-- Without an event the flag stays. -/
theorem NodeRun.contacted_eq {c : PagingCfg} {v₀ v : NodeView} {evs : List NodeEvent} (h : NodeRun c v₀ evs v) :
    evs = [] → v.st.contacted = v₀.st.contacted := by
  refine h.inv (fun v evs => evs = [] → v.st.contacted = v₀.st.contacted) (fun _ => rfl) ?_
  rintro v evs o v' ih hs hnil
  obtain ⟨rfl, rfl⟩ := List.append_eq_nil_iff.mp hnil
  cases hs <;> exact ih rfl

/-! ## The nodes of one key -/

/-- The key of the object `r`. -/
def Sched.keyOf (S : Sched) (r : ℕ) : NodeKey := (S.objs r).node.key

/-- The events of all objects with the key `k`. -/
def keyEvents (S : Sched) (k : NodeKey) (tr : List Event) : List NodeEvent :=
  (tr.filter fun e => S.keyOf e.1 = k).map Prod.snd

/-- Exactly one scheduled node has the key `k`. -/
def Sched.Sole (S : Sched) (k : NodeKey) : Prop :=
  ∃ r ∈ S.scheduled, S.keyOf r = k ∧ ∀ q ∈ S.scheduled, S.keyOf q = k → q = r

instance (S : Sched) (k : NodeKey) : Decidable (S.Sole k) := by unfold Sched.Sole; infer_instance

/-- No node has had the key `k` so far. -/
def Sched.Unused (S : Sched) (k : NodeKey) : Prop := ∀ r < S.fresh, S.keyOf r ≠ k

/-- No first `DOWN` page of `k` is being sent. -/
def Sched.NoFirstPending (S : Sched) (k : NodeKey) : Prop := ∀ r ch, (r, Phase.sending .first ch) ∈ S.tasks → S.keyOf r ≠ k

/-- Where a segment may stand: `k` is unique, and a reload does not fall into a first `DOWN` send of `k`. -/
def SafePlace (k : NodeKey) (S : Sched) (a : Label) : Prop :=
  (S.Unused k ∨ S.Sole k) ∧ (a.isReload = true → S.NoFirstPending k)

/-- A `DOWN` page of `k` was delivered, and no node with that key has come up since it was sent. -/
def OutagePaged (S : Sched) (k : NodeKey) (tr : List Event) : Prop :=
  ∃ x r p t y e z, tr = x ++ (r, NodeEvent.sendStart p t) :: (y ++ (r, NodeEvent.sendEnd p true e) :: z) ∧
    S.keyOf r = k ∧ p.intent = .down ∧ ∀ ev ∈ y ++ z, S.keyOf ev.1 = k → ev.2.isUpTransition = false

/-- **The page mark is kept**: the node of a paged outage is contacted, and no outage is paged a first time twice. -/
def MarkKept (k : NodeKey) (S : Sched) (tr : List Event) : Prop :=
  (∀ r ∈ S.scheduled, S.keyOf r = k → OutagePaged S k tr → (S.objs r).state.contacted = true) ∧
  ∀ x r t z, tr = x ++ (r, NodeEvent.sendStart .first t) :: z → S.keyOf r = k → ¬ OutagePaged S k x

theorem keyEvents_append (S : Sched) (k : NodeKey) (t₁ t₂ : List Event) :
    keyEvents S k (t₁ ++ t₂) = keyEvents S k t₁ ++ keyEvents S k t₂ := by
  simp [keyEvents]

theorem keyEvents_cons_self {S : Sched} {k : NodeKey} {r : ℕ} (hr : S.keyOf r = k) (ev : NodeEvent) (tr : List Event) :
    keyEvents S k ((r, ev) :: tr) = ev :: keyEvents S k tr := by
  simp [keyEvents, hr]

theorem keyEvents_map_self {S : Sched} {k : NodeKey} {q : ℕ} (hq : S.keyOf q = k) (es : List NodeEvent) :
    keyEvents S k (es.map (q, ·)) = es := by
  simp [keyEvents, List.filter_map, Function.comp_def, hq]

theorem keyEvents_map_of_ne {S : Sched} {k : NodeKey} {q : ℕ} (hq : S.keyOf q ≠ k) (es : List NodeEvent) :
    keyEvents S k (es.map (q, ·)) = [] := by
  simp [keyEvents, List.filter_map, Function.comp_def, hq]

theorem keyEvents_quiet {S : Sched} {k : NodeKey} {tr : List Event}
    (h : ∀ ev ∈ tr, S.keyOf ev.1 = k → ev.2.isUpTransition = false) :
    ∀ ev ∈ keyEvents S k tr, ev.isUpTransition = false := by
  intro ev hev
  obtain ⟨e, he, rfl⟩ := List.mem_map.mp hev
  obtain ⟨hmem, hk⟩ := List.mem_filter.mp he
  exact h e hmem (by simpa using hk)

/-- A paged outage leaves its mark. -/
theorem OutagePaged.pageMark {S : Sched} {k : NodeKey} {tr : List Event} (h : OutagePaged S k tr) :
    pageMark (keyEvents S k tr) = true := by
  obtain ⟨x, r, p, t, y, e, z, rfl, hr, hp, hup⟩ := h
  have hy := keyEvents_quiet fun ev hev => hup ev (List.mem_append_left z hev)
  have hz := keyEvents_quiet fun ev hev => hup ev (List.mem_append_right y hev)
  rw [keyEvents_append, keyEvents_cons_self hr, keyEvents_append, keyEvents_cons_self hr]
  unfold Psysmon.pageMark
  rw [List.foldl_append, List.foldl_cons, List.foldl_append, List.foldl_cons]
  cases p with
  | first =>
    have : ∀ b, markStep b (NodeEvent.sendEnd .first true e) = true := by simp [markStep]
    rw [this]
    exact foldl_markStep_true hz
  | repage =>
    have : ∀ b, markStep b (NodeEvent.sendStart .repage t) = true := by simp [markStep]
    rw [this, foldl_markStep_true hy]
    exact foldl_markStep_true hz
  | recovery => simp [Page.intent] at hp

/-- The invariant of the key `k`. -/
structure MarkInv (k : NodeKey) (S : Sched) (tr : List Event) : Prop where
  queue : QueueInv S []
  known : ∀ e ∈ tr, e.1 < S.fresh
  marks : ∀ r ∈ S.scheduled, S.keyOf r = k → pageMark (keyEvents S k tr) = true → (S.objs r).state.contacted = true
  starts : Each (FirstRule false) (keyEvents S k tr)
  /-- A first `DOWN` send belongs to the scheduled node, which is not contacted and has not come up since. -/
  pending : ∀ r ch, (r, Phase.sending .first ch) ∈ S.tasks → S.keyOf r = k →
    r ∈ S.scheduled ∧ (S.objs r).state.contacted = false ∧
    ∃ x t y, tr = x ++ (r, NodeEvent.sendStart .first t) :: y ∧
      ∀ ev ∈ y, S.keyOf ev.1 = k → ev.2.isUpTransition = false

theorem MarkInv.kept {k : NodeKey} {S : Sched} {tr : List Event} (h : MarkInv k S tr) : MarkKept k S tr := by
  refine ⟨fun r hr hk hp => h.marks r hr hk hp.pageMark, ?_⟩
  rintro x r t z rfl hk hp
  have hev := h.starts
  rw [keyEvents_append, keyEvents_cons_self hk] at hev
  have := hev _ _ _ rfl t rfl
  rw [show (keyEvents S k x).foldl markStep false = true from hp.pageMark] at this
  exact absurd this (by simp)

/-! ### One segment -/

/-- **Where the events of a segment come from**: the end of a pending send, or a result applied to a scheduled node. -/
theorem step_source {S S' : Sched} {a : Label} {o : List Event} (hq : QueueInv S []) (hs : S.step a = some (S', o)) :
    o = [] ∨ ∃ q < S.fresh, ∃ es : List NodeEvent, o = es.map (q, ·) ∧
      (q ∈ S.scheduled ∨ ∃ p ch ok e, (q, Phase.sending p ch) ∈ S.tasks ∧ es = [NodeEvent.sendEnd p ok e]) := by
  cases Sched.stepped hs with
  | @verdict q code wall now later ht =>
    by_cases hal : (S.objs q).alive = true
    · exact .inr ⟨q, hq.task_lt _ ht, _, rfl, .inl ((hq.alive_iff q).mp hal)⟩
    · refine .inl ?_
      unfold Sched.applyVerdict
      rw [if_pos (by simpa using hal)]
      rfl
  | sent ht => exact .inr ⟨_, hq.task_lt _ ht, [_], rfl, .inr ⟨_, _, _, _, ht, rfl⟩⟩
  | _ => exact .inl rfl

section Step

variable {k : NodeKey} {S S' : Sched} {tr o : List Event} {a : Label}

/-- The events of `k` in a segment are those of its scheduled node, or an orphan's re-page or recovery ends. -/
theorem MarkInv.events (h : MarkInv k S tr) (hs : S.step a = some (S', o)) {r : ℕ} (hk : S.keyOf r = k)
    (hsole : ∀ q ∈ S.scheduled, S.keyOf q = k → q = r) :
    keyEvents S k o = eventsOf r o ∨
      eventsOf r o = [] ∧ ∃ p ok e, p ≠ .first ∧ keyEvents S k o = [NodeEvent.sendEnd p ok e] := by
  rcases step_source h.queue hs with rfl | ⟨q, -, es, rfl, hsrc⟩
  · exact .inl rfl
  by_cases hqr : q = r
  · subst hqr
    exact .inl (by rw [keyEvents_map_self hk, eventsOf_map_self])
  rw [eventsOf_map_of_ne (Ne.symm hqr)]
  by_cases hkq : S.keyOf q = k
  · rw [keyEvents_map_self hkq]
    rcases hsrc with hq | ⟨p, ch, ok, e, ht, rfl⟩
    · exact absurd (hsole q hq hkq) hqr
    · refine .inr ⟨rfl, p, ok, e, ?_, rfl⟩
      rintro rfl
      exact hqr (hsole q (h.pending q ch ht hkq).1 hkq)
  · exact .inl (keyEvents_map_of_ne hkq es)

/-- One segment, seen at the scheduled node of `k`: the mark is backed, and first pages start without one. -/
theorem MarkInv.marks_step (h : MarkInv k S tr) (hs : S.step a = some (S', o)) {r : ℕ} (hr : r ∈ S.scheduled)
    (hk : S.keyOf r = k) (hsole : ∀ q ∈ S.scheduled, S.keyOf q = k → q = r) :
    (pageMark (keyEvents S k tr ++ keyEvents S k o) = true → (S'.objs r).state.contacted = true) ∧
      Each (FirstRule false) (keyEvents S k tr ++ keyEvents S k o) := by
  have hrun := project_step h.queue hs (h.queue.sched_lt r hr)
  have hmark := hrun.mark (h.marks r hr hk)
  unfold pageMark at hmark ⊢
  rw [List.foldl_append, each_append]
  rcases h.events hs hk hsole with he | ⟨hnil, p, ok, e, hp, he⟩
  · rw [he]
    refine ⟨hmark.1, h.starts, ?_⟩
    rintro x ev z hx t rfl
    rw [List.foldl_append]
    exact hmark.2 x _ z hx t rfl
  · rw [he]
    refine ⟨fun hm => hmark.1 ?_, h.starts, ?_⟩
    · rw [hnil]
      simpa [markStep, hp] using hm
    · rintro x ev z hx t rfl
      rcases x with _ | ⟨y, x⟩ <;> simp at hx

/-- One segment, seen at a first `DOWN` send of `k`. -/
theorem MarkInv.pending_step (h : MarkInv k S tr) (hs : S.step a = some (S', o)) (hq' : QueueInv S' []) {r : ℕ} {ch : Bool}
    (ht : (r, Phase.sending .first ch) ∈ S'.tasks) (hlt : r < S.fresh) (hk : S.keyOf r = k)
    (hsole : ∀ p ∈ S.scheduled, ∀ q ∈ S.scheduled, S.keyOf p = k → S.keyOf q = k → p = q) :
    r ∈ S.scheduled ∧ (S'.objs r).state.contacted = false ∧
    ∃ x t y, tr ++ o = x ++ (r, NodeEvent.sendStart .first t) :: y ∧
      ∀ ev ∈ y, S.keyOf ev.1 = k → ev.2.isUpTransition = false := by
  have hrun := project_step h.queue hs hlt
  rcases hrun.sending (Sched.phaseOf_of_mem (hq'.task_le r) ht) with ⟨hnil, hold⟩ | ⟨x, t, hx⟩
  · -- pending before: nothing of `k` happens but the end of an orphan's send
    obtain ⟨hr, hc, x, t, y, rfl, hy⟩ := h.pending r ch (Sched.phaseOf_mem hold) hk
    refine ⟨hr, (hrun.contacted_eq hnil).trans hc, x, t, y ++ o, by simp, fun ev hev hkev => ?_⟩
    rcases List.mem_append.mp hev with hev | hev
    · exact hy ev hev hkev
    · have hmem : ev.2 ∈ keyEvents S k o := List.mem_map_of_mem (List.mem_filter.mpr ⟨hev, by simpa using hkev⟩)
      rcases h.events hs hk (fun q hq hkq => hsole q hq r hr hkq hk) with he | ⟨-, p, ok, e, -, he⟩
      · rw [he, hnil] at hmem
        exact absurd hmem (by simp)
      · rw [he, List.mem_singleton] at hmem
        rw [hmem]
        rfl
  · -- started here, by a verdict on a scheduled node
    rcases step_events hs r with hev | ⟨p, ok, e, hev⟩ | ⟨code, wall, now, later, hal, -, hl, hev, hst, -⟩
    · rw [hx] at hev
      exact absurd hev (by simp)
    · rw [hx] at hev
      rcases x with _ | ⟨y, x⟩ <;> simp at hev
    · obtain ⟨-, hup, hc⟩ := (mark_check (b := false) (by simp) code _ hl).2 x t [] (hev ▸ hx)
      refine ⟨(h.queue.alive_iff r).mp hal, hst ▸ hc, tr ++ x.map (r, ·), t, [], ?_, by simp⟩
      rcases step_source h.queue hs with rfl | ⟨q, -, es, rfl, -⟩
      · simp [eventsOf] at hx
      · by_cases hqr : r = q
        · subst hqr
          rw [eventsOf_map_self] at hx
          simp [hx]
        · rw [eventsOf_map_of_ne hqr] at hx
          exact absurd hx (by simp)

/-- The events of `k` are the same in a later state. -/
theorem keyEvents_congr (hkey : ∀ r < S.fresh, S'.keyOf r = S.keyOf r) (hknown : ∀ e ∈ tr, e.1 < S.fresh) :
    keyEvents S' k tr = keyEvents S k tr := by
  unfold keyEvents
  rw [List.filter_congr fun e he => by rw [hkey _ (hknown e he)]]

theorem step_known (hq : QueueInv S []) (hs : S.step a = some (S', o)) : ∀ e ∈ o, e.1 < S.fresh := by
  rcases step_source hq hs with rfl | ⟨q, hlt, es, rfl, -⟩
  · simp
  · intro e he
    obtain ⟨ev, -, rfl⟩ := List.mem_map.mp he
    exact hlt

/-- At most one scheduled node has a key that is unused or sole. -/
theorem unique_of_sole (hq : QueueInv S []) (h : S.Unused k ∨ S.Sole k) :
    ∀ p ∈ S.scheduled, ∀ q ∈ S.scheduled, S.keyOf p = k → S.keyOf q = k → p = q := by
  intro p hp q hq' hkp hkq
  rcases h with h | ⟨r, -, -, hr⟩
  · exact absurd hkp (h p (hq.sched_lt p hp))
  · rw [hr p hp hkp, hr q hq' hkq]

/-- A segment other than a reload. -/
theorem MarkInv.step_kept (h : MarkInv k S tr) (hs : S.step a = some (S', o)) (ha : a.isReload = false)
    (hsole : S.Unused k ∨ S.Sole k) : MarkInv k S' (tr ++ o) := by
  have hkept := (Sched.stepped hs).kept ha
  have hq' := h.queue.step hs
  have hun := unique_of_sole h.queue hsole
  have hkey : ∀ r, S'.keyOf r = S.keyOf r := fun r => by unfold Sched.keyOf; rw [hkept.node r]
  have hknown : ∀ e ∈ tr ++ o, e.1 < S.fresh := fun e he =>
    (List.mem_append.mp he).elim (h.known e) (step_known h.queue hs e)
  have hevs : keyEvents S' k (tr ++ o) = keyEvents S k tr ++ keyEvents S k o := by
    rw [keyEvents_congr (fun r _ => hkey r) hknown, keyEvents_append]
  refine ⟨hq', by rw [hkept.fresh]; exact hknown, fun r hr hk => ?_, ?_, fun r ch ht hk => ?_⟩
  · rw [hkept.scheduled] at hr
    rw [hkey] at hk
    rw [hevs]
    exact (h.marks_step hs hr hk fun q hq hkq => hun q hq r hr hkq hk).1
  · rw [hevs]
    rcases hsole with hun' | ⟨r, hr, hk, hr'⟩
    · -- no node has the key: no event either
      have hnil : keyEvents S k o = [] := by
        unfold keyEvents
        rw [List.filter_eq_nil_iff.mpr fun e he => by simpa using hun' _ (step_known h.queue hs e he)]
        rfl
      rw [hnil, List.append_nil]
      exact h.starts
    · exact (h.marks_step hs hr hk hr').2
  · have hlt : r < S.fresh := hkept.fresh ▸ hq'.task_lt _ ht
    rw [hkey] at hk
    obtain ⟨h1, h2, x, t, y, h3, h4⟩ := h.pending_step hs hq' ht hlt hk hun
    exact ⟨hkept.scheduled ▸ h1, h2, x, t, y, h3, fun ev hev hkev => h4 ev hev (by rwa [hkey] at hkev)⟩

/-- The node that survives a reload carries the flag of its predecessor. -/
theorem contacted_reload {F : Forest} {wall : ℕ → ℚ} {now : ℚ} {r q : ℕ}
    (hr : r ∈ (S.reload F wall now).scheduled) (hk : (S.reload F wall now).keyOf r = k) (hqs : q ∈ S.scheduled)
    (hkq : S.keyOf q = k) (hsole : ∀ p ∈ S.scheduled, S.keyOf p = k → p = q) :
    ((S.reload F wall now).objs r).state.contacted = (S.objs q).state.contacted := by
  obtain ⟨-, -, -, hsched, hobjs⟩ := S.reload_frame F wall now
  rw [hsched] at hr
  obtain ⟨o, ho, heq⟩ := S.allocate_new _ hr
  obtain ⟨o', ho', rfl⟩ := List.mem_map.mp ho
  unfold Sched.keyOf at hk
  rw [hobjs, heq] at hk ⊢
  have hk' : o'.node.key = k := by
    rw [← hk]
    unfold Sched.carry
    split <;> rfl
  have hprev : S.previous o'.node.key = some q := by
    have hmem : q ∈ S.scheduled.filter fun r => (S.objs r).node.key = o'.node.key :=
      List.mem_filter.mpr ⟨hqs, by simpa [hk', Sched.keyOf] using hkq⟩
    obtain ⟨p, hp⟩ := Option.isSome_iff_exists.mp (List.getLast?_isSome.mpr (List.ne_nil_of_mem hmem))
    obtain ⟨hp1, hp2⟩ := List.mem_filter.mp (List.mem_of_getLast? hp)
    unfold Sched.previous
    rw [hp, hsole p hp1 (by simpa [hk', Sched.keyOf] using hp2)]
  unfold Sched.carry
  rw [hprev]
  rfl

theorem keyOf_reload (F : Forest) (wall : ℕ → ℚ) (now : ℚ) {r : ℕ} (hr : r < S.fresh) :
    (S.reload F wall now).keyOf r = S.keyOf r := by
  unfold Sched.keyOf
  rw [S.reload_old F wall now hr]

/-- A reload outside the first `DOWN` sends of `k`. -/
theorem MarkInv.reload (h : MarkInv k S tr) (F : Forest) (wall : ℕ → ℚ) (now : ℚ) (hsole : S.Unused k ∨ S.Sole k)
    (hpend : S.NoFirstPending k) : MarkInv k (S.reload F wall now) tr := by
  obtain ⟨htasks, -, hfresh, -, -⟩ := S.reload_frame F wall now
  have hevs : keyEvents (S.reload F wall now) k tr = keyEvents S k tr :=
    keyEvents_congr (fun r hr => keyOf_reload F wall now hr) h.known
  refine ⟨h.queue.reload F wall now, fun e he => by have := h.known e he; omega, fun r hr hk hm => ?_, hevs ▸ h.starts,
    fun r ch ht hk => ?_⟩
  · rw [hevs] at hm
    rcases hsole with hun | ⟨q, hq, hkq, hq'⟩
    · -- a new key: nothing has happened to it
      have hnil : keyEvents S k tr = [] := by
        unfold keyEvents
        rw [List.filter_eq_nil_iff.mpr fun e he => by simpa using hun _ (h.known e he)]
        rfl
      rw [hnil] at hm
      exact absurd hm (by decide)
    · rw [contacted_reload hr hk hq hkq hq']
      exact h.marks q hq hkq hm
  · rw [htasks] at ht
    rw [keyOf_reload F wall now (h.queue.task_lt _ ht)] at hk
    exact absurd hk (hpend r ch ht)

theorem MarkInv.step (h : MarkInv k S tr) (hp : SafePlace k S a) (hs : S.step a = some (S', o)) :
    MarkInv k S' (tr ++ o) := by
  by_cases ha : a.isReload = true
  · cases Sched.stepped hs with
    | reload => exact (List.append_nil tr).symm ▸ h.reload _ _ _ hp.1 (hp.2 rfl)
    | _ => simp [Label.isReload] at ha
  · exact h.step_kept hs (by simpa using ha) hp.1

end Step

theorem MarkInv.init (k : NodeKey) (settings : Settings) (F : Forest) (wall : ℕ → ℚ) (now : ℚ) (stagger : Bool) :
    MarkInv k (Sched.init settings F wall now stagger) [] := by
  refine ⟨.init settings F wall now stagger, by simp, fun r _ _ hm => absurd hm (by simp [pageMark, keyEvents]), each_nil _,
    fun r ch ht => ?_⟩
  obtain ⟨h, n, hS⟩ := Sched.install_frame _ (Sched.newScheduled settings F 0 wall now stagger)
  unfold Sched.init at ht
  rw [hS] at ht
  simp at ht

/-! ## Reload placements -/

/-- The delivery that falls after a reload in a first `DOWN` send reaches the orphan only. -/
theorem MarkInv.lost {k : NodeKey} {S : Sched} {tr : List Event} (h : MarkInv k S tr) (hsole : S.Sole k) {F : Forest}
    {wall : ℕ → ℚ} {now : ℚ} (hR : (S.reload F wall now).Sole k) {r : ℕ} {ch : Bool}
    (ht : (r, Phase.sending .first ch) ∈ S.tasks) (hk : S.keyOf r = k) :
    ∃ S', exec Sched.step (S.reload F wall now) [.sent r .first ch .delivered now now] =
        some (S', [(r, NodeEvent.sendEnd .first true now)]) ∧
      ¬ MarkKept k S' (tr ++ [(r, NodeEvent.sendEnd .first true now)]) := by
  obtain ⟨hr, hc, x, t, y, htr, hup⟩ := h.pending r ch ht hk
  obtain ⟨q, hq, hkq, hq'⟩ := hsole
  obtain rfl := hq' r hr hk
  obtain ⟨r', hr', hkr', -⟩ := hR
  have htasks := (S.reload_frame F wall now).1
  have hlt := h.queue.sched_lt r hr
  obtain ⟨S', hs⟩ : ∃ S', (S.reload F wall now).step (.sent r .first ch .delivered now now) =
      some (S', [(r, NodeEvent.sendEnd .first true now)]) :=
    ⟨_, if_pos ⟨htasks ▸ ht, le_rfl, le_rfl⟩⟩
  have hkept := (Sched.stepped hs).kept rfl
  have hkey : ∀ p, S'.keyOf p = (S.reload F wall now).keyOf p := fun p => by unfold Sched.keyOf; rw [hkept.node p]
  refine ⟨S', by simp [exec, hs], fun hkept' => ?_⟩
  have hrr' : r' ≠ r := by
    rw [(S.reload_frame F wall now).2.2.2.1] at hr'
    have := ((S.mem_newRefs _).mp hr').1
    omega
  have hnew : (S'.objs r').state.contacted = false := by
    have hrun := project_step (h.queue.reload F wall now) hs ((h.queue.reload F wall now).sched_lt r' hr')
    have hnil := eventsOf_map_of_ne hrr' [NodeEvent.sendEnd .first true now]
    exact ((hrun.contacted_eq hnil).trans (contacted_reload hr' hkr' hq hkq hq')).trans hc
  have hpaged : OutagePaged S' k (tr ++ [(r, NodeEvent.sendEnd .first true now)]) := by
    refine ⟨x, r, .first, t, y, now, [], by rw [htr]; simp, ?_, rfl, fun ev hev hkev => ?_⟩
    · rw [hkey, keyOf_reload F wall now hlt, hk]
    · rw [List.append_nil] at hev
      have hev' : ev ∈ tr := by rw [htr]; simp [hev]
      rw [hkey, keyOf_reload F wall now (h.known ev hev')] at hkev
      exact hup ev hev hkev
  rw [hkept'.1 r' (hkept.scheduled ▸ hr') ((hkey r').trans hkr') hpaged] at hnew
  exact absurd hnew (by simp)

/-- **A reload keeps the page mark of a surviving node iff it does not fall into a first `DOWN` send of that node.**
Before the reload the run was safe; after it, any safe run may follow. -/
theorem reload_keeps_mark_iff (settings : Settings) (F₀ : Forest) (wall₀ : ℕ → ℚ) (now₀ : ℚ) (stagger : Bool)
    (k : NodeKey) (as : List Label) (S : Sched) (tr : List Event)
    (he : exec Sched.step (Sched.init settings F₀ wall₀ now₀ stagger) as = some (S, tr))
    (hsafe : Along Sched.step (SafePlace k) (Sched.init settings F₀ wall₀ now₀ stagger) as)
    (F : Forest) (wall : ℕ → ℚ) (now : ℚ) (S₁ : Sched) (o : List Event)
    (hrel : S.step (.reload F wall now) = some (S₁, o)) (hS : S.Sole k) (hS₁ : S₁.Sole k) :
    (∀ bs S₂ tr₂, exec Sched.step S₁ bs = some (S₂, tr₂) → Along Sched.step (SafePlace k) S₁ bs →
      MarkKept k S₂ (tr ++ tr₂)) ↔ S.NoFirstPending k := by
  have hinv : MarkInv k S tr :=
    exec_inv (MarkInv k) (fun _ _ _ _ _ h hp hs => h.step hp hs) (.init k settings F₀ wall₀ now₀ stagger) hsafe he
  obtain rfl : S₁ = S.reload F wall now := by cases Sched.stepped hrel; rfl
  constructor
  · intro hall r ch ht hk
    obtain ⟨S', hs, hnot⟩ := hinv.lost hS hS₁ ht hk
    exact hnot (hall _ _ _ hs ⟨⟨.inr hS₁, by simp [Label.isReload]⟩, fun _ _ => trivial⟩)
  · intro hpend bs S₂ tr₂ he₂ hsafe₂
    have hinv₁ := hinv.reload F wall now (.inr hS) hpend
    exact (exec_inv_from (MarkInv k) (fun _ _ _ _ _ h hp hs => h.step hp hs) tr hinv₁ hsafe₂ he₂).kept

/-- Without a reload every place is safe. -/
theorem along_safe {k : NodeKey} : ∀ {as : List Label} {S : Sched}, S.Sole k → (∀ a ∈ as, a.isReload = false) →
    Along Sched.step (SafePlace k) S as
  | [], _, _, _ => trivial
  | a :: as, S, hS, hno => by
    have ha := hno a (by simp)
    refine ⟨⟨.inr hS, fun h => absurd h (by simp [ha])⟩, fun q hs => ?_⟩
    have hkept := (Sched.stepped hs).kept ha
    refine along_safe ?_ fun b hb => hno b (by simp [hb])
    obtain ⟨r, hr, hk, hr'⟩ := hS
    unfold Sched.Sole Sched.keyOf
    simp only [hkept.scheduled, hkept.node]
    exact ⟨r, hr, hk, hr'⟩

/-- The router of `gatewayForest`. -/
def gatewayKey : NodeKey := ⟨"gw".toList, .ping, 0⟩

/-- A reload after the router's page was delivered. -/
theorem reload_keeps_mark_after_delivery : ∃ S tr S₁ o,
    exec Sched.step (Sched.init {} gatewayForest (fun _ => 0) 0 true)
      (pageRun ++ [.sent 0 .first true .delivered 33 34]) = some (S, tr) ∧
    S.step (.reload gatewayForest (fun _ => 9) 40) = some (S₁, o) ∧
    ∀ bs S₂ tr₂, exec Sched.step S₁ bs = some (S₂, tr₂) → Along Sched.step (SafePlace gatewayKey) S₁ bs →
      MarkKept gatewayKey S₂ (tr ++ tr₂) := by
  have hrun : (exec Sched.step (Sched.init {} gatewayForest (fun _ => 0) 0 true)
      (pageRun ++ [.sent 0 .first true .delivered 33 34])).map (fun q => (q.1.tasks, decide (q.1.Sole gatewayKey),
        (q.1.step (.reload gatewayForest (fun _ => 9) 40)).map fun q => decide (q.1.Sole gatewayKey))) =
      some ([], true, some true) := by
    decide +kernel
  obtain ⟨⟨S, tr⟩, he, hq⟩ := Option.map_eq_some_iff.mp hrun
  simp only [Prod.mk.injEq] at hq
  obtain ⟨htasks, hS, hrel⟩ := hq
  obtain ⟨⟨S₁, o⟩, hrel, hS₁⟩ := Option.map_eq_some_iff.mp hrel
  have h0 : (Sched.init {} gatewayForest (fun _ => 0) 0 true).Sole gatewayKey := by decide +kernel
  refine ⟨S, tr, S₁, o, he, hrel, ?_⟩
  exact (reload_keeps_mark_iff {} gatewayForest (fun _ => 0) 0 true gatewayKey _ S tr he
    (along_safe h0 (by decide)) gatewayForest (fun _ => 9) 40 S₁ o hrel (of_decide_eq_true hS)
    (of_decide_eq_true hS₁)).mpr fun r ch ht => by rw [htasks] at ht; simp at ht

/-- **One outage, two first pages**: the reload falls into the first `DOWN` send, the delivery marks the orphan, and
the surviving node pages again at its next failure. -/
theorem second_first_page : ∃ S tr,
    exec Sched.step (Sched.init {} gatewayForest (fun _ => 0) 0 true)
      (pageRun ++ [.reload gatewayForest (fun _ => 9) 32, .sent 0 .first true .delivered 33 34, .tick 35,
        .finish 2 (some 1) 0 36 36]) = some (S, tr) ∧
    (S.Sole gatewayKey ∧ 2 ∈ S.scheduled ∧ S.keyOf 0 = gatewayKey ∧ S.keyOf 2 = gatewayKey) ∧
    tr = [(0, NodeEvent.applied 1 false false false), (0, NodeEvent.applied 1 false true false)] ++
      (0, NodeEvent.sendStart .first 31) :: (0, NodeEvent.sendEnd .first true 33) ::
      [(2, NodeEvent.applied 1 false true false), (2, NodeEvent.sendStart .first 36)] ∧
    (S.objs 2).state.contacted = false ∧ ¬ MarkKept gatewayKey S tr := by
  have hrun : (exec Sched.step (Sched.init {} gatewayForest (fun _ => 0) 0 true)
      (pageRun ++ [.reload gatewayForest (fun _ => 9) 32, .sent 0 .first true .delivered 33 34, .tick 35,
        .finish 2 (some 1) 0 36 36])).map (fun q =>
          (decide (q.1.Sole gatewayKey ∧ 2 ∈ q.1.scheduled ∧ q.1.keyOf 0 = gatewayKey ∧ q.1.keyOf 2 = gatewayKey), q.2,
            (q.1.objs 2).state.contacted)) =
      some (true, [(0, NodeEvent.applied 1 false false false), (0, NodeEvent.applied 1 false true false)] ++
        (0, NodeEvent.sendStart .first 31) :: (0, NodeEvent.sendEnd .first true 33) ::
        [(2, NodeEvent.applied 1 false true false), (2, NodeEvent.sendStart .first 36)], false) := by
    decide +kernel
  obtain ⟨⟨S, tr⟩, he, hq⟩ := Option.map_eq_some_iff.mp hrun
  simp only [Prod.mk.injEq] at hq
  obtain ⟨hkeys, htr, hc⟩ := hq
  have hkeys := of_decide_eq_true hkeys
  have hpaged : OutagePaged S gatewayKey tr :=
    ⟨_, 0, .first, 31, [], 33, _, htr, hkeys.2.2.1, rfl, by simp [NodeEvent.isUpTransition]⟩
  refine ⟨S, tr, he, hkeys, htr, hc, fun hkept => ?_⟩
  rw [hkept.1 2 hkeys.2.1 hkeys.2.2.2 hpaged] at hc
  exact absurd hc (by simp)

end Psysmon
