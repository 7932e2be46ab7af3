import Psysmon.Engine.Due
import Psysmon.Output.Visible

/-!
# Psysmon.Output.Wake — the event that wakes the status renderer

The renderer waits for `_dirty`.  `ack` and `set_note` set it if they reach a node, and a check sets it if its result changes
the state of its node, after the page that it may send.  Nothing else does: not `tick` or a check when they suppress a
node that has lost its gate, not a check that shows such a node again, not `reload`, and not a check whose send raises.

* `Sched.perform`: one step as the renderer sees it, a check with its send.
* `Sched.perform_check`, `row_tick`, `map_row_reload`: what a step does to the rows and to the event.
* `stateChanged_eq_false_iff`: the results that change nothing.
* `renderer_woken_iff`: the steps after which a changed page finds the event set.
-/

namespace Psysmon

open Lib Text Number

/-! ### Steps -/

/-- The steps of the scheduler. -/
inductive Step
  | tick (now : ℚ)
  /-- The check of `r` returns `code` or raises (`none`), and a send that it makes ends with `out`. -/
  | check (r : ℕ) (code : Option ℤ) (wall now later : ℚ) (out : SendOutcome) (ended done : ℚ)
  | ack (hostname typeValue : Text) (port : ℤ)
  | setNote (hostname typeValue : Text) (port : ℤ) (text : Option Text)
  | reload (F : Forest) (wall : ℕ → ℚ) (now : ℚ)

namespace Sched

/-- One step, through the segments that it consists of. -/
def perform (S : Sched) : Step → Option Sched
  | .tick now => (S.step (.tick now)).map Prod.fst
  | .check r code wall now later out ended done =>
    (S.step (.finish r code wall now later)).bind fun T =>
      match phaseOf T.1.tasks r with
      | some (.sending p changed) => (T.1.step (.sent r p changed out ended done)).map Prod.fst
      | _ => some T.1
  | .ack hostname typeValue port => (S.step (.ack hostname typeValue port)).map Prod.fst
  | .setNote hostname typeValue port text => (S.step (.setNote hostname typeValue port text)).map Prod.fst
  | .reload F wall now => (S.step (.reload F wall now)).map Prod.fst

/-- A node and its state. -/
def row (S : Sched) (r : ℕ) : Row := ((S.objs r).node, (S.objs r).state)

/-- The refresh of `down_parents` cannot be seen on the text page. -/
theorem renderText_rows [Calendar] (S : Sched) (now : ℚ) (org : Text) (showUpAlso : Bool) :
    renderText now S.rows org showUpAlso = renderText now (S.scheduled.map S.row) org showUpAlso := by
  refine renderText_congr ?_
  rw [rows, List.map_map, List.map_map]
  refine List.map_congr_left fun r hr => ?_
  show Row.face ((S.nodeStates.objs r).node, (S.nodeStates.objs r).state) = (S.row r).face
  have hr : r ∈ S.scheduled := hr
  simp only [nodeStates]
  rw [if_pos hr]
  rfl

/-! ### Rows -/

section Effects

variable {S : Sched} {r : ℕ}

@[simp] theorem row_endTask (q : ℕ) : (S.endTask r).row q = S.row q := by
  rw [row, row, endTask_state, ((Kept.refl S).endTask r).node]

theorem row_modify {f : Scheduled → Scheduled} (hf : (f (S.objs r)).node = (S.objs r).node) :
    (S.modify r f).row = Function.update S.row r ((S.objs r).node, (f (S.objs r)).state) := by
  funext q
  by_cases hq : q = r
  · subst hq
    rw [Function.update_self, row, modify_objs_self, hf]
  · rw [Function.update_of_ne hq, row, row, modify_objs_of_ne _ _ _ hq]

/-- What `tick` does to a row. -/
theorem row_tick (hinv : TickInv S) (hqueue : QueueInv S []) (now : ℚ) (q : ℕ) :
    (S.tick now).row q = if q ∈ (S.due now).map Entry.sched ∧ S.eligible q = false
      then ((S.objs q).node, { (S.objs q).state with suppressed := true }) else S.row q := by
  obtain ⟨hticked, hnodup⟩ := S.ticked_tick hinv hqueue now
  have hobj : (S.tick now).objs q = if q ∈ (S.due now).map Entry.sched then S.afterPop now q else S.objs q :=
    hticked.objs hnodup q
  rw [row, hobj]
  by_cases hmem : q ∈ (S.due now).map Entry.sched
  · rw [if_pos hmem, afterPop]
    cases hel : S.eligible q with
    | true => rw [if_pos rfl, if_neg fun h => Bool.false_ne_true h.2.symm]; rfl
    | false => rw [if_neg Bool.false_ne_true, if_pos ⟨hmem, rfl⟩]
  · rw [if_neg hmem, if_neg fun h => hmem h.1]
    rfl

/-- A tick that suppresses no node but those that are so already changes no row. -/
theorem row_tick_of_hidden (hinv : TickInv S) (hqueue : QueueInv S []) {now : ℚ}
    (h : ∀ e ∈ S.heap, e.due ≤ now → S.eligible e.sched = true ∨ (S.objs e.sched).state.suppressed = true) (q : ℕ) :
    (S.tick now).row q = S.row q := by
  rw [row_tick hinv hqueue]
  split
  · rename_i hq
    obtain ⟨e, he, rfl⟩ := List.mem_map.mp hq.1
    obtain ⟨he, hdue⟩ := List.mem_filter.mp he
    have hs : (S.objs e.sched).state.suppressed = true :=
      (h e he (by simpa using hdue)).resolve_left (by rw [hq.2]; exact Bool.false_ne_true)
    rw [row, ← hs]
  · rfl

/-- The rows of a new configuration, each with the state carried over from the node that had its key. -/
def mergedRows (S : Sched) (F : Forest) (wall : ℕ → ℚ) : List Row :=
  (flatten F).order.mapIdx fun i o =>
    let n := F.node o.1
    let fresh : NodeState := { maxDown := n.maxDown, lastUp := wall i }
    (n, match S.previous n.key with
      | none => fresh
      | some r => carryState (S.objs r).state fresh)

/-- What `reload` does to the rows. -/
theorem map_row_reload (F : Forest) (wall : ℕ → ℚ) (now : ℚ) :
    (S.reload F wall now).scheduled.map (S.reload F wall now).row = S.mergedRows F wall := by
  have hb := Built.reload S F wall now
  refine List.ext_getElem? fun i => ?_
  rw [hb.scheduled, List.map_map, List.getElem?_map, mergedRows, List.getElem?_mapIdx]
  cases ho : (flatten F).order[i]? with
  | none =>
    rw [List.getElem?_eq_none (by simpa using List.getElem?_eq_none_iff.mp ho)]
    rfl
  | some o =>
    obtain ⟨hi, -⟩ := List.getElem?_eq_some_iff.mp ho
    obtain ⟨due, hobj⟩ := S.reload_obj wall now ho
    rw [List.getElem?_range hi, Option.map_some, Option.map_some, Function.comp_apply, row, hobj, (S.carry_frame _).1]
    refine congrArg some (congrArg (Prod.mk _) ?_)
    unfold carry
    dsimp only
    show (match S.previous (F.node o.1).key with | none => _ | some r => _ : Scheduled).state = _
    split <;> rfl

/-! ### The event -/

@[simp] theorem dirty_endTask : (S.endTask r).dirty = S.dirty := by
  unfold endTask
  dsimp only
  split <;> rfl

theorem dirty_tickLoop (now : ℚ) : ∀ (n : ℕ) (S : Sched), (tickLoop now n S).dirty = S.dirty
  | 0, _ => rfl
  | n + 1, S => by
    unfold tickLoop
    split
    · rfl
    · split
      · rw [dirty_tickLoop now n, dispatch]
        split <;> rfl
      · rfl

theorem dirty_reload (F : Forest) (wall : ℕ → ℚ) (now : ℚ) : (S.reload F wall now).dirty = S.dirty := by
  obtain ⟨h, n, hS⟩ := S.install_frame ((newScheduled S.settings F S.fresh wall now true).map S.carry)
  unfold reload
  dsimp only
  rw [hS]

/-! ### Checks -/

/-- The state that a check leaves and whether it sets the event. -/
def completion (S : Sched) (r : ℕ) (code : ℤ) (wall now later : ℚ) (out : SendOutcome) (done : ℚ) : NodeState × Bool :=
  let s := (S.objs r).state
  if (S.objs r).alive = false then (s, false)
  else if S.eligible r = false then ({ s with suppressed := true }, false)
  else
    let a := applyAndPage (S.pagingCfg r) s code wall now later
    match a.2.1 with
    | none => (a.1, a.2.2)
    | some p => (afterSend a.1 p out done, a.2.2 && out ≠ .raised)

theorem row_applySent (p : Page) (changed : Bool) (out : SendOutcome) (now : ℚ) : (S.applySent r p changed out now).row =
    Function.update S.row r ((S.objs r).node, afterSend (S.objs r).state p out now) := by
  have hrow : (S.modifyState r fun st => afterSend st p out now).row =
    Function.update S.row r ((S.objs r).node, afterSend (S.objs r).state p out now) := row_modify rfl
  funext q
  rw [applySent, row_endTask]
  exact congrFun hrow q

/-- A write to the state of `r` that sets the event if `b` says so. -/
structure Written (S U : Sched) (r : ℕ) (st : NodeState) (b : Bool) : Prop where
  kept : S.Kept U
  tasks : U.tasks = S.tasks
  row : U.row = Function.update S.row r ((S.objs r).node, st)
  dirty : U.dirty = (S.dirty || b)

/-- After the write the task ends. -/
theorem Written.endTask {U : Sched} {st : NodeState} {b : Bool} (h : Written S U r st b) :
    Written S (U.endTask r) r st b where
  kept := h.kept.endTask r
  tasks := (endTask_tasks U r).trans h.tasks
  row := by
    funext q
    rw [row_endTask, h.row]
  dirty := dirty_endTask.trans h.dirty

/-- The segment that takes the result in: it ends the task, or leaves it waiting for a send. -/
theorem applyVerdict_written (S : Sched) (r : ℕ) (code : ℤ) (wall now later : ℚ) :
    (∃ U, (S.applyVerdict r code wall now later).1 = U.endTask r ∧
      ∀ out done, Written S U r (S.completion r code wall now later out done).1
        (S.completion r code wall now later out done).2) ∨
    ∃ U st p changed, (S.applyVerdict r code wall now later).1 = U.addTask r (.sending p changed) ∧
      Written S U r st false ∧
      ∀ out done, S.completion r code wall now later out done =
        (afterSend st p out done, changed && out ≠ .raised) := by
  unfold applyVerdict completion
  dsimp only
  by_cases hal : (S.objs r).alive = false
  · refine .inl ⟨S, by rw [if_pos hal], fun out done => ?_⟩
    rw [if_pos hal]
    exact ⟨.refl S, rfl, (Function.update_eq_self r S.row).symm, (Bool.or_false _).symm⟩
  simp only [if_neg hal]
  by_cases hel : S.eligible r = false
  · refine .inl ⟨S.modifyState r fun st => { st with suppressed := true }, by rw [if_pos hel], fun out done => ?_⟩
    rw [if_pos hel]
    exact ⟨(Kept.refl S).modifyState r _, rfl, row_modify rfl, (Bool.or_false _).symm⟩
  simp only [if_neg hel]
  generalize applyAndPage (S.pagingCfg r) (S.objs r).state code wall now later = a
  obtain ⟨st, page, changed⟩ := a
  have hk : S.Kept (S.modify r fun o => { o with state := st, checked := true }) :=
    (Kept.refl S).modify r _ fun _ => ⟨rfl, rfl, rfl, rfl⟩
  have hrow : (S.modify r fun o => { o with state := st, checked := true }).row =
    Function.update S.row r ((S.objs r).node, st) := row_modify rfl
  cases page with
  | none => exact .inl ⟨_, rfl, fun out done => ⟨hk.publish changed, rfl, hrow, rfl⟩⟩
  | some p => exact .inr ⟨_, st, p, changed, rfl, ⟨hk, rfl, hrow, (Bool.or_false _).symm⟩, fun out done => rfl⟩

/-- **A check**, with the send that it makes: its row changes and no other. -/
theorem perform_check (hqueue : QueueInv S []) {code : ℤ} {wall now later ended done : ℚ} {out : SendOutcome} {S' : Sched}
    (h : S.perform (.check r (some code) wall now later out ended done) = some S') :
    S'.scheduled = S.scheduled ∧
      S'.row = Function.update S.row r ((S.objs r).node, (S.completion r code wall now later out done).1) ∧
      S'.dirty = (S.dirty || (S.completion r code wall now later out done).2) := by
  obtain ⟨T, hT, hS'⟩ := Option.bind_eq_some_iff.mp h
  obtain ⟨T, o⟩ := T
  cases stepped hT with
  | verdict ht hn hl =>
    have hnone : (S.resume r .running later).taskCount r = 0 := taskCount_resume ht (hqueue.task_le r) later
    have hres : S.Kept (S.resume r .running later) := (Kept.refl S).resume r .running later
    dsimp only at hS'
    rcases applyVerdict_written (S.resume r .running later) r code wall now later with
      ⟨U, hv, hU⟩ | ⟨U, st, p, changed, hv, hU, hcomp⟩
    · -- no task is left
      have hend := (hU out done).endTask
      rw [hv, hend.tasks, phaseOf_eq_none hnone] at hS'
      obtain rfl := Option.some.inj hS'
      exact ⟨(hres.trans hend.kept).scheduled, hend.row, hend.dirty⟩
    · -- the send ends
      have hnone' : U.taskCount r = 0 := by
        rw [taskCount, hU.tasks]
        exact hnone
      rw [hv, addTask_tasks, phaseOf_append_self hnone' (.sending p changed)] at hS'
      obtain ⟨⟨T', o'⟩, hsent, rfl⟩ := Option.map_eq_some_iff.mp hS'
      have hcomp : S.completion r code wall now later out done = (afterSend st p out done, changed && out ≠ .raised) :=
        hcomp out done
      rw [hcomp]
      cases stepped hsent with
      | sent =>
        have hkept := ((hU.kept.addTask r (.sending p changed)).resume r (.sending p changed) done).applySent r p changed out done
        have hself : ((U.objs r).node, (U.objs r).state) = ((S.objs r).node, st) :=
          (congrFun hU.row r).trans (Function.update_self r _ _)
        obtain ⟨hnode, hstate⟩ := Prod.mk.inj hself
        refine ⟨(hres.trans hkept).scheduled, ?_, ?_⟩
        · rw [row_applySent]
          show Function.update U.row r ((U.objs r).node, afterSend (U.objs r).state p out done) = _
          rw [hnode, hstate, hU.row, Function.update_idem]
          rfl
        · rw [applySent, dirty_endTask]
          show (U.dirty || _) = _
          rw [hU.dirty, Bool.or_false]
          rfl

end Effects

end Sched

/-! ### Results that change nothing -/

/-- **`state_changed`** is false exactly for a result that repeats the last one and does not count as an error. -/
theorem stateChanged_eq_false_iff {s : NodeState} {code : ℤ} {wall : ℚ} {pod : Bool} :
    (applyResult s code wall pod).2.stateChanged = false ↔ s.lastcheck = code ∧ ¬ PagingError pod code := by
  have hshown : (applyResult s code wall pod).2.stateChanged = false ↔ s.shown = (applyResult s code wall pod).1.shown := by
    show decide (s.shown ≠ (applyResult s code wall pod).1.shown) = false ↔ _
    rw [decide_eq_false_iff_not, not_not]
  rw [hshown]
  generalize happ : (applyResult s code wall pod).1 = s' at *
  have h := happ ▸ applied_applyResult pod s code wall
  generalize (applyResult s code wall pod).2.intent = i at h
  -- all but the last two branches take a result that is no error; there the last result alone decides
  have hquiet (hno : ¬ PagingError pod code) (hlast : s'.lastcheck = code)
      (hsame : s.lastcheck = code → s.shown = s'.shown) : s.shown = s'.shown ↔ s.lastcheck = code ∧ ¬ PagingError pod code :=
    ⟨fun h => ⟨(congrArg Prod.fst h).trans hlast, hno⟩, fun h => hsame h.1⟩
  cases h with
  | degraded hr hp =>
    subst hr
    refine hquiet (fun he => by simp [he.2.2 rfl] at hp) rfl fun hl => ?_
    simp [NodeState.shown, hl]
  | noDns hr =>
    subst hr
    refine hquiet (fun he => he.2.1 rfl) rfl fun hl => ?_
    simp [NodeState.shown, hl]
  | cameUp hr hl =>
    subst hr
    exact hquiet (fun he => he.1 rfl) rfl fun hl' => absurd hl' hl
  | stillUp hr hl =>
    subst hr
    exact hquiet (fun he => he.1 rfl) hl fun _ => rfl
  | sameError he hl =>
    refine iff_of_false (fun h => ?_) fun h => h.2 he
    have hct : s.downct = s.downct + 1 := congrArg (fun x => x.2.1) h
    omega
  | newError he hl => exact iff_of_false (fun h => hl (congrArg Prod.fst h)) fun h => h.2 he

section Repeat

variable {c : PagingCfg} {s : NodeState} {code : ℤ}

/-- Such a result may move the re-page timer, which the page does not show. -/
theorem face_applyAndPage (hrep : s.lastcheck = code ∧ ¬ PagingError c.pageOnDegraded code) (n : Node)
    (wall now later : ℚ) :
    Row.face (n, (applyAndPage c s code wall now later).1) = Row.face (n, { s with suppressed := false }) ∧
      (applyAndPage c s code wall now later).2.2 = false ∧
      ∀ p, (applyAndPage c s code wall now later).2.1 = some p → p = .repage := by
  obtain ⟨s₁, i, happ, hpaged, -⟩ := applyAndPage_spec c s code wall now later
  have hchanged : (applyAndPage c s code wall now later).2.2 = false :=
    stateChanged_eq_false_iff (s := { s with suppressed := false }).mpr hrep
  obtain ⟨hs₁, rfl⟩ : s₁ = { s with suppressed := false } ∧ i = .none := by
    obtain ⟨rfl, hno⟩ := hrep
    cases happ with
    | degraded hr => exact ⟨by simp [hr], rfl⟩
    | noDns hr => exact ⟨by simp [hr], rfl⟩
    | cameUp hr hl => exact absurd hr hl
    | stillUp => exact ⟨rfl, rfl⟩
    | sameError he => exact absurd he hno
    | newError he => exact absurd he hno
  subst hs₁
  generalize (applyAndPage c s code wall now later).1 = s₂ at hpaged ⊢
  generalize (applyAndPage c s code wall now later).2.1 = page at hpaged ⊢
  refine ⟨?_, hchanged, ?_⟩
  · cases hpaged <;> rfl
  · rintro p rfl
    cases hpaged
    rfl

theorem face_afterSend (n : Node) (out : SendOutcome) (done : ℚ) :
    Row.face (n, afterSend s .repage out done) = Row.face (n, s) := by
  cases out <;> rfl

end Repeat

/-! ### When the renderer is woken -/

namespace Sched

/-- The result repeats the last one of `r` and is no error. -/
def Repeated (S : Sched) (r : ℕ) (code : ℤ) : Prop :=
  (S.objs r).state.lastcheck = code ∧ ¬ PagingError S.settings.pageOnDegraded code

instance (S : Sched) (r : ℕ) (code : ℤ) : Decidable (S.Repeated r code) := by unfold Repeated; infer_instance

section Completion

variable {S : Sched} {r : ℕ} {code : ℤ}

theorem completion_gone (hal : (S.objs r).alive = false) {wall now later done : ℚ} {out : SendOutcome} :
    S.completion r code wall now later out done = ((S.objs r).state, false) := if_pos hal

theorem completion_suppressed (hal : (S.objs r).alive = true) (hel : S.eligible r = false) {wall now later done : ℚ}
    {out : SendOutcome} :
    S.completion r code wall now later out done = ({ (S.objs r).state with suppressed := true }, false) := by
  unfold completion
  rw [hal, hel]
  rfl

theorem completion_eligible (hal : (S.objs r).alive = true) (hel : S.eligible r = true) (wall now later : ℚ)
    (out : SendOutcome) (done : ℚ) : S.completion r code wall now later out done =
      match applyAndPage (S.pagingCfg r) (S.objs r).state code wall now later with
      | (st, none, changed) => (st, changed)
      | (st, some p, changed) => (afterSend st p out done, changed && out ≠ .raised) := by
  unfold completion
  rw [hal, hel]
  dsimp only
  generalize applyAndPage (S.pagingCfg r) (S.objs r).state code wall now later = a
  obtain ⟨st, page, changed⟩ := a
  cases page <;> rfl

/-- A result that changes nothing leaves the row as it was, but not hidden. -/
theorem completion_repeated (hal : (S.objs r).alive = true) (hel : S.eligible r = true) (hrep : S.Repeated r code)
    (wall now later : ℚ) (out : SendOutcome) (done : ℚ) :
    ∃ st, S.completion r code wall now later out done = (st, false) ∧ Row.face ((S.objs r).node, st) =
      Row.face ((S.objs r).node, { (S.objs r).state with suppressed := false }) := by
  have hseen := face_applyAndPage (c := S.pagingCfg r) hrep (S.objs r).node wall now later
  rw [completion_eligible hal hel]
  generalize applyAndPage (S.pagingCfg r) (S.objs r).state code wall now later = a at hseen ⊢
  obtain ⟨st, page, changed⟩ := a
  obtain ⟨hface, rfl, hrepage⟩ := hseen
  cases page with
  | none => exact ⟨st, rfl, hface⟩
  | some p =>
    obtain rfl := hrepage p rfl
    exact ⟨afterSend st .repage out done, rfl, (face_afterSend _ out done).trans hface⟩

/-- Any other result sets the event, unless it is to be paged and the send raises. -/
theorem completion_changed (hal : (S.objs r).alive = true) (hel : S.eligible r = true) (hrep : ¬ S.Repeated r code)
    (wall now later : ℚ) (out : SendOutcome) (done : ℚ) :
    let a := applyAndPage (S.pagingCfg r) (S.objs r).state code wall now later
    ((S.completion r code wall now later out done).2 = true ∧ (out ≠ .raised ∨ a.2.1 = none)) ∨
      (S.completion r code wall now later out done = (a.1, false) ∧ out = .raised ∧ a.2.1 ≠ none) := by
  have hchanged : (applyAndPage (S.pagingCfg r) (S.objs r).state code wall now later).2.2 = true := by
    refine Bool.of_not_eq_false fun hc => hrep ?_
    exact stateChanged_eq_false_iff (s := { (S.objs r).state with suppressed := false }).mp hc
  rw [completion_eligible hal hel]
  generalize applyAndPage (S.pagingCfg r) (S.objs r).state code wall now later = a at hchanged ⊢
  obtain ⟨st, page, changed⟩ := a
  obtain rfl : changed = true := hchanged
  cases page with
  | none => exact .inl ⟨rfl, .inr rfl⟩
  | some p =>
    cases out with
    | delivered => exact .inl ⟨rfl, .inl (by decide)⟩
    | failed => exact .inl ⟨rfl, .inl (by decide)⟩
    | raised =>
      have hsent : afterSend st p .raised done = st := by cases p <;> rfl
      exact .inr ⟨congrArg (fun x => (x, false)) hsent, rfl, by rintro ⟨⟩⟩

end Completion

/-- A step sets the event, or leaves the page as it is. -/
def Covered [Calendar] (S : Sched) (t : ℚ) (org : Text) : Step → Prop
  -- no node that is due loses its place on the page
  | .tick now => ∀ e ∈ S.heap, e.due ≤ now → S.eligible e.sched = true ∨ (S.objs e.sched).state.suppressed = true
  | .check _ none _ _ _ _ _ _ => True
  | .check r (some code) wall now later out _ _ =>
    (S.objs r).alive = true →
      if S.eligible r = false then (S.objs r).state.suppressed = true
      else if S.Repeated r code then (S.objs r).state.suppressed = false
      else
        let a := applyAndPage (S.pagingCfg r) (S.objs r).state code wall now later
        -- a send that raises skips the event, so the new row must look like the old one
        out ≠ .raised ∨ a.2.1 = none ∨
          renderText t (S.scheduled.map (Function.update S.row r ((S.objs r).node, a.1))) org true =
            renderText t S.rows org true
  | .ack _ _ _ => True
  | .setNote _ _ _ _ => True
  | .reload F wall _ => renderText t (S.mergedRows F wall) org true = renderText t S.rows org true

/-- What the renderer would show after a step that leaves the event as it was. -/
theorem woken_iff {d d' : Bool} {before after : Option Text} {P : Prop} (hd : d' = d)
    (hP : ∀ page, before = some page → (after = some page ↔ P)) :
    (∀ page, before = some page → after ≠ some page → d' = true) ↔ d = true ∨ before = none ∨ P := by
  subst hd
  constructor
  · intro h
    cases hb : before with
    | none => exact .inr (.inl rfl)
    | some page =>
      by_cases hp : after = some page
      · exact .inr (.inr ((hP page hb).mp hp))
      · exact .inl (h page hb hp)
  · rintro (hd | hb | hp) page hbefore hne
    · exact hd
    · rw [hb] at hbefore
      cases hbefore
    · exact absurd ((hP page hbefore).mpr hp) hne

section Pages

variable [Calendar] {S S' : Sched} {t : ℚ} {org : Text} {r : ℕ}

theorem renderText_rows_update {st : NodeState} (hsched : S'.scheduled = S.scheduled)
    (hrow : S'.row = Function.update S.row r ((S.objs r).node, st)) : renderText t S'.rows org true =
      renderText t (S.scheduled.map (Function.update S.row r ((S.objs r).node, st))) org true := by
  rw [renderText_rows, hsched, hrow]

/-- A new state that looks like the old one. -/
theorem renderText_update_of_face {st : NodeState}
    (h : Row.face ((S.objs r).node, st) = (S.row r).face) :
    renderText t (S.scheduled.map (Function.update S.row r ((S.objs r).node, st))) org true =
      renderText t S.rows org true := by
  rw [renderText_rows]
  refine renderText_congr ?_
  rw [List.map_map, List.map_map]
  refine List.map_congr_left fun q _ => ?_
  by_cases hq : q = r
  · subst hq
    rw [Function.comp_apply, Function.update_self, h, Function.comp_apply]
  · rw [Function.comp_apply, Function.update_of_ne hq, Function.comp_apply]

/-- A row that disappears or appears changes the page. -/
theorem renderText_update_ne {st : NodeState} (hr : r ∈ S.scheduled) (hst : st.suppressed ≠ (S.objs r).state.suppressed)
    {page : Text} (hpage : renderText t S.rows org true = some page) :
    renderText t (S.scheduled.map (Function.update S.row r ((S.objs r).node, st))) org true ≠ some page := by
  rw [renderText_rows] at hpage
  have hself : Function.update S.row r ((S.objs r).node, st) r = ((S.objs r).node, st) := Function.update_self r _ _
  cases hs : (S.objs r).state.suppressed with
  | false =>
    have hst' : st.suppressed = true := by simpa [hs] using hst
    refine renderText_hidden_ne (fun q _ => ?_) ⟨r, hr, hs, by rw [hself]; exact hst'⟩ hpage
    by_cases hq : q = r
    · subst hq
      rw [hself]
      exact .inr hst'
    · rw [Function.update_of_ne hq]
      exact .inl rfl
  | true =>
    have hst' : st.suppressed = false := by simpa [hs] using hst
    intro hpage'
    refine renderText_hidden_ne (fun q _ => ?_) ⟨r, hr, by rw [hself]; exact hst', hs⟩ hpage' hpage
    by_cases hq : q = r
    · subst hq
      exact .inr hs
    · rw [Function.update_of_ne hq]
      exact .inl rfl

theorem woken_tick (hinv : TickInv S) (hqueue : QueueInv S []) {now : ℚ} :
    (∀ page, renderText t S.rows org true = some page → renderText t (S.tick now).rows org true ≠ some page →
      (S.tick now).dirty = true) ↔
    S.dirty = true ∨ renderText t S.rows org true = none ∨ S.Covered t org (.tick now) := by
  have hclock : S.Kept { S with mono := now } := ⟨rfl, rfl, rfl, fun _ => rfl, fun _ => rfl, fun _ => rfl, fun _ => rfl⟩
  have hsched : (S.tick now).scheduled = S.scheduled := (hclock.tickLoop now S.heap.length).scheduled
  refine woken_iff (dirty_tickLoop now _ _) fun page hpage => ?_
  rw [renderText_rows] at hpage
  rw [renderText_rows, hsched]
  constructor
  · intro hafter e he hdue
    by_contra hno
    rw [not_or, Bool.not_eq_true, Bool.not_eq_true] at hno
    refine renderText_hidden_ne (g := (S.tick now).row) (fun q _ => ?_) ?_ hpage hafter
    · rw [row_tick hinv hqueue]
      split
      · exact .inr rfl
      · exact .inl rfl
    · have hmem : e.sched ∈ (S.due now).map Entry.sched :=
        List.mem_map_of_mem (List.mem_filter.mpr ⟨he, by simpa using hdue⟩)
      refine ⟨e.sched, hqueue.heap_mem e he, hno.2, ?_⟩
      rw [row_tick hinv hqueue, if_pos ⟨hmem, hno.1⟩]
  · intro hcov
    rw [← hpage]
    exact congrArg (fun rows => renderText t rows org true)
      (List.map_congr_left fun q _ => row_tick_of_hidden hinv hqueue hcov q)

theorem woken_check (hqueue : QueueInv S []) {code : ℤ} {wall now later ended done : ℚ} {out : SendOutcome}
    (h : S.perform (.check r (some code) wall now later out ended done) = some S') :
    (∀ page, renderText t S.rows org true = some page → renderText t S'.rows org true ≠ some page → S'.dirty = true) ↔
    S.dirty = true ∨ renderText t S.rows org true = none ∨
      S.Covered t org (.check r (some code) wall now later out ended done) := by
  obtain ⟨hsched, hrow, hdirty⟩ := perform_check hqueue h
  rw [renderText_rows_update hsched hrow]
  unfold Covered
  by_cases hal : (S.objs r).alive = false
  · rw [completion_gone hal, Bool.or_false] at hdirty
    rw [completion_gone hal, renderText_update_of_face rfl]
    exact woken_iff hdirty fun page hpage => iff_of_true hpage fun hal' => absurd (hal'.symm.trans hal) (by decide)
  have halive : (S.objs r).alive = true := by simpa using hal
  have hr : r ∈ S.scheduled := (hqueue.alive_iff r).mp halive
  simp only [halive, forall_const]
  by_cases hel : S.eligible r = false
  · -- the row is hidden
    rw [completion_suppressed halive hel, Bool.or_false] at hdirty
    rw [completion_suppressed halive hel, if_pos hel]
    refine woken_iff hdirty fun page hpage => ⟨fun hafter => ?_, fun hs => ?_⟩
    · by_contra hs
      exact renderText_update_ne hr (Ne.symm hs) hpage hafter
    · rw [← hpage]
      refine renderText_update_of_face ?_
      rw [row, ← hs]
  have heligible : S.eligible r = true := by simpa using hel
  rw [if_neg hel]
  by_cases hrep : S.Repeated r code
  · -- the row is as it was, but shown again if it was hidden
    obtain ⟨st, hcomp, hface⟩ := completion_repeated halive heligible hrep wall now later out done
    have hshown : st.suppressed = false := congrArg (fun row => row.2.suppressed) hface
    rw [hcomp, Bool.or_false] at hdirty
    rw [hcomp, if_pos hrep]
    refine woken_iff hdirty fun page hpage => ⟨fun hafter => ?_, fun hs => ?_⟩
    · by_contra hs
      refine renderText_update_ne hr ?_ hpage hafter
      rw [hshown]
      exact Ne.symm hs
    · rw [← hpage]
      refine renderText_update_of_face (hface.trans ?_)
      rw [row, ← hs]
  · rw [if_neg hrep]
    rcases completion_changed halive heligible hrep wall now later out done with ⟨hw, hcond⟩ | ⟨hcomp, hout, hsend⟩
    · rw [hw, Bool.or_true] at hdirty
      refine iff_of_true (fun _ _ _ => hdirty) (.inr (.inr ?_))
      rcases hcond with hout | hnone
      · exact .inl hout
      · exact .inr (.inl hnone)
    · rw [hcomp, Bool.or_false] at hdirty
      rw [hcomp]
      refine woken_iff hdirty fun page hpage => ?_
      rw [hpage]
      exact ⟨fun h => .inr (.inr h), fun h => (h.resolve_left (not_not.mpr hout)).resolve_left hsend⟩

/-- A check that raises changes no row. -/
theorem renderText_raised (hqueue : QueueInv S []) {wall now later ended done : ℚ} {out : SendOutcome}
    (h : S.perform (.check r none wall now later out ended done) = some S') :
    renderText t S'.rows org true = renderText t S.rows org true := by
  obtain ⟨⟨T, o⟩, hT, hS'⟩ := Option.bind_eq_some_iff.mp h
  cases stepped hT with
  | raised ht hn hl =>
    have hnone : phaseOf ((S.resume r .running later).endTask r).tasks r = none := by
      rw [endTask_tasks]
      exact phaseOf_eq_none (taskCount_resume ht (hqueue.task_le r) later)
    dsimp only at hS'
    rw [hnone] at hS'
    obtain rfl := Option.some.inj hS'
    rw [renderText_rows, renderText_rows, (((Kept.refl S).resume r .running later).endTask r).scheduled]
    refine congrArg (fun rows => renderText t rows org true) (List.map_congr_left fun q _ => ?_)
    exact row_endTask q

/-- `ack` and `set_note` wake the renderer if they reach a node, and change nothing if not. -/
theorem woken_control (rs : List ℕ) (f : NodeState → NodeState) {page : Text}
    (hpage : renderText t S.rows org true = some page)
    (hne : renderText t ((S.mapStates rs f).publish (!rs.isEmpty)).rows org true ≠ some page) :
    ((S.mapStates rs f).publish (!rs.isEmpty)).dirty = true := by
  cases rs with
  | nil =>
    refine absurd ?_ hne
    rw [renderText_rows] at hpage ⊢
    rw [← hpage]
    refine congrArg (fun rows => renderText t rows org true) (List.map_congr_left fun q _ => ?_)
    show (((S.mapStates [] f).objs q).node, ((S.mapStates [] f).objs q).state) = S.row q
    simp only [mapStates, List.not_mem_nil, if_false]
    rfl
  | cons q rs => exact Bool.or_true _

end Pages

end Sched

/-- The scheduler of a web server behind a router, once its first page is out. -/
def shownOnce : Sched := { Sched.init {} gatewayForest (fun _ => 0) 0 false with dirty := false }

theorem on_shownOnce : Sched.On gatewayForest shownOnce :=
  (Sched.On.init {} gatewayForest (fun _ => 0) 0 false).step (a := .clearDirty) rfl

end Psysmon
