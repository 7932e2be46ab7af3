import Psysmon.Lib.Refresh
import Psysmon.Output.Wake

/-!
# Psysmon.Output.RenderLoop — the render loop beside the scheduler (`daemon.py`, `engine/scheduler.py`)

`_render_loop` waits in `wait_until_dirty`, which clears `_dirty` when the wait ends, collects the rows with
`node_states`, and renders them on a thread.  The rows are the live objects: the thread reads them while checks end and
commands come in, and a page can mix the old and the new.

* `Sched.Announced`: the segments that set `_dirty` when they change a row, at once or after a page is sent.
* `Sched.announces`: what such a segment does, one case for each kind.
* `page_catches_up`: when the loop waits, with `_dirty` clear and no send under way, its last page shows the rows as they
  are.
-/

namespace Psysmon

open Lib

namespace Sched

/-- The rows as far as a page shows them. -/
def faces (S : Sched) : List Row := S.scheduled.map fun r => (S.row r).face

/-- A check has changed its node and waits for a send before it sets `_dirty`. -/
def Owing (S : Sched) : Prop := ∃ r p, (r, Phase.sending p true) ∈ S.tasks

/-- A check waits for a send and has nothing to announce: the page is a repetition. -/
def Repaging (S : Sched) : Prop := ∀ r p, (r, Phase.sending p false) ∈ S.tasks → p = .repage

/-- The segment hides no row and shows no row again without another change, no send of a changed row raises, and it is
neither a reload nor the loop's own. -/
def Announced (S : Sched) : Label → Prop
  | .tick now => ∀ e ∈ S.heap, e.due ≤ now → S.eligible e.sched = true ∨ (S.objs e.sched).state.suppressed = true
  | .finish r (some code) _ _ _ =>
    (S.objs r).alive = true →
      if S.eligible r = false then (S.objs r).state.suppressed = true
      else S.Repeated r code → (S.objs r).state.suppressed = false
  | .sent _ _ changed out _ _ => changed = true → out ≠ .raised
  | .finish _ none _ _ _ | .ack _ _ _ | .setNote _ _ _ _ | .nodeStates => True
  | .clearDirty | .reload _ _ _ => False

instance (S : Sched) : (a : Label) → Decidable (S.Announced a)
  | .tick now => inferInstanceAs (Decidable (∀ e ∈ S.heap, e.due ≤ now → _ ∨ _))
  | .finish r (some code) _ _ _ => inferInstanceAs (Decidable (_ → if S.eligible r = false then _ else S.Repeated r code → _))
  | .sent _ _ _ _ _ _ => inferInstanceAs (Decidable (_ → _ ≠ _))
  | .finish _ none _ _ _ | .ack _ _ _ | .setNote _ _ _ _ | .nodeStates => isTrue trivial
  | .clearDirty | .reload _ _ _ => isFalse id

/-- What the loop waits for, and what it does when it goes on. -/
def renderSource : Source Sched Label Event (List Row) where
  step := Sched.step
  view := faces
  flag := dirty
  take S := ({ S with dirty := false } : Sched).nodeStates

variable {S S' : Sched} {r : ℕ}

/-! ### Rows that look the same -/

theorem faces_congr (hsched : S'.scheduled = S.scheduled) (h : ∀ q ∈ S.scheduled, (S'.row q).face = (S.row q).face) :
    S'.faces = S.faces := by
  rw [faces, faces, hsched]
  exact List.map_congr_left h

theorem faces_update {st : NodeState} (hsched : S'.scheduled = S.scheduled)
    (hrow : S'.row = Function.update S.row r ((S.objs r).node, st))
    (hface : Row.face ((S.objs r).node, st) = (S.row r).face) : S'.faces = S.faces := by
  refine faces_congr hsched fun q _ => ?_
  rw [hrow]
  by_cases hq : q = r
  · subst hq
    rw [Function.update_self, hface]
  · rw [Function.update_of_ne hq]

/-- `node_states` refreshes what no page shows. -/
theorem faces_nodeStates (S : Sched) : S.nodeStates.faces = S.faces := by
  refine faces_congr rfl fun q hq => ?_
  show Row.face ((S.nodeStates.objs q).node, (S.nodeStates.objs q).state) = _
  simp only [nodeStates]
  rw [if_pos hq]
  rfl

/-! ### What the segments announce -/

/-- What a segment does to the view, the event and the sends. -/
structure Tells (S S' : Sched) : Prop where
  announces : Announces renderSource Owing S S'
  repaging : S.Repaging → S'.Repaging

/-- A segment that keeps the tasks of the sends. -/
theorem Tells.of_tasks (hview : S'.faces = S.faces ∨ S'.dirty = true) (hdirty : S.dirty = true → S'.dirty = true)
    (htasks : ∀ q p ch, (q, Phase.sending p ch) ∈ S'.tasks ↔ (q, Phase.sending p ch) ∈ S.tasks) : Tells S S' where
  announces := ⟨hview.imp_right .inl, hdirty, fun h => .inl (h.imp fun q h => h.imp fun p => (htasks q p true).mpr)⟩
  repaging h q p hq := h q p ((htasks q p false).mp hq)

theorem publish_false (S : Sched) : S.publish false = S := by
  rw [publish, Bool.or_false]

theorem mem_tasks_resume {q : ℕ} {p : Page} {ch : Bool} {later : ℚ} :
    (q, Phase.sending p ch) ∈ (S.resume r .running later).tasks ↔ (q, Phase.sending p ch) ∈ S.tasks :=
  List.mem_erase_of_ne (by rintro ⟨⟩)

theorem tells_tick (hinv : TickInv S) (hqueue : QueueInv S []) {now : ℚ} (ha : S.Announced (.tick now)) :
    Tells S (S.tick now) := by
  have hclock : S.Kept { S with mono := now } := ⟨rfl, rfl, rfl, fun _ => rfl, fun _ => rfl, fun _ => rfl, fun _ => rfl⟩
  have hsched : (S.tick now).scheduled = S.scheduled := (hclock.tickLoop now S.heap.length).scheduled
  have hdirty : (S.tick now).dirty = S.dirty := dirty_tickLoop now _ _
  refine .of_tasks (.inl (faces_congr hsched fun q _ => ?_)) (fun h => hdirty.trans h) fun q p ch => ?_
  · rw [row_tick_of_hidden hinv hqueue ha]
  · have htasks : (S.tick now).tasks = S.tasks ++ _ := (S.ticked_tick hinv hqueue now).1.tasks
    rw [htasks, List.mem_append, or_iff_left]
    intro h
    obtain ⟨e, -, heq⟩ := List.mem_map.mp h
    cases heq

/-- A check that raises. -/
theorem tells_raised {later : ℚ} : Tells S ((S.resume r .running later).endTask r) := by
  refine .of_tasks (.inl (faces_congr ?_ fun q _ => ?_)) (fun h => dirty_endTask.trans h) fun q p ch => ?_
  · exact (((Kept.refl S).resume r .running later).endTask r).scheduled
  · rw [row_endTask]
    rfl
  · rw [endTask_tasks]
    exact mem_tasks_resume

theorem Tells.of_resume {later : ℚ} (h : Tells (S.resume r .running later) S') : Tells S S' where
  announces := ⟨h.announces.view, h.announces.flag,
    fun ho => h.announces.owed (ho.imp fun _ hq => hq.imp fun _ => mem_tasks_resume.mpr)⟩
  repaging hrep := h.repaging fun q p hq => hrep q p (mem_tasks_resume.mp hq)

/-- The result of a check is taken in. -/
theorem tells_applyVerdict {code : ℤ} (wall now later : ℚ)
    (ha : (S.objs r).alive = true → if S.eligible r = false then (S.objs r).state.suppressed = true
      else S.Repeated r code → (S.objs r).state.suppressed = false) :
    Tells S (S.applyVerdict r code wall now later).1 := by
  -- a write to the row of `r` after which the task ends
  have hend {f : Scheduled → Scheduled} {b : Bool} (hnode : (f (S.objs r)).node = (S.objs r).node)
      (hseen : Row.face ((S.objs r).node, (f (S.objs r)).state) = (S.row r).face ∨ b = true) :
      Tells S (((S.modify r f).publish b).endTask r) := by
    refine .of_tasks (hseen.imp (fun hface => faces_update ?_ ?_ hface) fun hb => ?_) (fun hd => ?_) fun q p ch => ?_
    · exact ((Kept.refl ((S.modify r f).publish b)).endTask r).scheduled
    · funext q
      rw [row_endTask]
      exact congrFun (row_modify hnode) q
    · rw [dirty_endTask, hb]
      exact Bool.or_true _
    · rw [dirty_endTask]
      show (S.dirty || b) = true
      rw [hd, Bool.true_or]
    · rw [endTask_tasks]
      rfl
  unfold applyVerdict
  by_cases hal : (S.objs r).alive = false
  · rw [if_pos hal]
    refine .of_tasks (.inl (faces_congr ((Kept.refl S).endTask r).scheduled fun q _ => by rw [row_endTask]))
      (fun h => dirty_endTask.trans h) fun q p ch => ?_
    rw [endTask_tasks]
  have ha := ha (by simpa using hal)
  rw [if_neg hal]
  by_cases hel : S.eligible r = false
  · -- the row is hidden, and was so before
    rw [if_pos hel] at ha ⊢
    have h := hend (f := fun o => { o with state := { o.state with suppressed := true } }) (b := false) rfl
      (.inl (by rw [row, ← ha]))
    rwa [publish_false] at h
  rw [if_neg hel] at ha ⊢
  dsimp only
  have hrep_iff : (applyAndPage (S.pagingCfg r) (S.objs r).state code wall now later).2.2 = false ↔ S.Repeated r code :=
    stateChanged_eq_false_iff (s := { (S.objs r).state with suppressed := false })
  have hseen : S.Repeated r code →
      Row.face ((S.objs r).node, (applyAndPage (S.pagingCfg r) (S.objs r).state code wall now later).1) = (S.row r).face ∧
        ∀ p, (applyAndPage (S.pagingCfg r) (S.objs r).state code wall now later).2.1 = some p → p = .repage := by
    intro hrep
    obtain ⟨hface, -, hp⟩ := face_applyAndPage (c := S.pagingCfg r) hrep (S.objs r).node wall now later
    refine ⟨hface.trans ?_, hp⟩
    rw [row, ← ha hrep]
  generalize applyAndPage (S.pagingCfg r) (S.objs r).state code wall now later = a at hrep_iff hseen
  obtain ⟨st, page, changed⟩ := a
  dsimp only at hrep_iff hseen ⊢
  have hwake : Row.face ((S.objs r).node, st) = (S.row r).face ∨ changed = true := by
    cases hc : changed with
    | false => exact .inl (hseen (hrep_iff.mp hc)).1
    | true => exact .inr rfl
  cases page with
  | none => exact hend (f := fun o => { o with state := st, checked := true }) rfl hwake
  | some p =>
    -- the event waits for the send
    have hmem : (r, Phase.sending p changed) ∈ S.tasks ++ [(r, Phase.sending p changed)] := by simp
    refine ⟨⟨?_, fun h => h, fun ho => .inl ?_⟩, fun hrep q p' hq => ?_⟩
    · rcases hwake with hface | rfl
      · refine .inl (faces_update rfl ?_ hface)
        exact row_modify (f := fun o => { o with state := st, checked := true }) rfl
      · exact .inr (.inr ⟨r, p, hmem⟩)
    · exact ho.imp fun _ hq => hq.imp fun _ h => List.mem_append_left _ h
    · rcases List.mem_append.mp hq with hq | hq
      · exact hrep q p' hq
      · obtain ⟨rfl, rfl, rfl⟩ : q = r ∧ p' = p ∧ changed = false := by simpa [eq_comm] using hq
        exact (hseen (hrep_iff.mp rfl)).2 p' rfl

/-- A send that ends. -/
theorem tells_sent {p : Page} {changed : Bool} {out : SendOutcome} {now : ℚ} (hrep : S.Repaging)
    (ht : (r, Phase.sending p changed) ∈ S.tasks) (ha : changed = true → out ≠ .raised) :
    Tells S ((S.resume r (.sending p changed) now).applySent r p changed out now) := by
  have htasks : ((S.resume r (.sending p changed) now).applySent r p changed out now).tasks =
      S.tasks.erase (r, .sending p changed) := endTask_tasks _ r
  have hdirty : ((S.resume r (.sending p changed) now).applySent r p changed out now).dirty =
      (S.dirty || (changed && out ≠ .raised)) := dirty_endTask
  have hwoken : changed = true → ((S.resume r (.sending p changed) now).applySent r p changed out now).dirty = true := by
    intro hc
    rw [hdirty, hc, decide_eq_true (ha hc)]
    exact Bool.or_true _
  refine ⟨⟨?_, fun h => ?_, fun ho => ?_⟩, fun hrep q p' hq => ?_⟩
  · cases hc : changed with
    | true => exact .inr (.inl (hc ▸ hwoken hc))
    | false =>
      subst hc
      obtain rfl := hrep r p ht
      refine .inl (faces_update ?_ (row_applySent (S := S.resume r (.sending .repage false) now) .repage false out now)
        (face_afterSend (S.objs r).node out now))
      exact (((Kept.refl S).resume r (.sending .repage false) now).applySent r .repage false out now).scheduled
  · have h : S.dirty = true := h
    exact hdirty.trans (by rw [h, Bool.true_or])
  · obtain ⟨q, p', hq⟩ := ho
    by_cases heq : (q, Phase.sending p' true) = (r, Phase.sending p changed)
    · obtain ⟨rfl, rfl, rfl⟩ : q = r ∧ p' = p ∧ true = changed := by simpa using heq
      exact .inr (hwoken rfl)
    · refine .inl ⟨q, p', ?_⟩
      rw [htasks]
      exact (List.mem_erase_of_ne heq).mpr hq
  · rw [htasks] at hq
    exact hrep q p' (List.mem_of_mem_erase hq)

/-- `ack` and `set_note`. -/
theorem tells_control (rs : List ℕ) (f : NodeState → NodeState) : Tells S ((S.mapStates rs f).publish (!rs.isEmpty)) := by
  refine .of_tasks ?_ (fun h => ?_) fun q p ch => Iff.rfl
  · cases rs with
    | nil =>
      refine .inl (faces_congr rfl fun q _ => ?_)
      show Row.face (((S.mapStates [] f).objs q).node, ((S.mapStates [] f).objs q).state) = _
      simp only [mapStates, List.not_mem_nil, if_false]
      rfl
    | cons q rs => exact .inr (Bool.or_true _)
  · show (S.dirty || _) = true
    rw [h, Bool.true_or]

/-- **What an announced segment does.** -/
theorem tells_step {F : Forest} {a : Label} {o : List Event} (hS : S.On F) (hrep : S.Repaging) (ha : S.Announced a)
    (hs : S.step a = some (S', o)) : Tells S S' := by
  cases stepped hs with
  | tick => exact tells_tick hS.tickInv hS.queueInv ha
  | raised => exact tells_raised
  | verdict => exact .of_resume (tells_applyVerdict _ _ _ ha)
  | sent ht => exact tells_sent hrep ht ha
  | ack => exact tells_control _ _
  | setNote => exact tells_control _ _
  | nodeStates => exact .of_tasks (.inl (faces_nodeStates S)) (fun h => h) fun _ _ _ => Iff.rfl
  | clearDirty => cases ha
  | reload => cases ha

end Sched

/-- **The page catches up.**  `_render_loop` beside a scheduler that starts with `_dirty` set, over any run in which every
segment is announced and no rendering fails: when the loop waits, `_dirty` is clear and no check with a changed row waits
for a send, the last page was made of the rows as they are now. -/
theorem page_catches_up {F : Forest} {S₀ : Sched} (hS : S₀.On F) (htasks : S₀.tasks = []) (hdirty : S₀.dirty = true)
    {page₀ : List Row} {as : List (RefreshLabel Label (List Row))} {L : Refreshed Sched (List Row)} {tr : List Event}
    (hann : Along (Refreshed.step Sched.renderSource) (Refreshed.Sound Sched.Announced) ⟨S₀, .waiting, page₀⟩ as)
    (he : exec (Refreshed.step Sched.renderSource) ⟨S₀, .waiting, page₀⟩ as = some (L, tr))
    (hwait : L.reader = .waiting) (hclear : L.source.dirty = false) (hsends : ¬ L.source.Owing) :
    L.shown = L.source.faces ∧ ∀ (_ : Calendar) (now : ℚ) (org : Text) (showUpAlso : Bool),
      renderText now L.shown org showUpAlso = renderText now L.source.rows org showUpAlso := by
  have hrep : S₀.Repaging := fun r p hr => by
    rw [htasks] at hr
    exact absurd hr List.not_mem_nil
  have hstart : Refreshed.Current Sched.renderSource Sched.Owing ⟨S₀, .waiting, page₀⟩ := .inr (.inl hdirty)
  obtain ⟨-, hcur⟩ := Refreshed.current (P := Sched.renderSource) (Q := Sched.Announced)
    (I := fun S => (∃ F, S.On F) ∧ S.Repaging)
    (fun S a S' o hI ha hs => ⟨hI.1.elim fun F hF => ⟨_, hF.step hs⟩,
      hI.1.elim fun F hF => (Sched.tells_step hF hI.2 ha hs).repaging hI.2⟩)
    (fun S hI => ⟨hI.1.elim fun F hF => ⟨F, (hF.step (a := .clearDirty) rfl).step (a := .nodeStates) rfl⟩, hI.2⟩)
    (fun S a S' o hI ha hs => hI.1.elim fun F hF => (Sched.tells_step hF hI.2 ha hs).announces)
    ⟨⟨F, hS⟩, hrep⟩ hstart hann he
  have hshown : L.shown = L.source.faces := by
    rcases hcur with h | hd | ho
    · rw [hwait] at h
      exact h
    · exact absurd (hclear.symm.trans hd) Bool.false_ne_true
    · exact absurd ho hsends
  refine ⟨hshown, fun _ now org showUpAlso => ?_⟩
  have hfaces : L.source.faces = (L.source.scheduled.map L.source.row).map Row.face := by
    rw [List.map_map]
    rfl
  rw [hshown, hfaces, renderText_face, Sched.renderText_rows]

/-! ### A check that ends while its row is read -/

/-- A web server. -/
def oneServer : Forest where
  objs := [({ hostname := "www".toList, checkType := .tcp, port := 80 }, [])]
  roots := [0]
  roots_lt := by decide
  children_lt := by decide

/-- The daemon at its start. -/
def renderStart : Refreshed Sched (List Row) := ⟨Sched.init {} oneServer (fun _ => 0) 0 false, .waiting, []⟩

/-- The first page is read while the server is found down; the loop publishes what it has, and begins again. -/
def disturbedReading : List (RefreshLabel Label (List Row)) :=
  [.begin, .produce (.tick 0), .produce (.finish 0 (some 1) 5 1 1), .finish [], .begin]

/-- The second page is read to the end. -/
def secondReading : List (RefreshLabel Label (List Row)) :=
  disturbedReading ++
    [.finish ((exec (Refreshed.step Sched.renderSource) renderStart disturbedReading).elim [] fun q => q.1.source.faces)]

theorem page_catches_up_second : ∃ (L : Refreshed Sched (List Row)) (tr : List Event),
    exec (Refreshed.step Sched.renderSource) renderStart secondReading = some (L, tr) ∧
    L.source.faces.map (fun row => row.2.downct) = [1] ∧ L.shown = L.source.faces := by
  have hann : Along (Refreshed.step Sched.renderSource) (Refreshed.Sound Sched.Announced) renderStart secondReading := by
    decide +kernel
  have hrun : (exec (Refreshed.step Sched.renderSource) renderStart secondReading).map (fun q =>
      (q.1.reader, q.1.source.dirty, q.1.source.tasks, q.1.source.faces.map fun row => row.2.downct)) =
      some (.waiting, false, [], [1]) := by decide +kernel
  obtain ⟨⟨L, tr⟩, he, hq⟩ := Option.map_eq_some_iff.mp hrun
  simp only [Prod.mk.injEq] at hq
  obtain ⟨hwait, hclear, htasks, hdown⟩ := hq
  refine ⟨L, tr, he, hdown, (page_catches_up (.init {} oneServer (fun _ => 0) 0 false) rfl rfl hann he hwait hclear ?_).1⟩
  rintro ⟨r, p, h⟩
  rw [htasks] at h
  exact absurd h List.not_mem_nil

end Psysmon
