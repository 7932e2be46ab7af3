import Psysmon.Engine.Outage
import Psysmon.Engine.Queue

/-!
# Psysmon.Engine.Project — the scheduler moves every object by steps of the one-node machine

`Sched.view S r` is what the one-node machine sees of the object `r`: its state, its task, the clock.

* `project_step`: a segment of the scheduler is, for every object that exists, a run of `NodeStep`s with the same
  events; `node_step`, `settings_step`: its node and the settings stay.
* `project_exec`: the same for whole runs, so that every invariant of `NodeRun` holds of every object.
-/

namespace Psysmon

theorem NodeRun.single {c : PagingCfg} {v v' : NodeView} {o : List NodeEvent} (h : NodeStep c v o v') :
    NodeRun c v o v' := by
  simpa using NodeRun.step NodeRun.start h

theorem NodeRun.trans {c : PagingCfg} {v₀ v₁ v₂ : NodeView} {t₁ t₂ : List NodeEvent} (h₁ : NodeRun c v₀ t₁ v₁)
    (h₂ : NodeRun c v₁ t₂ v₂) : NodeRun c v₀ (t₁ ++ t₂) v₂ := by
  induction h₂ with
  | start => simpa using h₁
  | step _ hs ih =>
    rw [← List.append_assoc]
    exact ih.step hs

/-- The clock moves on. -/
theorem NodeRun.wait {c : PagingCfg} {v : NodeView} {t : ℚ} (ht : v.clk ≤ t) : NodeRun c v [] ⟨v.st, v.task, t⟩ :=
  .single (.quiet v.st.suppressed v.st.note v.st.downParents ht)

namespace Sched

/-- The phase of the check task of `r`. -/
def phaseOf (ts : List (ℕ × Phase)) (r : ℕ) : Option Phase := (ts.find? (·.1 = r)).map Prod.snd

def view (S : Sched) (r : ℕ) : NodeView := ⟨(S.objs r).state, phaseOf S.tasks r, S.mono⟩

/-- A run of the one-node machine that ends in what `S` shows of `r`. -/
theorem toView {c : PagingCfg} {v₀ v : NodeView} {tr : List NodeEvent} {S : Sched} {r : ℕ} (h : NodeRun c v₀ tr v)
    (h1 : (S.objs r).state = v.st) (h2 : phaseOf S.tasks r = v.task) (h3 : S.mono = v.clk) :
    NodeRun c v₀ tr (S.view r) := by
  unfold view
  rw [h1, h2, h3]
  exact h

theorem phaseOf_mem {ts : List (ℕ × Phase)} {r : ℕ} {ph : Phase} (h : phaseOf ts r = some ph) : (r, ph) ∈ ts := by
  obtain ⟨t, ht, rfl⟩ := Option.map_eq_some_iff.mp h
  have h1 : t.1 = r := by simpa using List.find?_some ht
  exact h1 ▸ List.mem_of_find?_eq_some ht

theorem phaseOf_eq_none {S : Sched} {r : ℕ} (h : S.taskCount r = 0) : phaseOf S.tasks r = none := by
  unfold phaseOf
  rw [Option.map_eq_none_iff, List.find?_eq_none]
  exact List.countP_eq_zero.mp h

theorem phaseOf_append_self {S : Sched} {r : ℕ} (h : S.taskCount r = 0) (ph : Phase) :
    phaseOf (S.tasks ++ [(r, ph)]) r = some ph := by
  have hn : S.tasks.find? (·.1 = r) = none := List.find?_eq_none.mpr (List.countP_eq_zero.mp h)
  simp [phaseOf, List.find?_append, hn]

theorem phaseOf_append_of_ne (ts : List (ℕ × Phase)) {r q : ℕ} (h : r ≠ q) (ph : Phase) :
    phaseOf (ts ++ [(q, ph)]) r = phaseOf ts r := by
  simp [phaseOf, List.find?_append, Ne.symm h]

theorem phaseOf_erase_of_ne (ts : List (ℕ × Phase)) {r q : ℕ} (h : r ≠ q) (ph : Phase) :
    phaseOf (ts.erase (q, ph)) r = phaseOf ts r := by
  unfold phaseOf
  congr 1
  induction ts with
  | nil => rfl
  | cons t ts ih =>
    rw [List.erase_cons]
    split
    · rename_i heq
      obtain rfl : t = (q, ph) := by simpa using heq
      rw [List.find?_cons_of_neg (by simpa using Ne.symm h)]
    · by_cases ht : t.1 = r
      · rw [List.find?_cons_of_pos (by simpa using ht), List.find?_cons_of_pos (by simpa using ht)]
      · rw [List.find?_cons_of_neg (by simpa using ht), List.find?_cons_of_neg (by simpa using ht), ih]

/-- An object has at most one task, so a pending one is the one seen. -/
theorem phaseOf_of_mem {S : Sched} {r : ℕ} {ph : Phase} (hle : S.taskCount r ≤ 1) (h : (r, ph) ∈ S.tasks) :
    phaseOf S.tasks r = some ph := by
  have hc : S.taskCount r = (S.tasks.erase (r, ph)).countP (·.1 = r) + 1 := by
    unfold taskCount
    rw [(List.perm_cons_erase h).countP_eq, List.countP_cons]
    simp
  cases hf : S.tasks.find? (·.1 = r) with
  | none => exact absurd (List.find?_eq_none.mp hf (r, ph) h) (by simp)
  | some t =>
    have ht := List.mem_of_find?_eq_some hf
    have htr : t.1 = r := by simpa using List.find?_some hf
    by_cases heq : t = (r, ph)
    · simp [phaseOf, hf, heq]
    · -- a second task of `r` would make two
      have hmem : t ∈ S.tasks.erase (r, ph) := (List.mem_erase_of_ne heq).mpr ht
      have : 0 < (S.tasks.erase (r, ph)).countP (·.1 = r) := List.countP_pos_iff.mpr ⟨t, hmem, by simpa using htr⟩
      omega

/-! ### What the writes leave alone -/

theorem endTask_objs (S : Sched) (q : ℕ) :
    (S.endTask q).objs = (S.modify q fun o => { o with inFlight := false }).objs := by
  unfold endTask
  dsimp only
  split <;> rfl

theorem endTask_state (S : Sched) (q r : ℕ) : ((S.endTask q).objs r).state = (S.objs r).state := by
  rw [endTask_objs]
  by_cases h : r = q
  · subst h
    simp
  · rw [modify_objs_of_ne _ _ _ h]

theorem endTask_objs_of_ne (S : Sched) {q r : ℕ} (h : r ≠ q) : (S.endTask q).objs r = S.objs r := by
  rw [endTask_objs, modify_objs_of_ne _ _ _ h]

/-- A verdict on `q` touches no other object. -/
theorem applyVerdict_objs_of_ne (S : Sched) {q r : ℕ} (h : r ≠ q) (code : ℤ) (wall now later : ℚ) :
    (S.applyVerdict q code wall now later).1.objs r = S.objs r := by
  unfold applyVerdict
  split
  · exact endTask_objs_of_ne S h
  split
  · dsimp only
    rw [endTask_objs_of_ne _ h, modifyState, modify_objs_of_ne _ _ _ h]
  · dsimp only
    split
    · rw [addTask_objs, modify_objs_of_ne _ _ _ h]
    · rw [endTask_objs_of_ne _ h, publish_objs, modify_objs_of_ne _ _ _ h]

@[simp] theorem endTask_tasks (S : Sched) (q : ℕ) : (S.endTask q).tasks = S.tasks := by
  unfold endTask
  dsimp only
  split <;> rfl

@[simp] theorem endTask_mono (S : Sched) (q : ℕ) : (S.endTask q).mono = S.mono := by
  unfold endTask
  dsimp only
  split <;> rfl

/-! ### Segments -/

variable {c : PagingCfg} {S : Sched}

theorem project_dispatch {q : ℕ} (hq : S.taskCount q = 0) (now : ℚ) (r : ℕ) :
    NodeRun c (S.view r) [] ((S.dispatch now q).view r) := by
  unfold dispatch
  dsimp only
  by_cases hr : r = q
  · subst hr
    split
    · exact toView (.single (.dispatch le_rfl (phaseOf_eq_none hq))) (by simp [view])
        (phaseOf_append_self hq .running) rfl
    · exact toView (.single (.quiet true (S.view r).st.note (S.view r).st.downParents le_rfl))
        (by simp [view, modifyState]) rfl rfl
  · split
    · exact toView .start (by simp [view, modify_objs_of_ne _ _ _ hr]) (phaseOf_append_of_ne S.tasks hr .running) rfl
    · exact toView .start (by simp [view, modifyState, modify_objs_of_ne _ _ _ hr]) rfl rfl

theorem project_tickLoop (now : ℚ) (r : ℕ) : ∀ (n : ℕ) {S : Sched}, QueueInv S [] →
    NodeRun c (S.view r) [] ((tickLoop now n S).view r)
  | 0, _, _ => .start
  | n + 1, S, h => by
    unfold tickLoop
    split
    · exact .start
    · rename_i e rest hh
      split
      · obtain ⟨h1, hr, hi⟩ := h.pop hh
        have hd : NodeRun c (S.view r) [] (({ S with heap := rest }.dispatch now e.sched).view r) :=
          project_dispatch (h1.floating e.sched (by simp)).2 now r
        exact hd.trans (project_tickLoop now r n (h1.dispatch hr hi now))
      · exact .start

/-- A resumed task leaves no other behind. -/
theorem taskCount_resume {q : ℕ} {ph : Phase} (hq : (q, ph) ∈ S.tasks) (hle : S.taskCount q ≤ 1) (t : ℚ) :
    (S.resume q ph t).taskCount q = 0 := by
  have hc : S.taskCount q = (S.tasks.erase (q, ph)).countP (·.1 = q) + 1 := by
    unfold taskCount
    rw [(List.perm_cons_erase hq).countP_eq, List.countP_cons]
    simp
  show (S.tasks.erase (q, ph)).countP (·.1 = q) = 0
  omega

/-- A verdict on `q`, which was `running`, as `q` sees it. -/
theorem project_verdict {q : ℕ} (hq : (q, Phase.running) ∈ S.tasks) (hle : S.taskCount q ≤ 1) (code : ℤ)
    {wall now later : ℚ} (hn : S.mono ≤ now) (hl : now ≤ later) :
    NodeRun (S.pagingCfg q) (S.view q) ((S.resume q .running later).applyVerdict q code wall now later).2
      (((S.resume q .running later).applyVerdict q code wall now later).1.view q) := by
  have hphase := phaseOf_of_mem hle hq
  have hzero := taskCount_resume hq hle later
  have hnone : phaseOf (S.tasks.erase (q, .running)) q = none := phaseOf_eq_none hzero
  unfold applyVerdict
  split
  · exact toView (.single (.drop (hn.trans hl) hphase (S.view q).st.suppressed)) (by simp [view, endTask_state])
      (by simpa using hnone) (by simp)
  split
  · exact toView (.single (.drop (hn.trans hl) hphase true)) (by simp [view, endTask_state, modifyState])
      (by simpa [modifyState] using hnone) (by simp [modifyState])
  · refine toView (.single (.check hphase code wall now later hn hl)) ?_ ?_ ?_ <;> dsimp only
    · split
      · simp [view, pagingCfg]
      · simp [view, pagingCfg, endTask_state]
    · split
      · rename_i p hp
        have hp : (applyAndPage (S.pagingCfg q) (S.view q).st code wall now later).2.1 = some p := hp
        rw [hp]
        exact phaseOf_append_self hzero _
      · rename_i hp
        have hp : (applyAndPage (S.pagingCfg q) (S.view q).st code wall now later).2.1 = none := hp
        rw [hp]
        simpa using hnone
    · split <;> simp

/-- A verdict on another object: the clock moves on. -/
theorem project_verdict_other {q r : ℕ} (hr : r ≠ q) (code : ℤ) {wall now later : ℚ} (hn : S.mono ≤ now)
    (hl : now ≤ later) :
    NodeRun c (S.view r) [] (((S.resume q .running later).applyVerdict q code wall now later).1.view r) := by
  have hphase : phaseOf (S.tasks.erase (q, .running)) r = phaseOf S.tasks r := phaseOf_erase_of_ne _ hr _
  refine toView (.wait (hn.trans hl)) ?_ ?_ ?_ <;> unfold applyVerdict <;> dsimp only
  · split
    · simp [view, endTask_state]
    split
    · simp [view, endTask_state, modifyState, modify_objs_of_ne _ _ _ hr]
    split <;> simp [view, endTask_state, modify_objs_of_ne _ _ _ hr]
  · split
    · simpa [view] using hphase
    split
    · simpa [view, modifyState] using hphase
    split
    · simp only [addTask_tasks, modify_tasks, resume_tasks]
      rw [phaseOf_append_of_ne _ hr, hphase]
      rfl
    · simpa [view] using hphase
  · split
    · simp
    split
    · simp [modifyState]
    split <;> simp

theorem project_raised {q : ℕ} (hq : (q, Phase.running) ∈ S.tasks) (hle : S.taskCount q ≤ 1) (r : ℕ) {t : ℚ}
    (ht : S.mono ≤ t) : NodeRun c (S.view r) [] (((S.resume q .running t).endTask q).view r) := by
  by_cases hr : r = q
  · subst hr
    exact toView (.single (.drop ht (phaseOf_of_mem hle hq) (S.view r).st.suppressed)) (by simp [view, endTask_state])
      (by simpa using phaseOf_eq_none (taskCount_resume hq hle t)) (by simp)
  · exact toView (.wait ht) (by simp [view, endTask_state]) (by simpa [view] using phaseOf_erase_of_ne _ hr _) (by simp)

theorem project_sent {q : ℕ} {p : Page} {ch : Bool} (hq : (q, Phase.sending p ch) ∈ S.tasks) (hle : S.taskCount q ≤ 1)
    (out : SendOutcome) {ended now : ℚ} (he : S.mono ≤ ended) (hn : ended ≤ now) :
    NodeRun c (S.view q) [.sendEnd p (out = .delivered) ended]
      (((S.resume q (.sending p ch) now).applySent q p ch out now).view q) :=
  toView (.single (.sent (phaseOf_of_mem hle hq) out ended now he hn)) (by simp [applySent, view, endTask_state, modifyState])
    (by simpa [applySent, modifyState] using phaseOf_eq_none (taskCount_resume hq hle now)) (by simp [applySent, modifyState])

theorem project_sent_other {q r : ℕ} (hr : r ≠ q) (p : Page) (ch : Bool) (out : SendOutcome) {now : ℚ}
    (hn : S.mono ≤ now) :
    NodeRun c (S.view r) [] (((S.resume q (.sending p ch) now).applySent q p ch out now).view r) :=
  toView (.wait hn) (by simp [applySent, view, endTask_state, modifyState, modify_objs_of_ne _ _ _ hr])
    (by simpa [applySent, modifyState, view] using phaseOf_erase_of_ne _ hr _) (by simp [applySent, modifyState])

theorem project_ack (hostname typeValue : Lib.Text) (port : ℤ) (r : ℕ) :
    NodeRun c (S.view r) [] ((S.ack hostname typeValue port).view r) := by
  by_cases hr : r ∈ S.matching hostname typeValue port
  · exact toView (.single (.ack le_rfl)) (by simp [ack, mapStates, view, hr]) rfl rfl
  · exact toView .start (by simp [ack, mapStates, view, hr]) rfl rfl

theorem project_setNote (hostname typeValue : Lib.Text) (port : ℤ) (text : Option Lib.Text) (r : ℕ) :
    NodeRun c (S.view r) [] ((S.setNote hostname typeValue port text).view r) := by
  by_cases hr : r ∈ S.matching hostname typeValue port
  · exact toView (.single (.quiet (S.view r).st.suppressed (capNote text) (S.view r).st.downParents le_rfl))
      (by simp [setNote, mapStates, view, hr]) rfl rfl
  · exact toView .start (by simp [setNote, mapStates, view, hr]) rfl rfl

theorem project_nodeStates (r : ℕ) : NodeRun c (S.view r) [] (S.nodeStates.view r) := by
  by_cases hr : r ∈ S.scheduled
  · exact toView (.single (.quiet (S.view r).st.suppressed (S.view r).st.note (S.downParents r) le_rfl))
      (by simp [nodeStates, view, hr]) rfl rfl
  · exact toView .start (by simp [nodeStates, view, hr]) rfl rfl


theorem project_reload (F : Forest) (wall : ℕ → ℚ) {now : ℚ} (hn : S.mono ≤ now) {r : ℕ} (hr : r < S.fresh) :
    NodeRun c (S.view r) [] ((S.reload F wall now).view r) := by
  refine toView (.wait hn) ?_ ?_ rfl
  · rw [S.reload_old F wall now hr]
    rfl
  · rw [(S.reload_frame F wall now).1]
    rfl

end Sched

theorem eventsOf_map_self (r : ℕ) (es : List NodeEvent) : eventsOf r (es.map (r, ·)) = es := by
  simp [eventsOf, List.filter_map, Function.comp_def]

theorem eventsOf_map_of_ne {r q : ℕ} (h : r ≠ q) (es : List NodeEvent) : eventsOf r (es.map (q, ·)) = [] := by
  simp [eventsOf, List.filter_map, Function.comp_def, Ne.symm h]

theorem eventsOf_append (r : ℕ) (t₁ t₂ : List Event) : eventsOf r (t₁ ++ t₂) = eventsOf r t₁ ++ eventsOf r t₂ := by
  simp [eventsOf]

/-- **What a segment shows of `r`**: nothing, the end of a send, or an applied result, and this only if `r` is alive and
eligible. -/
theorem step_events {S S' : Sched} {a : Label} {o : List Event} (hs : S.step a = some (S', o)) (r : ℕ) :
    eventsOf r o = [] ∨ (∃ p ok e, eventsOf r o = [.sendEnd p ok e]) ∨
    ∃ code wall now later, (S.objs r).alive = true ∧ S.eligible r = true ∧ now ≤ later ∧
      eventsOf r o = checkEvents (S.pagingCfg r) (S.objs r).state code wall now later ∧
      (S'.objs r).state = (applyAndPage (S.pagingCfg r) (S.objs r).state code wall now later).1 ∧
      ∀ q, q ≠ r → S'.objs q = S.objs q := by
  cases Sched.stepped hs with
  | @verdict q code wall now later ht hn hl =>
    by_cases hrq : r = q
    · subst hrq
      rw [eventsOf_map_self]
      have hother : ∀ q, q ≠ r → ((S.resume r .running later).applyVerdict r code wall now later).1.objs q = S.objs q :=
        fun q hq => Sched.applyVerdict_objs_of_ne _ hq code wall now later
      unfold Sched.applyVerdict at hother ⊢
      split
      · exact Or.inl rfl
      · rename_i halive
        split
        · exact Or.inl rfl
        · rename_i helig
          rw [if_neg halive, if_neg helig] at hother
          refine Or.inr (Or.inr ⟨code, wall, now, later, by simpa using halive, by simpa using helig, hl, rfl, ?_,
            hother⟩)
          dsimp only
          split
          · simp [Sched.pagingCfg]
          · simp [Sched.pagingCfg, Sched.endTask_state]
    · exact Or.inl (eventsOf_map_of_ne hrq _)
  | @sent q p ch out ended now ht he hn =>
    by_cases hrq : r = q
    · subst hrq
      exact Or.inr (Or.inl ⟨p, _, ended, eventsOf_map_self r [.sendEnd p (out = .delivered) ended]⟩)
    · exact Or.inl (eventsOf_map_of_ne hrq [.sendEnd p (out = .delivered) ended])
  | _ => exact Or.inl rfl

/-- **Projection.**  A segment of the scheduler is a run of the one-node machine for every existing object. -/
theorem project_step {S S' : Sched} {a : Label} {o : List Event} (hq : QueueInv S []) (hs : S.step a = some (S', o))
    {r : ℕ} (hr : r < S.fresh) : NodeRun (S.pagingCfg r) (S.view r) (eventsOf r o) (S'.view r) := by
  cases Sched.stepped hs with
  | @tick now h =>
    have hq' : QueueInv { S with mono := now } [] := hq.congr rfl rfl rfl rfl rfl (fun _ => rfl) (fun _ _ => rfl)
    have hw : NodeRun (S.pagingCfg r) (S.view r) [] (Sched.view { S with mono := now } r) := .wait h
    exact hw.trans (Sched.project_tickLoop now r S.heap.length hq')
  | raised ht hn hl => exact Sched.project_raised ht (hq.task_le _) r (hn.trans hl)
  | @verdict q code wall now later ht hn hl =>
    by_cases hrq : r = q
    · subst hrq
      rw [eventsOf_map_self]
      exact Sched.project_verdict ht (hq.task_le r) code hn hl
    · rw [eventsOf_map_of_ne hrq]
      exact Sched.project_verdict_other hrq code hn hl
  | @sent q p ch out ended now ht he hn =>
    by_cases hrq : r = q
    · subst hrq
      have hev := eventsOf_map_self r [.sendEnd p (out = .delivered) ended]
      rw [List.map_singleton] at hev
      rw [hev]
      exact Sched.project_sent ht (hq.task_le r) out he hn
    · have hev := eventsOf_map_of_ne hrq [.sendEnd p (out = .delivered) ended]
      rw [List.map_singleton] at hev
      rw [hev]
      exact Sched.project_sent_other hrq p ch out (he.trans hn)
  | ack => exact Sched.project_ack _ _ _ r
  | setNote => exact Sched.project_setNote _ _ _ _ r
  | nodeStates => exact Sched.project_nodeStates r
  | clearDirty => exact .start
  | reload h => exact Sched.project_reload _ _ h hr

theorem settings_step {S S' : Sched} {a : Label} {o : List Event} (hs : S.step a = some (S', o)) :
    S'.settings = S.settings := by
  by_cases ha : a.isReload = true
  · cases Sched.stepped hs with
    | @reload F wall now h => exact (S.reload_frame F wall now).2.1
    | _ => simp [Label.isReload] at ha
  · exact ((Sched.stepped hs).kept (by simpa using ha)).settings

/-- The node of an object never changes. -/
theorem node_step {S S' : Sched} {a : Label} {o : List Event} (hs : S.step a = some (S', o)) {r : ℕ}
    (hr : r < S.fresh) : r < S'.fresh ∧ (S'.objs r).node = (S.objs r).node := by
  by_cases ha : a.isReload = true
  · cases Sched.stepped hs with
    | @reload F wall now h =>
      refine ⟨?_, by rw [S.reload_old F wall now hr]⟩
      rw [(S.reload_frame F wall now).2.2.1]
      omega
    | _ => simp [Label.isReload] at ha
  · have hk := (Sched.stepped hs).kept (by simpa using ha)
    exact ⟨hk.fresh ▸ hr, hk.node r⟩

theorem pagingCfg_step {S S' : Sched} {a : Label} {o : List Event} (hs : S.step a = some (S', o)) {r : ℕ}
    (hr : r < S.fresh) : S'.pagingCfg r = S.pagingCfg r := by
  unfold Sched.pagingCfg
  rw [(node_step hs hr).2, settings_step hs]

/-- **Projection of runs.** -/
theorem project_exec {S₀ S : Sched} {as : List Label} {tr : List Event} (hq : QueueInv S₀ [])
    (he : Lib.exec Sched.step S₀ as = some (S, tr)) {r : ℕ} (hr : r < S₀.fresh) :
    QueueInv S [] ∧ r < S.fresh ∧ S.pagingCfg r = S₀.pagingCfg r ∧
      NodeRun (S₀.pagingCfg r) (S₀.view r) (eventsOf r tr) (S.view r) := by
  refine Lib.exec_inv (P := fun _ _ => True)
    (fun S tr => QueueInv S [] ∧ r < S.fresh ∧ S.pagingCfg r = S₀.pagingCfg r ∧
      NodeRun (S₀.pagingCfg r) (S₀.view r) (eventsOf r tr) (S.view r))
    ?_ ⟨hq, hr, rfl, .start⟩ (Lib.along_of_forall as _ fun _ _ _ => trivial) he
  rintro S tr a S' o ⟨h1, h2, h3, h4⟩ - hs
  refine ⟨h1.step hs, (node_step hs h2).1, (pagingCfg_step hs h2).trans h3, ?_⟩
  rw [eventsOf_append]
  exact h4.trans (h3 ▸ project_step h1 hs h2)

/-- A new object: no task, not contacted. -/
theorem view_init {settings : Settings} {F : Forest} {wall : ℕ → ℚ} {now : ℚ} {stagger : Bool} {r : ℕ}
    (hr : r ∈ (Sched.init settings F wall now stagger).scheduled) :
    let S₀ := Sched.init settings F wall now stagger
    r < S₀.fresh ∧ (S₀.view r).task = none ∧ S₀.settings = settings ∧ (S₀.objs r).checked = false ∧
      ∃ w, (S₀.view r).st = { maxDown := (S₀.objs r).node.maxDown, lastUp := w } := by
  dsimp only
  have hq := QueueInv.init settings F wall now stagger
  refine ⟨hq.sched_lt r hr, ?_⟩
  unfold Sched.init at hr ⊢
  obtain ⟨h, n, hS⟩ := Sched.install_frame
    { settings := settings
      objs := fun _ => ⟨F.node F.objs.length, {}, [], 0, none, 0, false, false, false⟩
      fresh := 0
      scheduled := []
      heap := []
      heapSeq := 0
      tasks := []
      dirty := true
      warnings := flattenWarnings F
      mono := now }
    (Sched.newScheduled settings F 0 wall now stagger)
  rw [hS] at hr ⊢
  obtain ⟨o, ho, heq⟩ := Sched.allocate_new _ _ hr
  obtain ⟨-, -, hc, n', w, hst, hnode⟩ := Sched.mem_newScheduled ho
  refine ⟨rfl, rfl, ?_, w, ?_⟩
  · show (Sched.allocate _ _ r).checked = false
    rw [heq]
    exact hc
  · show (Sched.allocate _ _ r).state = _
    simp only [heq, hst, hnode]

end Psysmon
