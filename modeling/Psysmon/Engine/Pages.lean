import Psysmon.Engine.Project

/-!
# Psysmon.Engine.Pages — which pages a run of the scheduler sends

Runs without a reload, over any order of results, gate changes, acks, notes and send outcomes:

* `down_pages_spaced`: two delivered `DOWN` pages of one outage lie more than the page interval apart, from the end
  of the earlier to the start of the later; with no interval there is at most one.
* `pages_of_outage`: which sends `contact_on` and an ack let through, and that a recovery page is sent exactly if the
  outage was paged, acked or silenced at a threshold step.
-/

namespace Psysmon

open Lib

/-- A `DOWN` page that was delivered. -/
def NodeEvent.isDownDelivered : NodeEvent → Bool
  | .sendEnd p ok _ => ok && p.intent = .down
  | _ => false

/-- Without a page interval an outage has room for one delivered `DOWN` page only. -/
theorem delivered_le_one {pi : ℚ} (hpi : pi ≤ 0) {tr : List NodeEvent} (h : Each (SendRule pi) tr) (x : List NodeEvent) :
    ∀ y z, tr = x ++ y ++ z → (∀ ev ∈ y, ev.isUpTransition = false) → y.countP NodeEvent.isDownDelivered ≤ 1 := by
  intro y
  induction y using List.reverseRecOn with
  | nil => simp
  | append_singleton y ev ih =>
    intro z htr hup
    have htr' : tr = (x ++ y) ++ ev :: z := by rw [htr]; simp
    have hy := ih (ev :: z) htr' (fun e he => hup e (by simp [he]))
    rw [List.countP_append, List.countP_singleton]
    by_cases hev : ev.isDownDelivered = true
    · -- a page delivered before `ev` in `y` is open when the send of `ev` starts
      suffices hzero : y.countP NodeEvent.isDownDelivered = 0 by rw [hzero, if_pos hev]
      rw [List.countP_eq_zero]
      intro ev' hmem hev'
      cases ev with
      | sendEnd q ok e' =>
        cases ev' with
        | sendEnd p ok' e =>
          simp only [NodeEvent.isDownDelivered, Bool.and_eq_true, decide_eq_true_eq] at hev hev'
          obtain ⟨rfl, hp⟩ := hev'
          obtain ⟨y₁, y₂, rfl⟩ := List.append_of_mem hmem
          obtain ⟨x', s, hx'⟩ := h _ _ _ htr'
          rcases List.eq_nil_or_concat y₂ with rfl | ⟨y₃, w, rfl⟩
          · rw [← List.append_assoc] at hx'
            simpa using (List.append_inj' hx' rfl).2
          · rw [List.concat_eq_append, ← List.cons_append, ← List.append_assoc, ← List.append_assoc] at hx'
            obtain ⟨rfl, hw⟩ := List.append_inj' hx' rfl
            obtain rfl : w = .sendStart q s := by simpa using hw
            have hopen : OpenPage (x ++ y₁ ++ .sendEnd p true e :: y₃) e :=
              ⟨x ++ y₁, p, y₃, rfl, hp, fun ev hev => hup ev (by simp [hev])⟩
            have := h (x ++ y₁ ++ .sendEnd p true e :: y₃) (.sendStart q s) (.sendEnd q ok e' :: z)
              (by rw [htr]; simp) hev.2 e hopen
            linarith [this.1]
        | _ => simp [NodeEvent.isDownDelivered] at hev'
      | _ => simp [NodeEvent.isDownDelivered] at hev
    · rw [if_neg hev]
      exact hy

theorem scheduled_exec {S₀ S : Sched} {as : List Label} {tr : List Event} (hno : ∀ a ∈ as, a.isReload = false)
    (he : exec Sched.step S₀ as = some (S, tr)) : S.scheduled = S₀.scheduled :=
  exec_freeze (P := fun _ a => a.isReload = false) Sched.scheduled
    (fun _ _ _ _ ha hs => ((Sched.stepped hs).kept ha).scheduled) (along_of_forall as _ fun a ha _ => hno a ha) he

theorem settings_exec {S₀ S : Sched} {as : List Label} {tr : List Event} (he : exec Sched.step S₀ as = some (S, tr)) :
    S.settings = S₀.settings :=
  exec_freeze (P := fun _ _ => True) Sched.settings
    (fun _ _ _ _ _ hs => settings_step hs) (along_of_forall as _ fun _ _ _ => trivial) he

/-- **Spacing of `DOWN` pages.** -/
theorem down_pages_spaced (settings : Settings) (F : Forest) (wall : ℕ → ℚ) (now : ℚ) (stagger : Bool)
    (as : List Label) (hno : ∀ a ∈ as, a.isReload = false) (S : Sched) (tr : List Event)
    (he : exec Sched.step (Sched.init settings F wall now stagger) as = some (S, tr)) (r : ℕ) (hr : r ∈ S.scheduled) :
    -- every send ends right after its own start
    (∀ x q ok e z, eventsOf r tr = x ++ NodeEvent.sendEnd q ok e :: z → ∃ x' s, x = x' ++ [NodeEvent.sendStart q s]) ∧
    -- the start of a later `DOWN` send, delivered or not
    (∀ x p e y q s z, eventsOf r tr = x ++ NodeEvent.sendEnd p true e :: y ++ NodeEvent.sendStart q s :: z →
      p.intent = .down → q.intent = .down → (∀ ev ∈ y, ev.isUpTransition = false) →
      (settings.pageintervalMin * 60 : ℚ) < s - e) ∧
    ((settings.pageintervalMin * 60 : ℚ) ≤ 0 → ∀ x y z, eventsOf r tr = x ++ y ++ z →
      (∀ ev ∈ y, ev.isUpTransition = false) → y.countP NodeEvent.isDownDelivered ≤ 1) := by
  rw [scheduled_exec hno he] at hr
  obtain ⟨hlt, htask, hset, -⟩ := view_init hr
  obtain ⟨-, -, -, hrun⟩ := project_exec (QueueInv.init settings F wall now stagger) he hlt
  have hrule := hrun.sendRule htask
  have hpi : ((Sched.init settings F wall now stagger).pagingCfg r).pageintervalS = settings.pageintervalMin * 60 := by
    simp [Sched.pagingCfg, hset]
  rw [hpi] at hrule
  refine ⟨fun x q ok e z htr => hrule x _ z htr, fun x p e y q s z htr hp hq hup => ?_,
    fun hle x y z htr hup => delivered_le_one hle hrule x y z htr hup⟩
  exact (hrule _ _ _ htr hq e ⟨x, p, y, rfl, hp, hup⟩).2

/-- Two failures page the router, and a third one past the interval re-pages it. -/
def repageRun : List Label :=
  [.tick 0, .finish 0 (some 1) 0 1 1, .tick 30, .finish 0 (some 1) 0 31 31, .sent 0 .first true .delivered 40 41,
    .tick 700, .finish 0 (some 1) 0 701 701, .sent 0 .repage true .delivered 705 706]

theorem down_pages_spaced_repage : ∃ S tr,
    exec Sched.step (Sched.init {} gatewayForest (fun _ => 0) 0 true) repageRun = some (S, tr) ∧
    eventsOf 0 tr = [NodeEvent.applied 1 false false false, NodeEvent.applied 1 false true false, NodeEvent.sendStart .first 31] ++
      NodeEvent.sendEnd .first true 40 :: [NodeEvent.applied 1 false true false] ++ NodeEvent.sendStart .repage 701 ::
      [NodeEvent.sendEnd .repage true 705] ∧
    (10 * 60 : ℚ) < 701 - 40 := by
  have hrun : (exec Sched.step (Sched.init {} gatewayForest (fun _ => 0) 0 true) repageRun).map
      (fun q => (eventsOf 0 q.2, q.1.scheduled)) =
      some ([NodeEvent.applied 1 false false false, NodeEvent.applied 1 false true false, NodeEvent.sendStart .first 31] ++
      NodeEvent.sendEnd .first true 40 :: [NodeEvent.applied 1 false true false] ++ NodeEvent.sendStart .repage 701 ::
      [NodeEvent.sendEnd .repage true 705], [0, 1]) := by
    decide +kernel
  obtain ⟨⟨S, tr⟩, he, hq⟩ := Option.map_eq_some_iff.mp hrun
  obtain ⟨hev, hsched⟩ := Prod.mk.inj hq
  have h := down_pages_spaced {} gatewayForest (fun _ => 0) 0 true repageRun (by decide) S tr he 0
    (by rw [show S.scheduled = [0, 1] from hsched]; decide)
  refine ⟨S, tr, he, hev, ?_⟩
  simpa using h.2.1 _ _ _ _ _ _ _ hev rfl rfl (by decide)

/-! ## What an outage sends -/

/-- A started send belongs to a result applied in the same segment: as `verdict_up` and `verdict_quiet` say. -/
theorem mem_checkEvents_sendStart {c : PagingCfg} {s : NodeState} {code : ℤ} {wall now later : ℚ} {p : Page} {t : ℚ} :
    NodeEvent.sendStart p t ∈ checkEvents c s code wall now later ↔
      (applyAndPage c s code wall now later).2.1 = some p ∧ t = later := by
  obtain ⟨s₁, i, -, -, hev⟩ := applyAndPage_spec c s code wall now later
  rw [hev]
  cases (applyAndPage c s code wall now later).2.1 with
  | none => simp
  | some q => simp [eq_comm]

section Verdict

variable {c : PagingCfg} {s : NodeState} {code : ℤ} {wall now later : ℚ}

theorem mem_checkEvents_up :
    (∃ k th ak, NodeEvent.applied k true th ak ∈ checkEvents c s code wall now later) ↔
      code = 0 ∧ s.lastcheck ≠ 0 := by
  by_cases hup : code = 0 ∧ s.lastcheck ≠ 0
  · obtain ⟨-, -, th, ak, hev⟩ := verdict_up c s code wall now later hup
    exact iff_of_true ⟨code, th, ak, by rw [hev]; simp⟩ hup
  · obtain ⟨th, hev, -⟩ := verdict_quiet c s code wall now later hup
    refine iff_of_false ?_ hup
    rintro ⟨k, th', ak, hmem⟩
    rw [hev] at hmem
    generalize (applyAndPage c s code wall now later).2.1 = pg at hmem
    cases pg <;> simp at hmem

/-- A `DOWN` send starts only for an unacked node whose mode pages on the way down. -/
theorem down_sendStart (hl : now ≤ later) {p : Page} {t : ℚ}
    (h : NodeEvent.sendStart p t ∈ checkEvents c s code wall now later) (hp : p.intent = .down) :
    s.acked = false ∧ (applyAndPage c s code wall now later).1.acked = false ∧ c.contactOn.pagesDown = true := by
  obtain ⟨hpg, -⟩ := mem_checkEvents_sendStart.mp h
  by_cases hup : code = 0 ∧ s.lastcheck ≠ 0
  · rw [(verdict_up c s code wall now later hup).2.1] at hpg
    split at hpg
    · obtain rfl : Page.recovery = p := by simpa using hpg
      simp [Page.intent] at hp
    · simp at hpg
  · obtain ⟨th, -, hesc⟩ := verdict_quiet c s code wall now later hup
    obtain ⟨ha, hc, -⟩ := (hesc hl).page p hpg
    exact ⟨ha, (hesc hl).acked.trans ha, hc⟩

/-- A recovery send starts exactly at the up-transition of a contacted node whose mode pages on the way up. -/
theorem recovery_sendStart (hl : now ≤ later) :
    (∃ t, NodeEvent.sendStart .recovery t ∈ checkEvents c s code wall now later) ↔
      (code = 0 ∧ s.lastcheck ≠ 0) ∧ c.contactOn.pagesUp = true ∧ s.contacted = true := by
  simp only [mem_checkEvents_sendStart, exists_and_left, exists_eq, and_true]
  by_cases hup : code = 0 ∧ s.lastcheck ≠ 0
  · rw [(verdict_up c s code wall now later hup).2.1]
    simp [hup, and_comm]
  · simp only [hup, false_and, iff_false]
    intro hpg
    obtain ⟨th, -, hesc⟩ := verdict_quiet c s code wall now later hup
    obtain ⟨-, -, ⟨hf, -⟩ | ⟨hf, -⟩⟩ := (hesc hl).page _ hpg <;> exact absurd hf (by simp)

end Verdict

/-- **The pages of an outage.** -/
theorem pages_of_outage (settings : Settings) (F : Forest) (wall : ℕ → ℚ) (now : ℚ) (stagger : Bool)
    (as : List Label) (hno : ∀ a ∈ as, a.isReload = false) (S : Sched) (tr : List Event)
    (he : exec Sched.step (Sched.init settings F wall now stagger) as = some (S, tr)) (r : ℕ) (hr : r ∈ S.scheduled)
    (a : Label) (S' : Sched) (o : List Event) (hs : S.step a = some (S', o)) (co : ContactOn)
    (hco : co = (S.objs r).node.contactOn.getD settings.contactOn) :
    -- no `DOWN` send starts while the node is acked
    (∀ p t, NodeEvent.sendStart p t ∈ eventsOf r o → p.intent = .down →
      (S.objs r).state.acked = false ∧ (S'.objs r).state.acked = false) ∧
    -- the modes of `contact_on`
    (co = .none → ∀ p t, NodeEvent.sendStart p t ∉ eventsOf r o) ∧
    (co = .up → ∀ p t, NodeEvent.sendStart p t ∈ eventsOf r o → p.intent ≠ .down) ∧
    (co = .down → ∀ t, NodeEvent.sendStart .recovery t ∉ eventsOf r o) ∧
    -- the recovery page
    ((∃ t, NodeEvent.sendStart .recovery t ∈ eventsOf r o) ↔
      (∃ k th ak, NodeEvent.applied k true th ak ∈ eventsOf r o) ∧ (co = .up ∨ co = .both) ∧
        PagedSince co (eventsOf r tr)) ∧
    recoveries (eventsOf r (tr ++ o)) ≤ 1 := by
  have hr₀ := hr
  rw [scheduled_exec hno he] at hr₀
  obtain ⟨hlt, htask, hset, -, w, hst⟩ := view_init hr₀
  have hq := QueueInv.init settings F wall now stagger
  have hk : ((Sched.init settings F wall now stagger).view r).st.contacted = false := by rw [hst]
  obtain ⟨-, -, hcfg, hrun⟩ := project_exec hq he hlt
  obtain ⟨-, -, -, hrun'⟩ := project_exec hq (exec_concat.mpr ⟨S, tr, o, he, hs, rfl⟩) hlt
  have hout := (hrun.outage htask hk).contacted_iff
  have hone := (hrun'.outage htask hk).oneRecovery
  have hset' : S.settings = settings := (settings_exec he).trans hset
  have hco' : (S.pagingCfg r).contactOn = co := by rw [hco, ← hset']; rfl
  rw [← hcfg, hco'] at hout
  rcases step_events hs r with hev | ⟨p, ok, e, hev⟩ | ⟨code, wall', now', later, -, -, hl, hev, hst', -⟩
  · rw [hev]
    exact ⟨by simp, by simp, by simp, by simp, by simp, hone⟩
  · rw [hev]
    exact ⟨by simp, by simp, by simp, by simp, by simp, hone⟩
  · rw [hev, hst']
    have hdown : ∀ p t, NodeEvent.sendStart p t ∈ checkEvents (S.pagingCfg r) (S.objs r).state code wall' now' later →
        p.intent = .down → co.pagesDown = true := fun p t hm hp => hco' ▸ (down_sendStart hl hm hp).2.2
    have hrec : (∃ t, NodeEvent.sendStart .recovery t ∈
        checkEvents (S.pagingCfg r) (S.objs r).state code wall' now' later) ↔ _ := recovery_sendStart hl
    rw [hco'] at hrec
    refine ⟨fun p t hm hp => ⟨(down_sendStart hl hm hp).1, (down_sendStart hl hm hp).2.1⟩, ?_, ?_, ?_, ?_, hone⟩
    · rintro rfl p t hm
      cases p with
      | first => exact absurd (hdown _ t hm rfl) (by simp [ContactOn.pagesDown])
      | repage => exact absurd (hdown _ t hm rfl) (by simp [ContactOn.pagesDown])
      | recovery => exact absurd (hrec.mp ⟨t, hm⟩).2.1 (by simp [ContactOn.pagesUp])
    · rintro rfl p t hm hp
      exact absurd (hdown p t hm hp) (by simp [ContactOn.pagesDown])
    · rintro rfl t hm
      exact absurd (hrec.mp ⟨t, hm⟩).2.1 (by simp [ContactOn.pagesUp])
    · rw [hrec, mem_checkEvents_up, ← hout]
      have hmode : co.pagesUp = true ↔ co = .up ∨ co = .both := by cases co <;> simp [ContactOn.pagesUp]
      rw [hmode]
      rfl

/-- The router's recovery page, and the history that makes it. -/
theorem pages_of_outage_recovery : ∃ S tr S' o,
    exec Sched.step (Sched.init {} gatewayForest (fun _ => 0) 0 true) (repageRun ++ [.tick 740]) = some (S, tr) ∧
    S.step (.finish 0 (some 0) 0 741 742) = some (S', o) ∧
    NodeEvent.sendStart .recovery 742 ∈ eventsOf 0 o ∧ PagedSince .both (eventsOf 0 tr) := by
  have hrun : (exec Sched.step (Sched.init {} gatewayForest (fun _ => 0) 0 true) (repageRun ++ [.tick 740])).map
      (fun q => (q.1.scheduled, (q.1.objs 0).node.contactOn,
        (q.1.step (.finish 0 (some 0) 0 741 742)).map fun q => eventsOf 0 q.2)) =
      some ([0, 1], none, some [.applied 0 true false false, .sendStart .recovery 742]) := by
    decide +kernel
  obtain ⟨⟨S, tr⟩, he, hq⟩ := Option.map_eq_some_iff.mp hrun
  simp only [Prod.mk.injEq] at hq
  obtain ⟨hsched, hco, hstep⟩ := hq
  obtain ⟨⟨S', o⟩, hs, hev⟩ := Option.map_eq_some_iff.mp hstep
  have hev : eventsOf 0 o = [.applied 0 true false false, .sendStart .recovery 742] := hev
  have hstart : NodeEvent.sendStart .recovery 742 ∈ eventsOf 0 o := by simp [hev]
  have h := pages_of_outage {} gatewayForest (fun _ => 0) 0 true _ (by decide) S tr he 0 (by rw [hsched]; decide)
    (.finish 0 (some 0) 0 741 742) S' o hs .both (by rw [hco]; rfl)
  exact ⟨S, tr, S', o, he, hs, hstart, (h.2.2.2.2.1.mp ⟨_, hstart⟩).2.2⟩

end Psysmon
