import Psysmon.Checks.Ping

/-!
# Psysmon.Checks.Probe — how a probe ends (`checks/ping.py`)

What `_probe` and `_probe_loss_tolerant` return or raise, read off the runs of the ping service in which `sendto` raises
nothing but `OSError`s.

* `raised_exec`: a probe raises what a send raised, or `OverflowError` for a count that is no float.
* `probe_can_end`: a probe that runs can go on to its end, whatever the others do.
* `Probed`, `exists_probed`, `Probed.cases`: the outcomes of a probe.
-/

namespace Psysmon.Ping

open Lib Checks

/-- What the check returned or raised; a cancelled check has neither. -/
def Phase.outcome : Phase → Option (Except Exn Status)
  | .returned s => some (.ok s)
  | .raised (some e) => some (.error e)
  | _ => none

/-- The outcome of the segment's `sendto`. -/
def Label.sent : Label → Except Exn Unit
  | .start _ _ _ _ sent | .resume _ _ _ sent => sent
  | .giveUp _ | .readable _ _ => .ok ()

/-- A send raises nothing but `OSError`s. -/
def Label.Sends (l : Label) : Prop := ∀ e, l.sent = .error e → e.isOSError = true

/-- `timeout_s / send_pings` raises. -/
def Uncountable (sendPings : ℤ) : Prop := 1 < sendPings ∧ Binary64.round sendPings = none

/-! ### What a probe raises -/

section Raises

variable {S S' : Service} {c : ℕ} {chk : Check} {nonce : Bytes} {sent : Except Exn Unit} {left : ℕ} {o tr : List Ev}
  {l : Label}

/-- The check `c` is at `p` now, and an exception it raised came from its send. -/
def At (S S' : Service) (c : ℕ) (chk : Check) (sent : Except Exn Unit) : Prop :=
  ∃ p, S'.checks = S.checks.set c { chk with phase := p } ∧ ∀ e, p = .raised (some e) → sent = .error e

theorem at_attempt : At S (S.attempt c chk left nonce sent).1 c chk sent := by
  cases sent with
  | ok u => exact ⟨_, rfl, by rintro e ⟨⟩⟩
  | error e =>
    refine ⟨.raised (some e), rfl, fun e' h => ?_⟩
    rw [Option.some.inj (Phase.raised.inj h)]

theorem checks_popAll (xs : List (Key × ℕ)) : (S.popAll c xs).1.checks = S.checks := by
  induction xs generalizing S with
  | nil => rfl
  | cons x xs ih => exact ih

theorem at_sendNext {xs : List (Key × ℕ)} : At S (S.sendNext c chk left xs nonce sent).1 c chk sent := by
  have hafter : ∀ {xs : List (Key × ℕ)} {e : Exn}, Phase.afterSend left xs ≠ .raised (some e) := by
    intro xs e
    cases left <;> rintro ⟨⟩
  cases sent with
  | ok u => exact ⟨.afterSend left _, rfl, fun e h => absurd h hafter⟩
  | error e =>
    simp only [Service.sendNext]
    split
    · exact ⟨.afterSend left _, rfl, fun e h => absurd h hafter⟩
    · refine ⟨.raised (some e), congrArg (List.set · c _) (checks_popAll _), fun e' h => ?_⟩
      rw [Option.some.inj (Phase.raised.inj h)]

theorem at_resume {p : Phase} {wake : Wake} {r : Service × List Ev}
    (hr : S.resume c chk nonce sent p wake = some r) : At S r.1 c chk sent := by
  have hpop : ∀ {xs : List (Key × ℕ)} {q : Phase}, (∀ e, q ≠ .raised (some e)) →
      At S ((S.popAll c xs).1.setPhase c chk q) c chk sent := fun {xs q} hq =>
    ⟨q, congrArg (List.set · c _) (checks_popAll xs), fun e h => absurd h (hq e)⟩
  have hone : ∀ {key : Key} {q : Phase}, (∀ e, q ≠ .raised (some e)) →
      At S ((S.pop c key).1.setPhase c chk q) c chk sent := fun hq => ⟨_, rfl, fun e h => absurd h (hq e)⟩
  cases p with
  | awaiting left key echo =>
    cases wake with
    | done =>
      simp only [Service.resume] at hr
      split at hr
      · exact Option.some.inj hr ▸ hone (by simp)
      · cases hr
    | timeout =>
      cases left with
      | zero => exact Option.some.inj hr ▸ hone (by simp)
      | succ left => exact Option.some.inj hr ▸ (at_attempt (S := (S.pop c key).1) : At _ _ c chk sent)
    | cancelled => exact Option.some.inj hr ▸ hone (by simp)
  | sleeping left xs =>
    cases wake with
    | done => exact Option.some.inj hr ▸ at_sendNext
    | timeout => cases hr
    | cancelled => exact Option.some.inj hr ▸ hpop (by simp)
  | collecting xs =>
    cases wake with
    | done => exact Option.some.inj hr ▸ hpop (by simp)
    | timeout => cases hr
    | cancelled => exact Option.some.inj hr ▸ hpop (by simp)
  | starting => cases hr
  | returned s => cases hr
  | raised e => cases hr

/-- What a check may have raised. -/
def Check.Raises (chk : Check) : Prop :=
  ∀ e, chk.phase = .raised (some e) → e.isOSError = true ∨ e = .overflow ∧ Uncountable chk.sendPings

theorem At.raises (h : At S S' c chk sent) (hsent : ∀ e, sent = .error e → e.isOSError = true)
    (hS : ∀ x ∈ S.checks, x.Raises) : ∀ x ∈ S'.checks, x.Raises := by
  obtain ⟨p, hchecks, hp⟩ := h
  intro x hx
  rw [hchecks] at hx
  rcases List.mem_or_eq_of_mem_set hx with hx | rfl
  · exact hS x hx
  · exact fun e he => .inl (hsent e (hp e he))

theorem raises_step (hl : l.Sends) (hS : ∀ x ∈ S.checks, x.Raises) (hs : S.step l = some (S', o)) :
    ∀ x ∈ S'.checks, x.Raises := by
  cases l with
  | start pool sendPings minPings nonce sent =>
    have hnew : ∀ x ∈ S.checks ++ [⟨pool, max 1 sendPings, max 1 (min minPings (max 1 sendPings)), .starting⟩],
        x.Raises := by
      intro x hx
      rcases List.mem_append.mp hx with hx | hx
      · exact hS x hx
      · rw [List.mem_singleton.mp hx]
        rintro e ⟨⟩
    simp only [Service.step] at hs
    split at hs
    · rw [← (Prod.mk.inj (Option.some.inj hs)).1]
      exact at_attempt.raises hl hnew
    · rename_i hone
      split at hs
      · rename_i hround
        obtain ⟨rfl, -⟩ := Prod.mk.inj (Option.some.inj hs)
        intro x hx
        rcases List.mem_or_eq_of_mem_set hx with hx | rfl
        · exact hnew x hx
        · intro e he
          obtain rfl := Option.some.inj (Phase.raised.inj he)
          exact .inr ⟨rfl, not_le.mp hone, hround⟩
      · rw [← (Prod.mk.inj (Option.some.inj hs)).1]
        exact at_sendNext.raises hl hnew
  | giveUp c =>
    simp only [Service.step] at hs
    split at hs
    · split at hs
      · obtain ⟨rfl, -⟩ := Prod.mk.inj (Option.some.inj hs)
        exact hS
      · cases hs
    · cases hs
  | resume c wake nonce sent =>
    simp only [Service.step] at hs
    split at hs
    · exact (at_resume hs).raises hl hS
    · cases hs
  | readable pool packet =>
    have hchecks := checks_onReadable S pool packet
    rw [show S.onReadable pool packet = (S', o) from Option.some.inj hs] at hchecks
    exact hchecks ▸ hS

/-- **What probes raise**, over any interleaving. -/
theorem raised_exec {seed : ℕ} {ls : List Label} (hls : ∀ l ∈ ls, l.Sends)
    (h : exec Service.step (.init seed) ls = some (S, tr)) : ∀ x ∈ S.checks, x.Raises :=
  exec_inv_state (P := fun _ l => l.Sends) (fun S => ∀ x ∈ S.checks, x.Raises) (fun _ _ _ _ hS hl hs => raises_step hl hS hs)
    (fun x hx => by simp [Service.init] at hx) (along_of_forall _ _ fun l hl _ => hls l hl) h

end Raises

/-! ### A probe can end -/

/-- The number of `await`s that a check has left at most. -/
def Phase.rank : Phase → ℕ
  | .awaiting left _ _ => left + 1
  | .sleeping left _ => left + 2
  | .collecting _ => 1
  | .starting | .returned _ | .raised _ => 0

section Progress

variable {S : Service} {c : ℕ} {chk : Check}

/-- A running check can go on from its `await`, without its reply, to one `await` less. -/
theorem exists_resume (hc : S.checks[c]? = some chk) (hrun : 0 < chk.phase.rank) :
    ∃ wake S' o p, S.step (.resume c wake [] (.ok ())) = some (S', o) ∧
      S'.checks[c]? = some { chk with phase := p } ∧ p.rank < chk.phase.rank ∧ (p.rank = 0 → ∃ s, p = .returned s) := by
  have hgo : ∀ (wake : Wake) {r : Service × List Ev} (p : Phase), S.resume c chk [] (.ok ()) chk.phase wake = some r →
      r.1.checks = S.checks.set c { chk with phase := p } → p.rank < chk.phase.rank →
      (p.rank = 0 → ∃ s, p = .returned s) →
      ∃ wake S' o p, S.step (.resume c wake [] (.ok ())) = some (S', o) ∧
        S'.checks[c]? = some { chk with phase := p } ∧ p.rank < chk.phase.rank ∧ (p.rank = 0 → ∃ s, p = .returned s) := by
    intro wake r p hr hchecks hlt hzero
    refine ⟨wake, r.1, r.2, p, ?_, ?_, hlt, hzero⟩
    · rw [Service.step, hc]
      exact hr
    · rw [hchecks]
      exact List.getElem?_set_self (List.getElem?_eq_some_iff.mp hc).1
  cases hp : chk.phase with
  | awaiting left key echo =>
    rw [← hp]
    cases left with
    | zero => exact hgo .timeout (.returned .unpingable) (by rw [hp]; rfl) rfl hrun fun _ => ⟨_, rfl⟩
    | succ left =>
      -- the next attempt
      refine hgo .timeout (.awaiting left (keyOf S.counter) S.echoes.length) (by rw [hp]; rfl) rfl ?_ (by rintro ⟨⟩)
      rw [hp]
      exact Nat.lt_succ_self _
  | sleeping left xs =>
    rw [← hp]
    refine hgo .done (.afterSend left (xs ++ [(keyOf S.counter, S.echoes.length)])) (by rw [hp]; rfl) rfl ?_ ?_
    · rw [hp]
      cases left <;> simp [Phase.afterSend, Phase.rank]
    · cases left <;> rintro ⟨⟩
  | collecting xs =>
    rw [← hp]
    exact hgo .done (.returned _) (by rw [hp]; rfl) (congrArg (List.set · c _) (checks_popAll xs)) hrun fun _ => ⟨_, rfl⟩
  | starting => exact absurd hrun (by simp [hp, Phase.rank])
  | returned s => exact absurd hrun (by simp [hp, Phase.rank])
  | raised e => exact absurd hrun (by simp [hp, Phase.rank])

/-- **A running probe can go on to its end**, by its own segments alone. -/
theorem probe_can_end (hc : S.checks[c]? = some chk) (hrun : 0 < chk.phase.rank) :
    ∃ ls S' tr s, exec Service.step S ls = some (S', tr) ∧ (∀ l ∈ ls, l.Sends) ∧
      S'.checks[c]? = some { chk with phase := .returned s } := by
  induction hn : chk.phase.rank using Nat.strong_induction_on generalizing S chk with
  | _ n ih =>
    obtain ⟨wake, S₁, o, p, hstep, hc₁, hlt, hzero⟩ := exists_resume hc hrun
    have hsend : (Label.resume c wake [] (.ok ())).Sends := by rintro e ⟨⟩
    rcases Nat.eq_zero_or_pos p.rank with h0 | hpos
    · obtain ⟨s, rfl⟩ := hzero h0
      refine ⟨[.resume c wake [] (.ok ())], S₁, o, s, exec_cons.mpr ⟨S₁, o, [], hstep, rfl, (List.append_nil o).symm⟩,
        fun l hl => ?_, hc₁⟩
      rw [List.mem_singleton.mp hl]
      exact hsend
    · obtain ⟨ls, S', tr, s, hrest, hls, hc'⟩ := ih p.rank (hn ▸ hlt) hc₁ hpos rfl
      exact ⟨.resume c wake [] (.ok ()) :: ls, S', o ++ tr, s, exec_cons.mpr ⟨S₁, o, tr, hstep, hrest, rfl⟩,
        List.forall_mem_cons.mpr ⟨hsend, hls⟩, hc'⟩

end Progress

/-! ### The outcomes of a probe -/

/-- A check that was started with these counts has returned or raised `out`, in some run of the service. -/
def Probed (sendPings minPings : ℤ) (out : Except Exn Status) : Prop :=
  ∃ (seed : ℕ) (ls : List Label) (S : Service) (tr : List Ev) (c : ℕ) (chk : Check),
    exec Service.step (.init seed) ls = some (S, tr) ∧ (∀ l ∈ ls, l.Sends) ∧ S.checks[c]? = some chk ∧
    chk.sendPings = max 1 sendPings ∧ chk.minPings = max 1 (min minPings (max 1 sendPings)) ∧ chk.phase.outcome = some out

theorem uncountable_iff {sendPings : ℤ} : Uncountable (max 1 sendPings) ↔ 2 ^ 1024 - 2 ^ 970 ≤ sendPings := by
  have hbig : (1 : ℤ) < 2 ^ 1024 - 2 ^ 970 := by decide +kernel
  have hcast : ((2 : ℚ) ^ 1024 - 2 ^ 970 ≤ |((max 1 sendPings : ℤ) : ℚ)|) ↔ 2 ^ 1024 - 2 ^ 970 ≤ |max 1 sendPings| := by
    exact_mod_cast Iff.rfl
  rw [Uncountable, Binary64.round_eq_none_iff, hcast, abs_of_pos (lt_max_of_lt_left one_pos), lt_max_iff, le_max_iff]
  generalize (2 : ℤ) ^ 1024 - 2 ^ 970 = bound at hbig ⊢
  omega

section Outcomes

variable {sendPings minPings : ℤ}

/-- A check that the service starts with runs after its first segment, or has raised for its count. -/
theorem exists_started (sendPings minPings : ℤ) : ∃ S tr chk,
    exec Service.step (.init 0) [.start .v4 sendPings minPings [] (.ok ())] = some (S, tr) ∧ S.checks[0]? = some chk ∧
      chk.sendPings = max 1 sendPings ∧ chk.minPings = max 1 (min minPings (max 1 sendPings)) ∧
      (0 < chk.phase.rank ∨ Uncountable (max 1 sendPings)) ∧
      (Uncountable (max 1 sendPings) → chk.phase = .raised (some .overflow)) := by
  -- the one check of the service is at `p`
  have hrun : ∀ p : Phase, ((Service.init 0).step (.start .v4 sendPings minPings [] (.ok ()))).map (·.1.checks) =
      some [⟨.v4, max 1 sendPings, max 1 (min minPings (max 1 sendPings)), p⟩] →
      (0 < p.rank ∨ Uncountable (max 1 sendPings)) → (Uncountable (max 1 sendPings) → p = .raised (some .overflow)) →
      ∃ S tr chk, exec Service.step (.init 0) [.start .v4 sendPings minPings [] (.ok ())] = some (S, tr) ∧
        S.checks[0]? = some chk ∧ chk.sendPings = max 1 sendPings ∧
        chk.minPings = max 1 (min minPings (max 1 sendPings)) ∧ (0 < chk.phase.rank ∨ Uncountable (max 1 sendPings)) ∧
        (Uncountable (max 1 sendPings) → chk.phase = .raised (some .overflow)) := by
    intro p hstep h1 h2
    obtain ⟨r, hr, hchecks⟩ := Option.map_eq_some_iff.mp hstep
    exact ⟨r.1, r.2, ⟨_, _, _, p⟩, exec_cons.mpr ⟨r.1, r.2, [], hr, rfl, (List.append_nil _).symm⟩,
      by rw [hchecks]; rfl, rfl, rfl, h1, h2⟩
  by_cases hone : max 1 sendPings ≤ 1
  · refine hrun (.awaiting retries (keyOf 0) 0) ?_ (.inl (Nat.succ_pos _)) fun hu => absurd hu.1 (not_lt.mpr hone)
    rw [Service.step, if_pos hone]
    rfl
  · cases hround : Binary64.round ((max 1 sendPings : ℤ) : ℚ) with
    | none =>
      refine hrun (.raised (some .overflow)) ?_ (.inr ⟨not_le.mp hone, hround⟩) fun _ => rfl
      rw [Service.step, if_neg hone, hround]
      rfl
    | some v =>
      refine hrun (.afterSend ((max 1 sendPings).toNat - 1) [(keyOf 0, 0)]) ?_ (.inl ?_) fun hu => ?_
      · rw [Service.step, if_neg hone, hround]
        rfl
      · cases (max 1 sendPings).toNat - 1 <;> simp [Phase.afterSend, Phase.rank]
      · cases hu.2.symm.trans hround

theorem probed_overflow (h : Uncountable (max 1 sendPings)) : Probed sendPings minPings (.error .overflow) := by
  obtain ⟨S, tr, chk, hrun, hc, hsend, hmin, -, hraised⟩ := exists_started sendPings minPings
  refine ⟨0, _, S, tr, 0, chk, hrun, fun l hl => ?_, hc, hsend, hmin, by rw [hraised h]; rfl⟩
  rw [List.mem_singleton.mp hl]
  rintro e ⟨⟩

/-- A probe has an outcome for any counts. -/
theorem exists_probed (sendPings minPings : ℤ) : ∃ out, Probed sendPings minPings out := by
  obtain ⟨S, tr, chk, hrun, hc, hsend, hmin, hrank | hu, -⟩ := exists_started sendPings minPings
  · obtain ⟨ls, S', tr', s, hrest, hls, hc'⟩ := probe_can_end hc hrank
    refine ⟨.ok s, 0, _ ++ ls, S', tr ++ tr', 0, _, exec_append.mpr ⟨S, tr, tr', hrun, hrest, rfl⟩, fun l hl => ?_, hc',
      hsend, hmin, rfl⟩
    rcases List.mem_append.mp hl with hl | hl
    · rw [List.mem_singleton.mp hl]
      rintro e ⟨⟩
    · exact hls l hl
  · exact ⟨_, probed_overflow hu⟩

theorem Probed.cases {out : Except Exn Status} (h : Probed sendPings minPings out) :
    (∃ s, out = .ok s) ∨ ∃ e, out = .error e ∧ (e.isOSError = true ∨ e = .overflow ∧ Uncountable (max 1 sendPings)) := by
  obtain ⟨seed, ls, S, tr, c, chk, hrun, hls, hc, hsend, -, hout⟩ := h
  have hraises := raised_exec hls hrun chk (List.mem_of_getElem? hc)
  unfold Phase.outcome at hout
  split at hout
  · exact .inl ⟨_, (Option.some.inj hout).symm⟩
  · rename_i e hp
    exact .inr ⟨e, (Option.some.inj hout).symm, hsend ▸ hraises e hp⟩
  · cases hout

end Outcomes

end Psysmon.Ping
