import Psysmon.Lib.Run
import Psysmon.Lib.Text
import Psysmon.Lib.Assoc

/-!
# Psysmon.Engine.DnsCache — the DNS cache (`engine/dnscache.py`)

A `resolve` call looks into the cache, queues at the lock of its `(hostname, family)` key, looks again once it has the
lock, and calls `resolve_fn` if it still finds nothing.  It is suspended at the lock and inside the lookup; `step` has
one label for each segment between two suspensions.  `asyncio.Lock` is fair: a call that finds the lock taken, or
others waiting for it, waits behind them, and the first in the queue goes on once the lock is free.

* `Stepped`: what one segment can do.
* `WellFormed`: a call that looks up holds the lock of its key, and the waiting calls are those in the queues.
* `Sourced`: every answer a call has returned came from a lookup of its key.
* `resolve_safe`: single flight, sources, freshness and counters over any interleaving.
-/

namespace Psysmon.Dns

open Lib

/-- `socket.AddressFamily`. -/
inductive Family
  | inet | inet6
  deriving DecidableEq, Repr

/-- The key of cache and locks. -/
structure Key where
  hostname : Text
  family : Family
  deriving DecidableEq

/-- Where a `resolve` call is. -/
inductive Phase
  /-- In the queue of the lock. -/
  | waiting
  /-- In `resolve_fn`, with the lock. -/
  | looking
  | returned (ip : Option Text)
  /-- Ended by an exception or a cancellation, after its cache decision or before. -/
  | raised (decided : Bool)
  deriving DecidableEq

/-- The call has got past its cache decision: it was a hit, or it went on to a lookup. -/
def Phase.decided : Phase → Bool
  | .waiting => false
  | .looking => true
  | .returned _ => true
  | .raised d => d

/-- The call is over. -/
def Phase.over : Phase → Bool
  | .waiting | .looking => false
  | .returned _ | .raised _ => true

structure Call where
  key : Key
  phase : Phase
  deriving DecidableEq

/-- The cache and its calls, which are numbered in the order they start. -/
structure Cache where
  expireS : ℚ
  /-- `_cache`: an address and when it was resolved. -/
  entry : Key → Option (Text × ℚ)
  /-- `_locks`: the call that holds the lock of a key, and the calls that wait for it. -/
  holder : Key → Option ℕ
  queue : Key → List ℕ
  calls : List Call
  hits : ℕ
  misses : ℕ
  expired : ℕ
  /-- The latest reading of the clock. -/
  now : ℚ

/-- What an observer sees. -/
inductive Ev
  /-- The call finds `ip` in the cache, and returns it. -/
  | hit (call : ℕ) (key : Key) (ip : Text) (time : ℚ)
  /-- It finds nothing, and calls `resolve_fn`. -/
  | miss (call : ℕ) (key : Key) (time : ℚ)
  /-- Its lookup returns `out`, and so does the call. -/
  | answer (call : ℕ) (key : Key) (out : Option Text) (time : ℚ)
  deriving DecidableEq

def Ev.key : Ev → Key
  | .hit _ k _ _ | .miss _ k _ | .answer _ k _ _ => k

inductive Label
  /-- A call starts; `t` and `t'` are its readings of the clock, the second if the lock is free. -/
  | start (key : Key) (t t' : ℚ)
  /-- The first call in the queue of a free lock goes on. -/
  | wake (key : Key) (t : ℚ)
  /-- A lookup returns. -/
  | answer (call : ℕ) (key : Key) (out : Option Text) (t : ℚ)
  /-- A lookup raises, or a call is cancelled at the lock or in its lookup. -/
  | abort (call : ℕ) (key : Key)

def Label.key : Label → Key
  | .start k _ _ | .wake k _ | .answer _ k _ _ | .abort _ k => k

namespace Cache

/-- `_fresh`. -/
def fresh (C : Cache) (k : Key) (now : ℚ) : Option Text :=
  match C.entry k with
  | some (ip, resolvedAt) => if now - resolvedAt < C.expireS then some ip else none
  | none => none

def init (expireS now : ℚ) : Cache where
  expireS := expireS
  entry _ := none
  holder _ := none
  queue _ := []
  calls := []
  hits := 0
  misses := 0
  expired := 0
  now := now

/-- A call appears. -/
def addCall (C : Cache) (k : Key) (ph : Phase) : Cache := { C with calls := C.calls ++ [⟨k, ph⟩] }

/-- A call moves on. -/
def setPhase (C : Cache) (c : ℕ) (k : Key) (ph : Phase) : Cache := { C with calls := C.calls.set c ⟨k, ph⟩ }

def setHolder (C : Cache) (k : Key) (h : Option ℕ) : Cache := { C with holder := Function.update C.holder k h }

def setQueue (C : Cache) (k : Key) (q : List ℕ) : Cache := { C with queue := Function.update C.queue k q }

def setEntry (C : Cache) (k : Key) (e : Option (Text × ℚ)) : Cache := { C with entry := Function.update C.entry k e }

/-- The body of `async with lock`, up to its end or to the lookup. -/
def locked (C : Cache) (c : ℕ) (k : Key) (t : ℚ) : Cache × List Ev :=
  match C.fresh k t with
  | some ip => ({ C.setPhase c k (.returned (some ip)) with hits := C.hits + 1, now := t }, [.hit c k ip t])
  | none =>
    ({ ((C.setPhase c k .looking).setHolder k (some c)).setEntry k none with
        misses := C.misses + 1
        expired := if (C.entry k).isSome then C.expired + 1 else C.expired
        now := t }, [.miss c k t])

/-- The segments of `resolve`. -/
def step (C : Cache) : Label → Option (Cache × List Ev)
  | .start k t t' =>
    if C.now ≤ t ∧ t ≤ t' then
      let c := C.calls.length
      match C.fresh k t with
      | some ip => some ({ C.addCall k (.returned (some ip)) with hits := C.hits + 1, now := t }, [.hit c k ip t])
      | none =>
        if C.holder k = none ∧ C.queue k = [] then some ((C.addCall k .waiting).locked c k t')
        else some ({ (C.addCall k .waiting).setQueue k (C.queue k ++ [c]) with now := t }, [])
    else none
  | .wake k t =>
    match C.queue k with
    | c :: rest => if C.holder k = none ∧ C.now ≤ t then some ((C.setQueue k rest).locked c k t) else none
    | [] => none
  | .answer c k out t =>
    if C.calls[c]? = some ⟨k, .looking⟩ ∧ C.now ≤ t then
      let C := match out with
        | some ip => C.setEntry k (some (ip, t))
        | none => C
      some ({ (C.setPhase c k (.returned out)).setHolder k none with now := t }, [.answer c k out t])
    else none
  | .abort c k =>
    if C.calls[c]? = some ⟨k, .looking⟩ then some ((C.setPhase c k (.raised true)).setHolder k none, [])
    else if C.calls[c]? = some ⟨k, .waiting⟩ then
      some ((C.setPhase c k (.raised false)).setQueue k ((C.queue k).erase c), [])
    else none

end Cache

/-! ### What one segment can do -/

/-- A call about to take the lock, and its second reading of the clock: it is a new one at a free lock, or the first
in the queue. -/
inductive Entering (C : Cache) : Label → Cache → ℕ → ℚ → Prop
  | new {k : Key} {t t' : ℚ} (hh : C.holder k = none) (hq : C.queue k = []) :
    Entering C (.start k t t') (C.addCall k .waiting) C.calls.length t'
  | queued {k : Key} {t : ℚ} {c : ℕ} {rest : List ℕ} (hh : C.holder k = none) (hq : C.queue k = c :: rest) :
    Entering C (.wake k t) (C.setQueue k rest) c t

/-- The segments of `resolve`. -/
inductive Stepped (C : Cache) : Label → Cache → List Ev → Prop
  | hitNow {k : Key} {t t' : ℚ} {ip : Text} (ht : C.now ≤ t) (hf : C.fresh k t = some ip) :
    Stepped C (.start k t t') { C.addCall k (.returned (some ip)) with hits := C.hits + 1, now := t }
      [.hit C.calls.length k ip t]
  | wait {k : Key} {t t' : ℚ} (ht : C.now ≤ t) (hf : C.fresh k t = none)
      (hl : ¬ (C.holder k = none ∧ C.queue k = [])) :
    Stepped C (.start k t t') { (C.addCall k .waiting).setQueue k (C.queue k ++ [C.calls.length]) with now := t } []
  | hitLocked {l : Label} {C₀ : Cache} {c : ℕ} {t : ℚ} {ip : Text} (he : Entering C l C₀ c t) (ht : C.now ≤ t)
      (hf : C.fresh l.key t = some ip) :
    Stepped C l { C₀.setPhase c l.key (.returned (some ip)) with hits := C.hits + 1, now := t } [.hit c l.key ip t]
  | miss {l : Label} {C₀ : Cache} {c : ℕ} {t : ℚ} (he : Entering C l C₀ c t) (ht : C.now ≤ t)
      (hf : C.fresh l.key t = none) :
    Stepped C l
      { ((C₀.setPhase c l.key .looking).setHolder l.key (some c)).setEntry l.key none with
        misses := C.misses + 1
        expired := if (C.entry l.key).isSome then C.expired + 1 else C.expired
        now := t } [.miss c l.key t]
  | answer {c : ℕ} {k : Key} {out : Option Text} {t : ℚ} (hc : C.calls[c]? = some ⟨k, .looking⟩) (ht : C.now ≤ t) :
    Stepped C (.answer c k out t)
      { (C.setPhase c k (.returned out)).setHolder k none with
        entry := Function.update C.entry k (match out with | some ip => some (ip, t) | none => C.entry k)
        now := t } [.answer c k out t]
  | abortLookup {c : ℕ} {k : Key} (hc : C.calls[c]? = some ⟨k, .looking⟩) :
    Stepped C (.abort c k) ((C.setPhase c k (.raised true)).setHolder k none) []
  | abortWait {c : ℕ} {k : Key} (hc : C.calls[c]? = some ⟨k, .waiting⟩) :
    Stepped C (.abort c k) ((C.setPhase c k (.raised false)).setQueue k ((C.queue k).erase c)) []

section Step

variable {C C' : Cache} {l : Label} {o : List Ev}

theorem Entering.fresh_eq {C₀ : Cache} {c : ℕ} {t : ℚ} (he : Entering C l C₀ c t) (j : Key) (s : ℚ) :
    C₀.fresh j s = C.fresh j s := by cases he <;> rfl

/-- The body of the lock is one of two segments. -/
theorem stepped_locked {C₀ : Cache} {c : ℕ} {t : ℚ} (he : Entering C l C₀ c t) (ht : C.now ≤ t) :
    Stepped C l (C₀.locked c l.key t).1 (C₀.locked c l.key t).2 := by
  have hf := he.fresh_eq l.key t
  have hframe : C₀.hits = C.hits ∧ C₀.misses = C.misses ∧ C₀.expired = C.expired ∧ C₀.entry = C.entry := by
    cases he <;> exact ⟨rfl, rfl, rfl, rfl⟩
  obtain ⟨h1, h2, h3, h4⟩ := hframe
  unfold Cache.locked
  rw [hf]
  cases hc : C.fresh l.key t with
  | some ip =>
    dsimp only
    rw [h1]
    exact .hitLocked he ht hc
  | none =>
    dsimp only
    rw [h2, h3, h4]
    exact .miss he ht hc

theorem stepped_of_step (h : C.step l = some (C', o)) : Stepped C l C' o := by
  cases l with
  | start k t t' =>
    simp only [Cache.step] at h
    split at h
    · rename_i ht
      cases hf : C.fresh k t with
      | some ip =>
        rw [hf] at h
        obtain ⟨rfl, rfl⟩ := Prod.mk.inj (Option.some.inj h)
        exact .hitNow ht.1 hf
      | none =>
        rw [hf] at h
        dsimp only at h
        split at h
        · rename_i hl
          have he : Entering C (.start k t t') (C.addCall k .waiting) C.calls.length t' := .new hl.1 hl.2
          have := stepped_locked he (ht.1.trans ht.2)
          rwa [show (C.addCall k .waiting).locked C.calls.length (Label.start k t t').key t' = (C', o) from
            Option.some.inj h] at this
        · rename_i hl
          obtain ⟨rfl, rfl⟩ := Prod.mk.inj (Option.some.inj h)
          exact .wait ht.1 hf hl
    · exact (nomatch h)
  | wake k t =>
    simp only [Cache.step] at h
    split at h
    · rename_i c rest hq
      split at h
      · rename_i hl
        have he : Entering C (.wake k t) (C.setQueue k rest) c t := .queued hl.1 hq
        have := stepped_locked he hl.2
        rwa [show (C.setQueue k rest).locked c (Label.wake k t).key t = (C', o) from Option.some.inj h] at this
      · exact (nomatch h)
    · exact (nomatch h)
  | answer c k out t =>
    simp only [Cache.step] at h
    split at h
    · rename_i hc
      have hs := @Stepped.answer C c k out t hc.1 hc.2
      obtain ⟨rfl, rfl⟩ := Prod.mk.inj (Option.some.inj h)
      cases out with
      | some ip => exact hs
      | none =>
        dsimp only at hs
        rw [Function.update_eq_self] at hs
        exact hs
    · exact (nomatch h)
  | abort c k =>
    simp only [Cache.step] at h
    split at h
    · rename_i hc
      obtain ⟨rfl, rfl⟩ := Prod.mk.inj (Option.some.inj h)
      exact .abortLookup hc
    · split at h
      · rename_i hc
        obtain ⟨rfl, rfl⟩ := Prod.mk.inj (Option.some.inj h)
        exact .abortWait hc
      · exact (nomatch h)

end Step

/-! ### Locks, queues and counters -/

/-- Locks and queues agree with the calls, and so do the counters. -/
structure WellFormed (C : Cache) : Prop where
  holder : ∀ k c, C.holder k = some c ↔ C.calls[c]? = some ⟨k, .looking⟩
  queue : ∀ k c, c ∈ C.queue k ↔ C.calls[c]? = some ⟨k, .waiting⟩
  nodup : ∀ k, (C.queue k).Nodup
  decided : C.hits + C.misses = C.calls.countP (·.phase.decided)
  expired : C.expired ≤ C.misses

theorem wellFormed_init (expireS now : ℚ) : WellFormed (.init expireS now) := by
  refine ⟨fun k c => ?_, fun k c => ?_, fun k => .nil, rfl, le_rfl⟩ <;> simp [Cache.init]

section Change

variable {C C' C₀ : Cache} {c : ℕ} {k : Key} {p : Phase}

/-- One call changes its phase; only the lock of its key is touched. -/
theorem WellFormed.change (hC : WellFormed C) (hcalls : ∀ j, C'.calls[j]? = if j = c then some ⟨k, p⟩ else C.calls[j]?)
    (hkey : ∀ x, C.calls[c]? = some x → x.key = k)
    (hother : ∀ j, j ≠ k → C'.holder j = C.holder j ∧ C'.queue j = C.queue j)
    (hholder : ∀ d, C'.holder k = some d ↔ if d = c then p = .looking else C.holder k = some d)
    (hqueue : ∀ d, d ∈ C'.queue k ↔ if d = c then p = .waiting else d ∈ C.queue k) (hnodup : (C'.queue k).Nodup)
    (hdecided : C'.hits + C'.misses = C'.calls.countP (·.phase.decided)) (hexpired : C'.expired ≤ C'.misses) :
    WellFormed C' := by
  -- a call of another key is not the one that changes
  have hne : ∀ {j : Key} {d : ℕ} {q : Phase}, j ≠ k → C.calls[d]? = some ⟨j, q⟩ → d ≠ c := by
    rintro j d q hj hd rfl
    exact hj (hkey _ hd)
  refine ⟨fun j d => ?_, fun j d => ?_, fun j => ?_, hdecided, hexpired⟩
  · rw [hcalls d]
    by_cases hj : j = k
    · subst hj
      rw [hholder d]
      split
      · simp
      · exact hC.holder j d
    · rw [(hother j hj).1, hC.holder j d]
      split
      · rename_i hd
        exact ⟨fun h => absurd hd (hne hj h), fun h => by simp [Ne.symm hj] at h⟩
      · rfl
  · rw [hcalls d]
    by_cases hj : j = k
    · subst hj
      rw [hqueue d]
      split
      · simp
      · exact hC.queue j d
    · rw [(hother j hj).2, hC.queue j d]
      split
      · rename_i hd
        exact ⟨fun h => absurd hd (hne hj h), fun h => by simp [Ne.symm hj] at h⟩
      · rfl
  · by_cases hj : j = k
    · exact hj ▸ hnodup
    · rw [(hother j hj).2]
      exact hC.nodup j

theorem lt_length_of_getElem? {x : Call} (h : C.calls[c]? = some x) : c < C.calls.length :=
  (List.getElem?_eq_some_iff.mp h).1

theorem getElem?_setPhase (h : c < C.calls.length) (j : ℕ) :
    (C.setPhase c k p).calls[j]? = if j = c then some ⟨k, p⟩ else C.calls[j]? := by
  simp only [Cache.setPhase, List.getElem?_set, h, if_true, eq_comm (a := c)]

theorem getElem?_addCall (j : ℕ) :
    (C.addCall k p).calls[j]? = if j = C.calls.length then some ⟨k, p⟩ else C.calls[j]? :=
  getElem?_concat C.calls _ j

/-- The count of decided calls when one call changes its phase. -/
theorem countP_setPhase {p₀ : Phase} (h : C.calls[c]? = some ⟨k, p₀⟩) :
    (C.setPhase c k p).calls.countP (·.phase.decided) + p₀.decided.toNat =
      C.calls.countP (·.phase.decided) + p.decided.toNat := by
  obtain ⟨hlt, hget⟩ := List.getElem?_eq_some_iff.mp h
  have hpos : p₀.decided = true → 0 < C.calls.countP (·.phase.decided) := fun hd =>
    List.countP_pos_iff.mpr ⟨_, List.mem_of_getElem? h, hd⟩
  rw [Cache.setPhase, List.countP_set hlt, hget]
  dsimp only
  cases hd : p₀.decided with
  | false => cases p.decided <;> simp
  | true =>
    have := hpos hd
    cases p.decided <;> simp <;> omega

/-- It makes its decision. -/
theorem countP_decide {p₀ : Phase} (h : C.calls[c]? = some ⟨k, p₀⟩) (h0 : p₀.decided = false) (h1 : p.decided = true) :
    (C.setPhase c k p).calls.countP (·.phase.decided) = C.calls.countP (·.phase.decided) + 1 := by
  have := countP_setPhase (p := p) h
  rw [h0, h1] at this
  simpa using this

/-- It had made it before, or has not yet. -/
theorem countP_keep {p₀ : Phase} (h : C.calls[c]? = some ⟨k, p₀⟩) (h0 : p₀.decided = p.decided) :
    (C.setPhase c k p).calls.countP (·.phase.decided) = C.calls.countP (·.phase.decided) := by
  have := countP_setPhase (p := p) h
  rw [h0] at this
  omega

theorem countP_addCall : (C.addCall k p).calls.countP (·.phase.decided) =
    C.calls.countP (·.phase.decided) + (if p.decided then 1 else 0) := by
  simp [Cache.addCall, List.countP_append, List.countP_singleton]

/-- A call that takes the lock was waiting or is new, and nobody holds the lock. -/
structure Entered (C C₀ : Cache) (c : ℕ) (k : Key) : Prop where
  self : C₀.calls[c]? = some ⟨k, .waiting⟩
  other : ∀ j, j ≠ c → C₀.calls[j]? = C.calls[j]?
  was : ∀ x, C.calls[c]? = some x → x = ⟨k, .waiting⟩
  holder : C₀.holder = C.holder
  free : C.holder k = none
  queue_ne : ∀ j, j ≠ k → C₀.queue j = C.queue j
  queue : ∀ d, d ∈ C₀.queue k ↔ d ≠ c ∧ d ∈ C.queue k
  nodup : (C₀.queue k).Nodup
  count : C₀.calls.countP (·.phase.decided) = C.calls.countP (·.phase.decided)

theorem Entering.entered {l : Label} {t : ℚ} (he : Entering C l C₀ c t) (hC : WellFormed C) : Entered C C₀ c l.key := by
  cases he with
  | @new k _ _ hh hq =>
    show Entered C _ _ k
    refine ⟨by rw [getElem?_addCall, if_pos rfl], fun j hj => by rw [getElem?_addCall, if_neg hj], fun x hx => ?_, rfl, hh,
      fun _ _ => rfl, fun d => ?_, hC.nodup k, by rw [countP_addCall]; rfl⟩
    · exact absurd (lt_length_of_getElem? hx) (lt_irrefl _)
    · exact ⟨fun h => absurd h (by simp [Cache.addCall, hq]), fun h => h.2⟩
  | @queued k _ _ rest hh hq =>
    show Entered C _ _ k
    have hself : C.calls[c]? = some ⟨k, .waiting⟩ := (hC.queue k c).mp (by simp [hq])
    have hnd := hC.nodup k
    rw [hq, List.nodup_cons] at hnd
    refine ⟨hself, fun _ _ => rfl, fun x hx => Option.some.inj (hx.symm.trans hself), rfl, hh, fun j hj => ?_, fun d => ?_,
      ?_, rfl⟩
    · exact Function.update_of_ne hj _ _
    · simp only [Cache.setQueue, Function.update_self, hq, List.mem_cons]
      constructor
      · exact fun h => ⟨fun hd => hnd.1 (hd ▸ h), .inr h⟩
      · rintro ⟨hne, rfl | h⟩
        · exact absurd rfl hne
        · exact h
    · simpa [Cache.setQueue] using hnd.2

end Change

theorem WellFormed.stepped {C C' : Cache} {l : Label} {o : List Ev} (hC : WellFormed C) (hs : Stepped C l C' o) :
    WellFormed C' := by
  -- the number of a new call is in no lock and in no queue
  have hnew : ∀ x, C.calls[C.calls.length]? ≠ some x := fun x => by simp
  have hholder : ∀ k, C.holder k ≠ some C.calls.length := fun k h => hnew _ ((hC.holder k _).mp h)
  have hqueue : ∀ k, C.calls.length ∉ C.queue k := fun k h => hnew _ ((hC.queue k _).mp h)
  have hdec := hC.decided
  cases hs with
  | @hitNow k t t' ip ht hf =>
    refine hC.change (k := k) (p := .returned (some ip)) getElem?_addCall (fun x hx => absurd hx (hnew x))
      (fun j hj => ⟨rfl, rfl⟩) (fun d => ?_) (fun d => ?_) (hC.nodup k) ?_ hC.expired
    · split
      · rename_i hd
        exact iff_of_false (hd ▸ hholder k) (by simp)
      · rfl
    · split
      · rename_i hd
        exact iff_of_false (hd ▸ hqueue k) (by simp)
      · rfl
    · show C.hits + 1 + C.misses = (C.addCall k (.returned (some ip))).calls.countP (·.phase.decided)
      rw [countP_addCall, ← hdec]
      show C.hits + 1 + C.misses = C.hits + C.misses + 1
      omega
  | @wait k t t' ht hf hl =>
    refine hC.change (k := k) (p := .waiting) getElem?_addCall (fun x hx => absurd hx (hnew x))
      (fun j hj => ⟨rfl, Function.update_of_ne hj _ _⟩) (fun d => ?_) (fun d => ?_) ?_ ?_ hC.expired
    · split
      · rename_i hd
        exact iff_of_false (hd ▸ hholder k) (by simp)
      · rfl
    · show d ∈ Function.update C.queue k (C.queue k ++ [C.calls.length]) k ↔ _
      rw [Function.update_self, List.mem_append, List.mem_singleton]
      split
      · rename_i hd
        simp [hd]
      · rename_i hd
        simp [hd]
    · show (Function.update C.queue k (C.queue k ++ [C.calls.length]) k).Nodup
      rw [Function.update_self]
      exact List.nodup_append.mpr ⟨hC.nodup k, List.nodup_singleton _, fun a ha b hb => by
        rw [List.mem_singleton.mp hb]
        rintro rfl
        exact hqueue k ha⟩
    · show C.hits + C.misses = (C.addCall k .waiting).calls.countP (·.phase.decided)
      rw [countP_addCall]
      exact hdec
  | @hitLocked _ C₀ c t ip he ht hf =>
    have hE := he.entered hC
    have hlt := lt_length_of_getElem? hE.self
    refine hC.change (k := l.key) (p := .returned (some ip)) (c := c) (fun j => ?_) (fun x hx => by rw [hE.was x hx])
      (fun j hj => ⟨congrFun hE.holder j, hE.queue_ne j hj⟩) (fun d => ?_) (fun d => ?_) hE.nodup ?_ ?_
    · refine (getElem?_setPhase hlt j).trans ?_
      split
      · rfl
      · rename_i hj
        exact hE.other j hj
    · show C₀.holder l.key = some d ↔ _
      rw [hE.holder, hE.free]
      split <;> simp
    · refine (hE.queue d).trans ?_
      split
      · rename_i hd
        simp [hd]
      · rename_i hd
        simp [hd]
    · have hcount := countP_decide (p := .returned (some ip)) hE.self rfl rfl
      have hm : C₀.misses = C.misses := by cases he <;> rfl
      show C.hits + 1 + C₀.misses = (C₀.setPhase c l.key (.returned (some ip))).calls.countP (·.phase.decided)
      have := hE.count
      omega
    · have hm : C₀.misses = C.misses ∧ C₀.expired = C.expired := by cases he <;> exact ⟨rfl, rfl⟩
      show C₀.expired ≤ C₀.misses
      rw [hm.1, hm.2]
      exact hC.expired
  | @miss _ C₀ c t he ht hf =>
    have hE := he.entered hC
    have hlt := lt_length_of_getElem? hE.self
    refine hC.change (k := l.key) (p := .looking) (c := c) (fun j => ?_) (fun x hx => by rw [hE.was x hx])
      (fun j hj => ⟨?_, hE.queue_ne j hj⟩) (fun d => ?_) (fun d => ?_) hE.nodup ?_ ?_
    · refine (getElem?_setPhase hlt j).trans ?_
      split
      · rfl
      · rename_i hj
        exact hE.other j hj
    · exact (Function.update_of_ne hj _ _).trans (congrFun hE.holder j)
    · show Function.update C₀.holder l.key (some c) l.key = some d ↔ _
      rw [Function.update_self, hE.free]
      split
      · rename_i hd
        simp [hd]
      · rename_i hd
        simp [Ne.symm hd]
    · refine (hE.queue d).trans ?_
      split
      · rename_i hd
        simp [hd]
      · rename_i hd
        simp [hd]
    · have hcount := countP_decide (p := .looking) hE.self rfl rfl
      have hh : C₀.hits = C.hits := by cases he <;> rfl
      show C₀.hits + (C.misses + 1) = (C₀.setPhase c l.key .looking).calls.countP (·.phase.decided)
      have := hE.count
      omega
    · have := hC.expired
      show (if (C.entry l.key).isSome then C.expired + 1 else C.expired) ≤ C.misses + 1
      split <;> omega
  | @answer c k out t hc ht =>
    have hself : C.holder k = some c := (hC.holder k c).mpr hc
    refine hC.change (k := k) (p := .returned out) (c := c) (getElem?_setPhase (lt_length_of_getElem? hc))
      (fun x hx => congrArg Call.key (Option.some.inj (hx.symm.trans hc))) (fun j hj => ⟨Function.update_of_ne hj _ _, rfl⟩)
      (fun d => ?_) (fun d => ?_) (hC.nodup k) ?_ hC.expired
    · show Function.update C.holder k none k = some d ↔ _
      rw [Function.update_self, hself]
      split
      · simp
      · rename_i hd
        simp [Ne.symm hd]
    · show d ∈ C.queue k ↔ _
      split
      · rename_i hd
        subst hd
        rw [hC.queue k d, hc]
        simp
      · rfl
    · exact hdec.trans (countP_keep (p := .returned out) hc rfl).symm
  | @abortLookup c k hc =>
    have hself : C.holder k = some c := (hC.holder k c).mpr hc
    refine hC.change (k := k) (p := .raised true) (c := c) (getElem?_setPhase (lt_length_of_getElem? hc))
      (fun x hx => congrArg Call.key (Option.some.inj (hx.symm.trans hc))) (fun j hj => ⟨Function.update_of_ne hj _ _, rfl⟩)
      (fun d => ?_) (fun d => ?_) (hC.nodup k) ?_ hC.expired
    · show Function.update C.holder k none k = some d ↔ _
      rw [Function.update_self, hself]
      split
      · simp
      · rename_i hd
        simp [Ne.symm hd]
    · show d ∈ C.queue k ↔ _
      split
      · rename_i hd
        subst hd
        rw [hC.queue k d, hc]
        simp
      · rfl
    · exact hdec.trans (countP_keep (p := .raised true) hc rfl).symm
  | @abortWait c k hc =>
    refine hC.change (k := k) (p := .raised false) (c := c) (getElem?_setPhase (lt_length_of_getElem? hc))
      (fun x hx => congrArg Call.key (Option.some.inj (hx.symm.trans hc))) (fun j hj => ⟨rfl, Function.update_of_ne hj _ _⟩)
      (fun d => ?_) (fun d => ?_) ?_ ?_ hC.expired
    · show C.holder k = some d ↔ _
      split
      · rename_i hd
        subst hd
        rw [hC.holder k d, hc]
        simp
      · rfl
    · show d ∈ Function.update C.queue k ((C.queue k).erase c) k ↔ _
      rw [Function.update_self, (hC.nodup k).mem_erase_iff]
      split
      · rename_i hd
        simp [hd]
      · rename_i hd
        simp [hd]
    · show (Function.update C.queue k ((C.queue k).erase c) k).Nodup
      rw [Function.update_self]
      exact (hC.nodup k).erase c
    · exact hdec.trans (countP_keep (p := .raised false) hc rfl).symm

/-! ### Where answers come from -/

/-- The answer of a call: it came from its own lookup, or from a finished lookup of the same key that was fresh when
the call found it in the cache. -/
def Sourced (expireS : ℚ) (tr : List Ev) (c : ℕ) (k : Key) : Option Text → Prop
  | none => ∃ t, .answer c k none t ∈ tr
  | some ip => (∃ t, .answer c k (some ip) t ∈ tr) ∨
      ∃ x z t d t', tr = x ++ .hit c k ip t :: z ∧ .answer d k (some ip) t' ∈ x ∧ t' ≤ t ∧ t - t' < expireS

theorem Sourced.append {expireS : ℚ} {tr : List Ev} {c : ℕ} {k : Key} {r : Option Text}
    (h : Sourced expireS tr c k r) (o : List Ev) : Sourced expireS (tr ++ o) c k r := by
  cases r with
  | none =>
    obtain ⟨t, ht⟩ := h
    exact ⟨t, List.mem_append_left _ ht⟩
  | some ip =>
    rcases h with ⟨t, ht⟩ | ⟨x, z, t, d, t', rfl, hx, hle, hlt⟩
    · exact .inl ⟨t, List.mem_append_left _ ht⟩
    · exact .inr ⟨x, z ++ o, t, d, t', by simp, hx, hle, hlt⟩

/-- What the cache and the finished calls owe to the history. -/
structure History (expireS : ℚ) (C : Cache) (tr : List Ev) : Prop where
  expire : C.expireS = expireS
  entry : ∀ k ip t, C.entry k = some (ip, t) → t ≤ C.now ∧ ∃ d, .answer d k (some ip) t ∈ tr
  sourced : ∀ c k r, C.calls[c]? = some ⟨k, .returned r⟩ → Sourced expireS tr c k r

section Sources

variable {expireS : ℚ} {C C' : Cache} {l : Label} {o tr : List Ev}

/-- An address that is found fresh has its lookup in the history. -/
theorem History.sourced_hit (h : History expireS C tr) {k : Key} {t : ℚ} {ip : Text} (ht : C.now ≤ t)
    (hf : C.fresh k t = some ip) (c : ℕ) : Sourced expireS (tr ++ [.hit c k ip t]) c k (some ip) := by
  unfold Cache.fresh at hf
  split at hf
  · rename_i ip' t' he
    split at hf
    · rename_i hlt
      obtain rfl := Option.some.inj hf
      obtain ⟨hle, d, hd⟩ := h.entry k _ t' he
      exact .inr ⟨tr, [], t, d, t', rfl, hd, hle.trans ht, h.expire ▸ hlt⟩
    · exact (nomatch hf)
  · exact (nomatch hf)

/-- A call that has returned keeps its answer; the others keep theirs. -/
theorem History.sourced_change (h : History expireS C tr) {c : ℕ} {k : Key} {p : Phase}
    (hcalls : ∀ j, C'.calls[j]? = if j = c then some ⟨k, p⟩ else C.calls[j]?)
    (hself : ∀ r, p = .returned r → Sourced expireS (tr ++ o) c k r) :
    ∀ d j r, C'.calls[d]? = some ⟨j, .returned r⟩ → Sourced expireS (tr ++ o) d j r := by
  intro d j r hd
  rw [hcalls d] at hd
  split at hd
  · rename_i hdc
    subst hdc
    obtain ⟨rfl, hp⟩ : k = j ∧ p = .returned r := by simpa using hd
    exact hself r hp
  · exact (h.sourced d j r hd).append o

theorem History.stepped (hC : WellFormed C) (h : History expireS C tr) (hs : Stepped C l C' o) :
    History expireS C' (tr ++ o) := by
  have hentry : ∀ {t : ℚ}, C.now ≤ t → ∀ k ip t', C.entry k = some (ip, t') →
      t' ≤ t ∧ ∃ d, .answer d k (some ip) t' ∈ tr ++ o := by
    intro t ht k ip t' he
    obtain ⟨hle, d, hd⟩ := h.entry k ip t' he
    exact ⟨hle.trans ht, d, List.mem_append_left _ hd⟩
  cases hs with
  | @hitNow k t t' ip ht hf =>
    refine ⟨h.expire, hentry ht, h.sourced_change getElem?_addCall fun r hr => ?_⟩
    obtain rfl := Phase.returned.inj hr
    exact h.sourced_hit ht hf _
  | @wait k t t' ht hf hl =>
    exact ⟨h.expire, hentry ht, h.sourced_change getElem?_addCall fun r hr => (nomatch hr)⟩
  | @hitLocked _ C₀ c t ip he ht hf =>
    have hE := he.entered hC
    have hframe : C₀.expireS = C.expireS ∧ C₀.entry = C.entry := by cases he <;> exact ⟨rfl, rfl⟩
    refine ⟨hframe.1.trans h.expire, fun k ip' t' hk => hentry ht k ip' t' (hframe.2 ▸ hk), ?_⟩
    refine h.sourced_change (c := c) (k := l.key) (p := .returned (some ip)) (fun j => ?_) fun r hr => ?_
    · refine (getElem?_setPhase (lt_length_of_getElem? hE.self) j).trans ?_
      split
      · rfl
      · rename_i hj
        exact hE.other j hj
    · obtain rfl := Phase.returned.inj hr
      exact h.sourced_hit ht hf _
  | @miss _ C₀ c t he ht hf =>
    have hE := he.entered hC
    have hframe : C₀.expireS = C.expireS ∧ C₀.entry = C.entry := by cases he <;> exact ⟨rfl, rfl⟩
    refine ⟨hframe.1.trans h.expire, fun k ip' t' hk => ?_, ?_⟩
    · change Function.update C₀.entry l.key none k = some (ip', t') at hk
      by_cases hkl : k = l.key
      · rw [hkl, Function.update_self] at hk
        exact (nomatch hk)
      · rw [Function.update_of_ne hkl, hframe.2] at hk
        exact hentry ht k ip' t' hk
    · refine h.sourced_change (c := c) (k := l.key) (p := .looking) (fun j => ?_) fun r hr => (nomatch hr)
      refine (getElem?_setPhase (lt_length_of_getElem? hE.self) j).trans ?_
      split
      · rfl
      · rename_i hj
        exact hE.other j hj
  | @answer c k out t hc ht =>
    refine ⟨h.expire, fun j ip t' hj => ?_, ?_⟩
    · change Function.update C.entry k _ j = some (ip, t') at hj
      by_cases hjk : j = k
      · subst hjk
        rw [Function.update_self] at hj
        cases out with
        | some ip' =>
          obtain ⟨rfl, rfl⟩ := Prod.mk.inj (Option.some.inj hj)
          exact ⟨le_rfl, c, by simp⟩
        | none => exact hentry ht j ip t' hj
      · rw [Function.update_of_ne hjk] at hj
        exact hentry ht j ip t' hj
    · refine h.sourced_change (c := c) (k := k) (p := .returned out)
        (getElem?_setPhase (lt_length_of_getElem? hc)) fun r hr => ?_
      obtain rfl := Phase.returned.inj hr
      cases out with
      | none => exact ⟨t, by simp⟩
      | some ip => exact .inl ⟨t, by simp⟩
  | @abortLookup c k hc =>
    exact ⟨h.expire, hentry le_rfl, h.sourced_change (c := c) (k := k) (p := .raised true)
      (getElem?_setPhase (lt_length_of_getElem? hc)) fun r hr => (nomatch hr)⟩
  | @abortWait c k hc =>
    exact ⟨h.expire, hentry le_rfl, h.sourced_change (c := c) (k := k) (p := .raised false)
      (getElem?_setPhase (lt_length_of_getElem? hc)) fun r hr => (nomatch hr)⟩

end Sources

theorem invariants_exec {expireS start : ℚ} {ls : List Label} {C : Cache} {tr : List Ev}
    (h : exec Cache.step (.init expireS start) ls = some (C, tr)) : WellFormed C ∧ History expireS C tr := by
  refine exec_inv (P := fun _ _ => True) (fun C tr => WellFormed C ∧ History expireS C tr)
    (fun C tr l C' o hC _ hs => ?_) ⟨wellFormed_init expireS start, rfl, fun k ip t he => ?_, fun c k r hc => ?_⟩
    (along_of_forall _ _ fun _ _ _ => trivial) h
  · exact ⟨hC.1.stepped (stepped_of_step hs), hC.2.stepped hC.1 (stepped_of_step hs)⟩
  · exact (nomatch he)
  · simp [Cache.init] at hc

/-- **The cache over any interleaving**: one lookup of a key at a time; every address came from the call's own lookup, or
from one of the same key that had ended less than `expire_s` before the call found it; `None` only from the call's own
lookup; and the counters count decisions. -/
theorem resolve_safe (expireS start : ℚ) (ls : List Label) (C : Cache) (tr : List Ev)
    (h : exec Cache.step (.init expireS start) ls = some (C, tr)) :
    (∀ (c d : ℕ) (k : Key), C.calls[c]? = some ⟨k, .looking⟩ → C.calls[d]? = some ⟨k, .looking⟩ → c = d) ∧
    (∀ (c : ℕ) (k : Key) (r : Option Text), C.calls[c]? = some ⟨k, .returned r⟩ → Sourced expireS tr c k r) ∧
    C.hits + C.misses = C.calls.countP (·.phase.decided) ∧ C.expired ≤ C.misses := by
  obtain ⟨hC, hH⟩ := invariants_exec h
  refine ⟨fun c d k hc hd => ?_, hH.sourced, hC.decided, hC.expired⟩
  exact Option.some.inj (((hC.holder k c).mpr hc).symm.trans ((hC.holder k d).mpr hd))

def routerKey : Key := ⟨"router".toList, .inet⟩

/-- Two calls at once, one lookup: the second call waits for the first one's answer. -/
def coalesced : List Label :=
  [.start routerKey 0 0, .start routerKey 0 0, .answer 0 routerKey (some "10.0.0.1".toList) 1, .wake routerKey 2]

theorem resolve_safe_coalesced :
    ∃ C tr, exec Cache.step (.init 900 0) coalesced = some (C, tr) ∧
      Sourced 900 tr 1 routerKey (some "10.0.0.1".toList) ∧ C.hits + C.misses = 2 := by
  obtain ⟨⟨C, tr⟩, h⟩ := Option.isSome_iff_exists.mp
    (show (exec Cache.step (.init 900 0) coalesced).isSome by decide +kernel)
  have hcalls : (exec Cache.step (.init 900 0) coalesced).map (·.1.calls) =
      some (List.replicate 2 ⟨routerKey, .returned (some "10.0.0.1".toList)⟩) := by decide +kernel
  rw [h] at hcalls
  obtain ⟨-, hsourced, hcount, -⟩ := resolve_safe 900 0 coalesced C tr h
  have hC : C.calls = List.replicate 2 ⟨routerKey, .returned (some "10.0.0.1".toList)⟩ := Option.some.inj hcalls
  refine ⟨C, tr, h, hsourced 1 routerKey _ (by rw [hC]; rfl), ?_⟩
  rw [hcount, hC]
  rfl

end Psysmon.Dns
