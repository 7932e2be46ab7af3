import Psysmon.Lib.Run
import Psysmon.Lib.Assoc
import Psysmon.Lib.Binary64
import Psysmon.Checks.Icmp
import Psysmon.Checks.Base

/-!
# Psysmon.Checks.Ping — the ping service (`checks/ping.py`)

All ping checks share one counter and one map from `(identifier, sequence)` to the waiter of an echo and its nonce; the
readers of all raw sockets, of both families, resolve waiters through that map.  A check runs from one `await` to the
next: `step` has one label for each such segment, one for a waiter that `wait_for` gives up, and one for a packet on a
socket.  Which of a reply, the timer and a cancellation ends an `await` is up to the event loop.

* `Echo`: an echo with the check that drew it; echoes are numbered in the order they are drawn.
* `Fewer`: the counter does not come round while an echo is pending.
* `Sound`: the map holds the echoes that its checks still wait for, under the keys they drew.
* `demux_sound`: keys, waiters and clean-up over any interleaving.
-/

namespace Psysmon.Ping

open Lib Checks

/-- `(identifier, sequence)`. -/
abbrev Key := ℕ × ℕ

/-- The two pools of raw sockets. -/
inductive Pool
  | v4 | v6
  deriving DecidableEq, Repr

/-- `pool.build`. -/
def Pool.build : Pool → Key → Bytes → Bytes
  | .v4, k, nonce => Icmp.buildEchoRequest k.1 k.2 nonce
  | .v6, k, nonce => Icmp.buildEchoRequest6 k.1 k.2 nonce

/-- `pool.parse`. -/
def Pool.parse : Pool → Bytes → Option (ℕ × ℕ × Bytes)
  | .v4 => Icmp.parseEchoReply
  | .v6 => Icmp.parseEchoReply6

/-- The state of a waiter. -/
inductive Future
  | waiting | resolved | cancelled
  deriving DecidableEq, Repr

/-- An echo: the check that sent it, its key and nonce, and its waiter. -/
structure Echo where
  check : ℕ
  key : Key
  nonce : Bytes
  future : Future
  deriving DecidableEq

/-- Where a check is, with the keys of the echoes it is to remove and their waiters. -/
inductive Phase
  | starting
  /-- In `wait_for`, with `left` further attempts to come. -/
  | awaiting (left : ℕ) (key : Key) (echo : ℕ)
  /-- Asleep before its next send, with `left` more after that. -/
  | sleeping (left : ℕ) (echoes : List (Key × ℕ))
  /-- In `asyncio.wait`. -/
  | collecting (echoes : List (Key × ℕ))
  | returned (status : Status)
  /-- Ended by an exception, or by a cancellation. -/
  | raised (exn : Option Exn)
  deriving DecidableEq

def Phase.own : Phase → List (Key × ℕ)
  | .awaiting _ key echo => [(key, echo)]
  | .sleeping _ echoes | .collecting echoes => echoes
  | .starting | .returned _ | .raised _ => []

/-- After a send of `_probe_loss_tolerant`, with `left` more to come. -/
def Phase.afterSend : ℕ → List (Key × ℕ) → Phase
  | 0, echoes => .collecting echoes
  | left + 1, echoes => .sleeping left echoes

theorem Phase.own_afterSend (left : ℕ) (echoes : List (Key × ℕ)) : (Phase.afterSend left echoes).own = echoes := by
  cases left <;> rfl

def Phase.over : Phase → Bool
  | .returned _ | .raised _ => true
  | _ => false

/-- How an `await` ends: with what it waited for, with the timeout of `wait_for`, or with a cancellation. -/
inductive Wake
  | done | timeout | cancelled
  deriving DecidableEq, Repr

structure Check where
  pool : Pool
  sendPings : ℤ
  minPings : ℤ
  phase : Phase
  deriving DecidableEq

/-- `PingService`, its waiters and its checks. -/
structure Service where
  counter : ℕ
  pending : Key → Option (ℕ × Bytes)
  echoes : List Echo
  checks : List Check

/-- What an observer sees. -/
inductive Ev
  /-- The check draws the key of an echo, which is pending from now on. -/
  | drawn (check echo : ℕ)
  | sent (check echo : ℕ) (pool : Pool) (packet : Bytes)
  /-- The check removes the entry of an echo, or puts its own in the place of it. -/
  | removed (check echo : ℕ)
  /-- The waiter of an echo is resolved by a packet. -/
  | resolved (echo : ℕ) (pool : Pool) (packet : Bytes)
  deriving DecidableEq

/-- `sent` is the outcome of the segment's `sendto`, if it makes one, and `nonce` its `token_bytes`. -/
inductive Label
  /-- A check starts to probe. -/
  | start (pool : Pool) (sendPings minPings : ℤ) (nonce : Bytes) (sent : Except Exn Unit)
  /-- `wait_for` cancels the waiter. -/
  | giveUp (check : ℕ)
  /-- The check goes on. -/
  | resume (check : ℕ) (wake : Wake) (nonce : Bytes) (sent : Except Exn Unit)
  /-- A socket of the pool has a packet. -/
  | readable (pool : Pool) (packet : Bytes)

/-- `_RETRIES`. -/
def retries : ℕ := 2

/-- The key that `_next_key` makes of the counter. -/
def keyOf (counter : ℕ) : Key :=
  let value := counter &&& 0xFFFFFFFF
  ((value >>> 16) &&& 0xFFFF, value &&& 0xFFFF)

/-- The result of `_probe_loss_tolerant`. -/
def lossVerdict (received : ℕ) (minPings : ℤ) : Status :=
  if (received : ℤ) ≥ minPings then .ok else if received = 0 then .unpingable else .degraded

/-- An entry that goes. -/
def removal (c : ℕ) : Option (ℕ × Bytes) → List Ev
  | some (e, _) => [.removed c e]
  | none => []

namespace Service

def init (counter : ℕ) : Service := ⟨counter, fun _ => none, [], []⟩

/-- The next key, a new waiter, and the entry of both. -/
def draw (S : Service) (c : ℕ) (nonce : Bytes) : Service × List Ev :=
  let key := keyOf S.counter
  ({ S with
      counter := (S.counter + 1) &&& 0xFFFFFFFF
      pending := Function.update S.pending key (some (S.echoes.length, nonce))
      echoes := S.echoes ++ [⟨c, key, nonce, .waiting⟩] },
    .drawn c S.echoes.length :: removal c (S.pending key))

/-- `_pending.pop(key, None)`. -/
def pop (S : Service) (c : ℕ) (key : Key) : Service × List Ev :=
  ({ S with pending := Function.update S.pending key none }, removal c (S.pending key))

def popAll (S : Service) (c : ℕ) : List (Key × ℕ) → Service × List Ev
  | [] => (S, [])
  | x :: xs =>
    let (S, o) := S.pop c x.1
    let (S, o') := S.popAll c xs
    (S, o ++ o')

/-- The check waits, or ends. -/
def setPhase (S : Service) (c : ℕ) (chk : Check) (p : Phase) : Service :=
  { S with checks := S.checks.set c { chk with phase := p } }

def setFuture (S : Service) (e : ℕ) (f : Future) : Service :=
  { S with echoes := S.echoes.modify e fun x => { x with future := f } }

def futureIs (S : Service) (e : ℕ) (f : Future) : Bool :=
  match S.echoes[e]? with
  | some x => x.future = f
  | none => false

/-- An attempt of `_probe`, up to its `await`. -/
def attempt (S : Service) (c : ℕ) (chk : Check) (left : ℕ) (nonce : Bytes) (sent : Except Exn Unit) :
    Service × List Ev :=
  let key := keyOf S.counter
  let echo := S.echoes.length
  let (S, o) := S.draw c nonce
  match sent with
  | .ok _ => (S.setPhase c chk (.awaiting left key echo), o ++ [.sent c echo chk.pool (chk.pool.build key nonce)])
  | .error e =>
    let (S, o') := S.pop c key
    (S.setPhase c chk (.raised (some e)), o ++ o')

/-- A round of the loop of `_probe_loss_tolerant`, up to the `sleep` or to the `wait` behind the loop. -/
def sendNext (S : Service) (c : ℕ) (chk : Check) (left : ℕ) (xs : List (Key × ℕ)) (nonce : Bytes)
    (sent : Except Exn Unit) : Service × List Ev :=
  let key := keyOf S.counter
  let echo := S.echoes.length
  let (S, o) := S.draw c nonce
  let xs := xs ++ [(key, echo)]
  match sent with
  | .ok _ => (S.setPhase c chk (.afterSend left xs), o ++ [.sent c echo chk.pool (chk.pool.build key nonce)])
  | .error e =>
    if e.isOSError then (S.setPhase c chk (.afterSend left xs), o)
    else
      let (S, o') := S.popAll c xs
      (S.setPhase c chk (.raised (some e)), o ++ o')

/-- The check goes on from its `await`. -/
def resume (S : Service) (c : ℕ) (chk : Check) (nonce : Bytes) (sent : Except Exn Unit) :
    Phase → Wake → Option (Service × List Ev)
  | .awaiting left key echo, wake =>
    let (S', o) := S.pop c key
    match wake with
    | .done => if S.futureIs echo .resolved then some (S'.setPhase c chk (.returned .ok), o) else none
    | .timeout =>
      match left with
      | 0 => some (S'.setPhase c chk (.returned .unpingable), o)
      | left + 1 =>
        let (S', o') := S'.attempt c chk left nonce sent
        some (S', o ++ o')
    | .cancelled => some (S'.setPhase c chk (.raised none), o)
  | .sleeping left xs, .done => some (S.sendNext c chk left xs nonce sent)
  | .collecting xs, .done =>
    let received := xs.countP fun x => S.futureIs x.2 .resolved
    let (S', o) := S.popAll c xs
    some (S'.setPhase c chk (.returned (lossVerdict received chk.minPings)), o)
  | .sleeping _ xs, .cancelled | .collecting xs, .cancelled =>
    let (S', o) := S.popAll c xs
    some (S'.setPhase c chk (.raised none), o)
  | _, _ => none

/-- `_on_readable`, for a packet that `recvfrom` returns. -/
def onReadable (S : Service) (pool : Pool) (packet : Bytes) : Service × List Ev :=
  match pool.parse packet with
  | none => (S, [])
  | some (ident, seq, payload) =>
    match S.pending (ident, seq) with
    | none => (S, [])
    | some (e, nonce) =>
      if nonce.isPrefixOf payload && S.futureIs e .waiting then (S.setFuture e .resolved, [.resolved e pool packet])
      else (S, [])

def step (S : Service) : Label → Option (Service × List Ev)
  | .start pool sendPings minPings nonce sent =>
    -- the clamping in `check`
    let sendPings := max 1 sendPings
    let minPings := max 1 (min minPings sendPings)
    let c := S.checks.length
    let chk : Check := ⟨pool, sendPings, minPings, .starting⟩
    let S := { S with checks := S.checks ++ [chk] }
    if sendPings ≤ 1 then some (S.attempt c chk retries nonce sent)
    else
      match Binary64.round sendPings with
      -- `timeout_s / send_pings` raises
      | none => some (S.setPhase c chk (.raised (some .overflow)), [])
      | some _ => some (S.sendNext c chk (sendPings.toNat - 1) [] nonce sent)
  | .giveUp c =>
    match S.checks[c]? with
    | some ⟨_, _, _, .awaiting _ _ echo⟩ => if S.futureIs echo .waiting then some (S.setFuture echo .cancelled, []) else none
    | _ => none
  | .resume c wake nonce sent =>
    match S.checks[c]? with
    | some chk => S.resume c chk nonce sent chk.phase wake
    | none => none
  | .readable pool packet => some (S.onReadable pool packet)

end Service

/-! ### Keys -/

theorem and_mask (n : ℕ) : n &&& 0xFFFFFFFF = n % 2 ^ 32 := Nat.and_two_pow_sub_one_eq_mod n 32

/-- Keys tell the counter's values apart, modulo its 32 bits. -/
theorem keyOf_eq_iff {m n : ℕ} : keyOf m = keyOf n ↔ m % 2 ^ 32 = n % 2 ^ 32 := by
  have hmask : ∀ k : ℕ, k &&& 0xFFFF = k % 2 ^ 16 := fun k => Nat.and_two_pow_sub_one_eq_mod k 16
  simp only [keyOf, and_mask, hmask, Nat.shiftRight_eq_div_pow, Prod.mk.injEq]
  omega

/-! ### Draws in the history -/

/-- The echo whose key is drawn. -/
def Ev.draw? : Ev → Option ℕ
  | .drawn _ e => some e
  | _ => none

/-- Fewer than `2 ^ 32` keys are drawn while an echo is pending. -/
def Fewer (tr : List Ev) : Prop :=
  ∀ x c e y, (x ++ Ev.drawn c e :: y) <+: tr → (∀ d, Ev.removed d e ∉ y) → (y.filterMap Ev.draw?).length < 2 ^ 32

theorem Fewer.of_prefix {tr tr' : List Ev} (h : Fewer tr') (hp : tr <+: tr') : Fewer tr :=
  fun x c e y hx => h x c e y (hx.trans hp)

/-- If the echoes so far are numbered in order, those behind the `e`-th are the rest. -/
theorem exists_split_of_draws {tr : List Ev} {n e : ℕ} (h : tr.filterMap Ev.draw? = List.range n) (he : e < n) :
    ∃ x c y, tr = x ++ Ev.drawn c e :: y ∧ (y.filterMap Ev.draw?).length = n - e - 1 := by
  have hmem : e ∈ tr.filterMap Ev.draw? := by rw [h]; exact List.mem_range.mpr he
  obtain ⟨ev, hev, hdraw⟩ := List.mem_filterMap.mp hmem
  obtain ⟨x, y, rfl⟩ := List.append_of_mem hev
  cases ev with
  | drawn c e' =>
    obtain rfl : e' = e := Option.some.inj hdraw
    refine ⟨x, c, y, rfl, ?_⟩
    -- the draws are a range, so the draw of `e` is at position `e`
    rw [List.filterMap_append, List.filterMap_cons_some (f := Ev.draw?) rfl] at h
    have hlen := congrArg List.length h
    have hpos : (x.filterMap Ev.draw?).length = e' := by
      have hget : (List.range n)[(x.filterMap Ev.draw?).length]? = some e' := by
        rw [← h, List.getElem?_append_right le_rfl]
        simp
      rw [List.getElem?_eq_some_iff] at hget
      obtain ⟨hlt, hget⟩ := hget
      rwa [List.getElem_range] at hget
    simp only [List.length_append, List.length_cons, List.length_range] at hlen
    omega
  | sent => cases hdraw
  | removed => cases hdraw
  | resolved => cases hdraw

/-! ### The map -/

/-- The map and the history, when each check `c` still has the echoes `O c` to remove. -/
structure Sound (seed : ℕ) (S : Service) (O : ℕ → List (Key × ℕ)) (tr : List Ev) : Prop where
  counter : S.counter % 2 ^ 32 = (seed + S.echoes.length) % 2 ^ 32
  draws : tr.filterMap Ev.draw? = List.range S.echoes.length
  key : ∀ (e : ℕ) (x : Echo), S.echoes[e]? = some x → x.key = keyOf (seed + e)
  nodup : ∀ c, (O c).Nodup
  /-- What a check has to remove is there, and is its own. -/
  owned : ∀ c k e, (k, e) ∈ O c →
    (∃ x, S.echoes[e]? = some x ∧ x.check = c ∧ x.key = k ∧ S.pending k = some (e, x.nonce)) ∧ ∀ d, .removed d e ∉ tr
  /-- Nothing else is there. -/
  listed : ∀ k e nonce, S.pending k = some (e, nonce) → ∃ c, (k, e) ∈ O c
  /-- What is not to be removed any more has been removed. -/
  settled : ∀ (e : ℕ) (x : Echo), S.echoes[e]? = some x → (x.key, e) ∈ O x.check ∨ .removed x.check e ∈ tr
  removed : ∀ c e, .removed c e ∈ tr → ∃ x, S.echoes[e]? = some x ∧ x.check = c
  resolved : ∀ (e : ℕ) (x : Echo), S.echoes[e]? = some x → x.future = .resolved → ∃ pool packet, .resolved e pool packet ∈ tr
  accepted : ∀ e pool packet, .resolved e pool packet ∈ tr →
    ∃ x payload, S.echoes[e]? = some x ∧ pool.parse packet = some (x.key.1, x.key.2, payload) ∧ x.nonce <+: payload

section Map

variable {seed : ℕ} {S : Service} {O : ℕ → List (Key × ℕ)} {tr : List Ev} {c : ℕ}

theorem Sound.lt_of_mem (h : Sound seed S O tr) {k : Key} {e : ℕ} (hx : (k, e) ∈ O c) : e < S.echoes.length := by
  obtain ⟨⟨x, hx, -⟩, -⟩ := h.owned c k e hx
  exact (List.getElem?_eq_some_iff.mp hx).1

/-- Two entries to remove have different keys. -/
theorem Sound.echo_eq (h : Sound seed S O tr) {d : ℕ} {k : Key} {e e' : ℕ} (hx : (k, e) ∈ O c) (hx' : (k, e') ∈ O d) :
    e = e' ∧ c = d := by
  obtain ⟨⟨x, hx, hc, -, hp⟩, -⟩ := h.owned c k e hx
  obtain ⟨⟨x', hx', hd, -, hp'⟩, -⟩ := h.owned d k e' hx'
  obtain rfl : e = e' := congrArg Prod.fst (Option.some.inj (hp.symm.trans hp'))
  obtain rfl : x = x' := Option.some.inj (hx.symm.trans hx')
  exact ⟨rfl, hc.symm.trans hd⟩

/-- The counter has not come round to the key of an echo that is pending. -/
theorem Sound.key_ne (h : Sound seed S O tr) {d : ℕ} (hfew : Fewer (tr ++ [.drawn d S.echoes.length])) {k : Key} {e : ℕ}
    (hx : (k, e) ∈ O c) : k ≠ keyOf S.counter := by
  have he := h.lt_of_mem hx
  obtain ⟨⟨x, hget, -, rfl, -⟩, halive⟩ := h.owned c k e hx
  obtain ⟨a, c', y, htr, hlen⟩ := exists_split_of_draws h.draws he
  have hlt : ((y ++ [Ev.drawn d S.echoes.length]).filterMap Ev.draw?).length < 2 ^ 32 := by
    refine hfew a c' e _ ⟨[], by simp [htr]⟩ fun d' hd' => ?_
    have : Ev.removed d' e ∈ y := by simpa using hd'
    exact halive d' (by rw [htr]; simp [this])
  rw [h.key e x hget, Ne, keyOf_eq_iff, h.counter]
  simp only [List.filterMap_append, List.length_append, hlen] at hlt
  have : ([Ev.drawn d S.echoes.length].filterMap Ev.draw?).length = 1 := rfl
  omega

/-- A check draws a key: it has one more echo to remove, and no entry is overwritten. -/
theorem Sound.draw (h : Sound seed S O tr) (nonce : Bytes) (hfew : Fewer (tr ++ [.drawn c S.echoes.length])) :
    (S.draw c nonce).2 = [.drawn c S.echoes.length] ∧
      Sound seed (S.draw c nonce).1 (Function.update O c (O c ++ [(keyOf S.counter, S.echoes.length)]))
        (tr ++ [.drawn c S.echoes.length]) := by
  have hfree : S.pending (keyOf S.counter) = none := by
    cases hp : S.pending (keyOf S.counter) with
    | none => rfl
    | some p =>
      obtain ⟨d, hd⟩ := h.listed _ p.1 p.2 hp
      exact absurd rfl (h.key_ne hfew hd)
  refine ⟨by simp [Service.draw, hfree, removal], ?_⟩
  set n := S.echoes.length with hn
  set O' := Function.update O c (O c ++ [(keyOf S.counter, n)]) with hO'
  have hechoes : ∀ j : ℕ, (S.draw c nonce).1.echoes[j]? =
      if j = n then some ⟨c, keyOf S.counter, nonce, .waiting⟩ else S.echoes[j]? := getElem?_concat S.echoes _
  have hold : ∀ {j : ℕ} {x : Echo}, S.echoes[j]? = some x → (S.draw c nonce).1.echoes[j]? = some x := fun {j x} hx => by
    rw [hechoes, if_neg (List.getElem?_eq_some_iff.mp hx).1.ne, hx]
  have hself : (S.draw c nonce).1.pending (keyOf S.counter) = some (n, nonce) := Function.update_self _ _ _
  have hother : ∀ k, k ≠ keyOf S.counter → (S.draw c nonce).1.pending k = S.pending k := fun k hk =>
    Function.update_of_ne hk _ _
  have hmem : ∀ d k e, (k, e) ∈ O' d ↔ (k, e) ∈ O d ∨ d = c ∧ k = keyOf S.counter ∧ e = n := by
    intro d k e
    by_cases hd : d = c
    · subst hd
      simp [hO']
    · simp [hO', hd]
  refine ⟨?_, ?_, fun e x hx => ?_, fun d => ?_, fun d k e hx => ?_, fun k e nonce' hp => ?_, fun e x hx => ?_,
    fun d e hr => ?_, fun e x hx hf => ?_, fun e pool packet hr => ?_⟩
  · show ((S.counter + 1) &&& 0xFFFFFFFF) % 2 ^ 32 = (seed + (S.echoes ++ [_]).length) % 2 ^ 32
    have := h.counter
    rw [and_mask, List.length_append, List.length_singleton]
    omega
  · show _ = List.range (S.echoes ++ [_]).length
    rw [List.filterMap_append, h.draws, List.length_append, List.length_singleton, List.range_succ]
    rfl
  · rw [hechoes] at hx
    split at hx
    · rename_i he
      obtain rfl := Option.some.inj hx
      rw [he]
      exact keyOf_eq_iff.mpr h.counter
    · exact h.key e x hx
  · by_cases hd : d = c
    · subst hd
      rw [hO', Function.update_self]
      exact List.nodup_append.mpr ⟨h.nodup d, List.nodup_singleton _, fun a ha b hb => by
        rw [List.mem_singleton.mp hb]
        rintro rfl
        exact absurd (h.lt_of_mem ha) (lt_irrefl _)⟩
    · rw [hO', Function.update_of_ne hd]
      exact h.nodup d
  · rcases (hmem d k e).mp hx with hx | ⟨rfl, rfl, rfl⟩
    · obtain ⟨⟨x, hget, hc, hk, hp⟩, halive⟩ := h.owned d k e hx
      exact ⟨⟨x, hold hget, hc, hk, (hother k (h.key_ne hfew hx)).trans hp⟩, fun d' hr => halive d' (by simpa using hr)⟩
    · refine ⟨⟨_, by rw [hechoes, if_pos rfl], rfl, rfl, hself⟩, fun d' hr => ?_⟩
      obtain ⟨x, hget, -⟩ := h.removed d' n (by simpa using hr)
      exact absurd (List.getElem?_eq_some_iff.mp hget).1 (lt_irrefl _)
  · by_cases hk : k = keyOf S.counter
    · subst hk
      obtain ⟨he, -⟩ := Prod.mk.inj (Option.some.inj (hself.symm.trans hp))
      exact ⟨c, (hmem _ _ _).mpr (.inr ⟨rfl, rfl, he.symm⟩)⟩
    · obtain ⟨d, hd⟩ := h.listed k e nonce' ((hother k hk).symm.trans hp)
      exact ⟨d, (hmem _ _ _).mpr (.inl hd)⟩
  · rw [hechoes] at hx
    split at hx
    · rename_i he
      obtain rfl := Option.some.inj hx
      exact .inl ((hmem _ _ _).mpr (.inr ⟨rfl, rfl, he⟩))
    · exact (h.settled e x hx).imp (fun hO => (hmem _ _ _).mpr (.inl hO)) (List.mem_append_left _)
  · obtain ⟨x, hget, hc⟩ := h.removed d e (by simpa using hr)
    exact ⟨x, hold hget, hc⟩
  · rw [hechoes] at hx
    split at hx
    · obtain rfl := Option.some.inj hx
      cases hf
    · obtain ⟨pool, packet, hr⟩ := h.resolved e x hx hf
      exact ⟨pool, packet, List.mem_append_left _ hr⟩
  · obtain ⟨x, payload, hget, hp⟩ := h.accepted e pool packet (by simpa using hr)
    exact ⟨x, payload, hold hget, hp⟩

/-- A check removes its first entry. -/
theorem Sound.pop (h : Sound seed S O tr) {k : Key} {e : ℕ} {xs : List (Key × ℕ)} (hO : O c = (k, e) :: xs) :
    (S.pop c k).2 = [.removed c e] ∧ Sound seed (S.pop c k).1 (Function.update O c xs) (tr ++ [.removed c e]) := by
  have hx : (k, e) ∈ O c := by rw [hO]; exact List.mem_cons_self
  obtain ⟨⟨x, hget, hc, hk, hp⟩, halive⟩ := h.owned c k e hx
  have hnd := h.nodup c
  rw [hO, List.nodup_cons] at hnd
  -- the other entries are those of the other keys
  have hmem : ∀ d j f, (j, f) ∈ Function.update O c xs d ↔ (j, f) ∈ O d ∧ j ≠ k := by
    intro d j f
    by_cases hd : d = c
    · subst hd
      rw [Function.update_self, hO, List.mem_cons]
      constructor
      · intro hj
        refine ⟨.inr hj, ?_⟩
        rintro rfl
        obtain ⟨rfl, -⟩ := h.echo_eq hx (hO ▸ List.mem_cons_of_mem _ hj)
        exact hnd.1 hj
      · rintro ⟨hj | hj, hne⟩
        · exact absurd (congrArg Prod.fst hj) hne
        · exact hj
    · rw [Function.update_of_ne hd]
      refine ⟨fun hj => ⟨hj, ?_⟩, fun hj => hj.1⟩
      rintro rfl
      exact hd (h.echo_eq hx hj).2.symm
  refine ⟨by simp [Service.pop, hp, removal], h.counter, ?_, h.key, fun d => ?_, fun d j f hj => ?_,
    fun j f nonce hj => ?_, fun f y hy => ?_, fun d f hr => ?_, fun f y hy hf => ?_, fun f pool packet hr => ?_⟩
  · rw [List.filterMap_append, h.draws]
    exact List.append_nil _
  · by_cases hd : d = c
    · rw [hd, Function.update_self]
      exact hnd.2
    · rw [Function.update_of_ne hd]
      exact h.nodup d
  · obtain ⟨hj, hne⟩ := (hmem d j f).mp hj
    obtain ⟨⟨y, hy, hyc, hyk, hyp⟩, hyalive⟩ := h.owned d j f hj
    refine ⟨⟨y, hy, hyc, hyk, (Function.update_of_ne hne _ _).trans hyp⟩, fun d' hr => ?_⟩
    rcases List.mem_append.mp hr with hr | hr
    · exact hyalive d' hr
    · obtain ⟨-, rfl⟩ : d' = c ∧ f = e := by simpa using hr
      obtain rfl : x = y := Option.some.inj (hget.symm.trans hy)
      exact hne (hyk.symm.trans hk)
  · by_cases hjk : j = k
    · subst hjk
      cases (Function.update_self _ _ _).symm.trans hj
    · obtain ⟨d, hd⟩ := h.listed j f nonce ((Function.update_of_ne hjk _ _).symm.trans hj)
      exact ⟨d, (hmem d j f).mpr ⟨hd, hjk⟩⟩
  · rcases h.settled f y hy with hO' | hr
    · by_cases hyk : y.key = k
      · obtain ⟨rfl, hcy⟩ := h.echo_eq hx (hyk ▸ hO')
        exact .inr (by simp [hcy])
      · exact .inl ((hmem _ _ _).mpr ⟨hO', hyk⟩)
    · exact .inr (List.mem_append_left _ hr)
  · rcases List.mem_append.mp hr with hr | hr
    · exact h.removed d f hr
    · obtain ⟨rfl, rfl⟩ : d = c ∧ f = e := by simpa using hr
      exact ⟨x, hget, hc⟩
  · obtain ⟨pool, packet, hr⟩ := h.resolved f y hy hf
    exact ⟨pool, packet, List.mem_append_left _ hr⟩
  · exact h.accepted f pool packet (by simpa using hr)

theorem Sound.popAll (h : Sound seed S O tr) {xs : List (Key × ℕ)} (hO : O c = xs) :
    (S.popAll c xs).1.checks = S.checks ∧
      Sound seed (S.popAll c xs).1 (Function.update O c []) (tr ++ (S.popAll c xs).2) := by
  induction xs generalizing S O tr with
  | nil =>
    have hsame : Function.update O c [] = O := by rw [← hO, Function.update_eq_self]
    rw [hsame]
    refine ⟨rfl, ?_⟩
    show Sound seed S O (tr ++ [])
    rwa [List.append_nil]
  | cons x xs ih =>
    obtain ⟨ho, h'⟩ := h.pop hO
    obtain ⟨hchecks, h''⟩ := ih h' (Function.update_self _ _ _)
    refine ⟨hchecks, ?_⟩
    have hev : (S.popAll c (x :: xs)).2 = [.removed c x.2] ++ ((S.pop c x.1).1.popAll c xs).2 := by rw [← ho]; rfl
    rw [Function.update_idem, List.append_assoc, ← hev] at h''
    exact h''

theorem Sound.setPhase (h : Sound seed S O tr) (chk : Check) (p : Phase) : Sound seed (S.setPhase c chk p) O tr :=
  ⟨h.counter, h.draws, h.key, h.nodup, h.owned, h.listed, h.settled, h.removed, h.resolved, h.accepted⟩

/-- Waiters change, and nothing is drawn or removed. -/
theorem Sound.waiters (h : Sound seed S O tr) {S' : Service} {o : List Ev} (hcounter : S'.counter = S.counter)
    (hpending : S'.pending = S.pending) (hlength : S'.echoes.length = S.echoes.length)
    (hechoes : ∀ (e : ℕ) (x' : Echo), S'.echoes[e]? = some x' → ∃ x, S.echoes[e]? = some x ∧ x'.check = x.check ∧
      x'.key = x.key ∧ x'.nonce = x.nonce ∧
      (x'.future = .resolved → x.future = .resolved ∨ ∃ pool packet, .resolved e pool packet ∈ o))
    (hdraws : o.filterMap Ev.draw? = []) (hremoved : ∀ d e, .removed d e ∉ o)
    (haccepted : ∀ e pool packet, .resolved e pool packet ∈ o → ∃ x payload, S.echoes[e]? = some x ∧
      pool.parse packet = some (x.key.1, x.key.2, payload) ∧ x.nonce <+: payload) :
    Sound seed S' O (tr ++ o) := by
  have hold : ∀ {e : ℕ} {x : Echo}, S.echoes[e]? = some x →
      ∃ x', S'.echoes[e]? = some x' ∧ x'.check = x.check ∧ x'.key = x.key ∧ x'.nonce = x.nonce := by
    intro e x hx
    have hlt : e < S'.echoes.length := hlength ▸ (List.getElem?_eq_some_iff.mp hx).1
    obtain ⟨y, hy, hyc, hyk, hyn, -⟩ := hechoes e _ (List.getElem?_eq_getElem hlt)
    obtain rfl : x = y := Option.some.inj (hx.symm.trans hy)
    exact ⟨_, List.getElem?_eq_getElem hlt, hyc, hyk, hyn⟩
  have hrem : ∀ {d e : ℕ}, .removed d e ∈ tr ++ o → .removed d e ∈ tr := fun {d e} hr =>
    (List.mem_append.mp hr).resolve_right (hremoved d e)
  refine ⟨by rw [hcounter, hlength]; exact h.counter, by rw [List.filterMap_append, hdraws, hlength, h.draws, List.append_nil],
    fun e x' hx' => ?_, h.nodup, fun c k e hx => ?_, fun k e nonce hp => h.listed k e nonce (hpending ▸ hp), fun e x' hx' => ?_,
    fun d e hr => ?_, fun e x' hx' hf => ?_, fun e pool packet hr => ?_⟩
  · obtain ⟨x, hx, -, hk, -⟩ := hechoes e x' hx'
    exact hk.trans (h.key e x hx)
  · obtain ⟨⟨x, hx, hc, hk, hp⟩, halive⟩ := h.owned c k e hx
    obtain ⟨x', hx', hc', hk', hn'⟩ := hold hx
    exact ⟨⟨x', hx', hc'.trans hc, hk'.trans hk, by rw [hpending, hp, hn']⟩, fun d hr => halive d (hrem hr)⟩
  · obtain ⟨x, hx, hc, hk, -⟩ := hechoes e x' hx'
    rw [hc, hk]
    exact (h.settled e x hx).imp_right (List.mem_append_left _)
  · obtain ⟨x, hx, hc⟩ := h.removed d e (hrem hr)
    obtain ⟨x', hx', hc', -⟩ := hold hx
    exact ⟨x', hx', hc'.trans hc⟩
  · obtain ⟨x, hx, -, -, -, hres⟩ := hechoes e x' hx'
    rcases hres hf with hf | ⟨pool, packet, hr⟩
    · obtain ⟨pool, packet, hr⟩ := h.resolved e x hx hf
      exact ⟨pool, packet, List.mem_append_left _ hr⟩
    · exact ⟨pool, packet, List.mem_append_right _ hr⟩
  · obtain ⟨x, payload, hx, hparse, hpre⟩ := (List.mem_append.mp hr).elim (h.accepted e pool packet) (haccepted e pool packet)
    obtain ⟨x', hx', -, hk', hn'⟩ := hold hx
    exact ⟨x', payload, hx', hk'.symm ▸ hparse, hn'.symm ▸ hpre⟩

theorem Sound.sent (h : Sound seed S O tr) (e : ℕ) (pool : Pool) (packet : Bytes) :
    Sound seed S O (tr ++ [.sent c e pool packet]) :=
  h.waiters rfl rfl rfl (fun _ x hx => ⟨x, hx, rfl, rfl, rfl, .inl⟩) rfl (by simp) (by simp)

theorem Sound.setFuture (h : Sound seed S O tr) {e : ℕ} {f : Future} {o : List Ev}
    (hf : f = .resolved → ∃ pool packet, .resolved e pool packet ∈ o) (hdraws : o.filterMap Ev.draw? = [])
    (hremoved : ∀ d e, .removed d e ∉ o)
    (haccepted : ∀ e pool packet, .resolved e pool packet ∈ o → ∃ x payload, S.echoes[e]? = some x ∧
      pool.parse packet = some (x.key.1, x.key.2, payload) ∧ x.nonce <+: payload) :
    Sound seed (S.setFuture e f) O (tr ++ o) := by
  refine h.waiters rfl rfl (List.length_modify ..) (fun j x' hx' => ?_) hdraws hremoved haccepted
  rw [Service.setFuture, List.getElem?_modify, Option.map_eq_map, Option.map_eq_some_iff] at hx'
  obtain ⟨x, hx, rfl⟩ := hx'
  refine ⟨x, hx, ?_⟩
  by_cases hj : e = j
  · subst hj
    rw [if_pos rfl]
    exact ⟨rfl, rfl, rfl, fun hr => .inr (hf hr)⟩
  · rw [if_neg hj]
    exact ⟨rfl, rfl, rfl, .inl⟩

end Map

/-! ### Segments -/

/-- The check `c` has run to its next `await` or to its end. -/
def Ran (seed : ℕ) (S : Service) (O : ℕ → List (Key × ℕ)) (tr : List Ev) (c : ℕ) (chk : Check)
    (r : Service × List Ev) : Prop :=
  ∃ p, r.1.checks = S.checks.set c { chk with phase := p } ∧ Sound seed r.1 (Function.update O c p.own) (tr ++ r.2)

section Segments

variable {seed : ℕ} {S : Service} {O : ℕ → List (Key × ℕ)} {tr : List Ev} {c : ℕ} {chk : Check} {nonce : Bytes}
  {sent : Except Exn Unit} {left : ℕ}

theorem Sound.attempt (h : Sound seed S O tr) (hO : O c = []) (hfew : Fewer (tr ++ (S.attempt c chk left nonce sent).2)) :
    Ran seed S O tr c chk (S.attempt c chk left nonce sent) := by
  have hpre : [Ev.drawn c S.echoes.length] <+: (S.attempt c chk left nonce sent).2 := by
    cases sent <;> exact ⟨_, rfl⟩
  obtain ⟨ho, hd⟩ := h.draw nonce (hfew.of_prefix ((List.prefix_append_right_inj tr).mpr hpre))
  rw [hO, List.nil_append] at hd
  cases sent with
  | ok u =>
    refine ⟨.awaiting left (keyOf S.counter) S.echoes.length, rfl, ?_⟩
    have hev : (S.attempt c chk left nonce (.ok u)).2 = [.drawn c S.echoes.length] ++
        [.sent c S.echoes.length chk.pool (chk.pool.build (keyOf S.counter) nonce)] := by rw [← ho]; rfl
    rw [hev, ← List.append_assoc]
    exact (hd.sent _ _ _).setPhase _ _
  | error e =>
    refine ⟨.raised (some e), rfl, ?_⟩
    obtain ⟨ho', hp⟩ := hd.pop (Function.update_self _ _ _)
    have hev : (S.attempt c chk left nonce (.error e)).2 =
        [.drawn c S.echoes.length] ++ [.removed c S.echoes.length] := by rw [← ho, ← ho']; rfl
    rw [hev, ← List.append_assoc]
    rw [Function.update_idem] at hp
    exact hp.setPhase _ _

theorem Sound.sendNext (h : Sound seed S O tr) {xs : List (Key × ℕ)} (hO : O c = xs)
    (hfew : Fewer (tr ++ (S.sendNext c chk left xs nonce sent).2)) :
    Ran seed S O tr c chk (S.sendNext c chk left xs nonce sent) := by
  have hpre : [Ev.drawn c S.echoes.length] <+: (S.sendNext c chk left xs nonce sent).2 := by
    unfold Service.sendNext
    cases sent with
    | ok u => exact ⟨_, rfl⟩
    | error e =>
      dsimp only
      split <;> exact ⟨_, rfl⟩
  obtain ⟨ho, hd⟩ := h.draw nonce (hfew.of_prefix ((List.prefix_append_right_inj tr).mpr hpre))
  rw [hO] at hd
  cases sent with
  | ok u =>
    refine ⟨.afterSend left _, rfl, ?_⟩
    have hev : (S.sendNext c chk left xs nonce (.ok u)).2 = [.drawn c S.echoes.length] ++
        [.sent c S.echoes.length chk.pool (chk.pool.build (keyOf S.counter) nonce)] := by rw [← ho]; rfl
    rw [hev, ← List.append_assoc, Phase.own_afterSend]
    exact (hd.sent _ _ _).setPhase _ _
  | error e =>
    simp only [Service.sendNext]
    split
    · -- a lost packet: the check goes on
      refine ⟨.afterSend left _, rfl, ?_⟩
      rw [ho, Phase.own_afterSend]
      exact hd.setPhase _ _
    · obtain ⟨hchecks, hp⟩ := hd.popAll (Function.update_self _ _ _)
      refine ⟨.raised (some e), congrArg (List.set · c _) hchecks, ?_⟩
      rw [ho, ← List.append_assoc]
      rw [Function.update_idem] at hp
      exact hp.setPhase _ _

/-- **One segment of a check.** -/
theorem Sound.resume (h : Sound seed S O tr) {p : Phase} {wake : Wake} {r : Service × List Ev} (hO : O c = p.own)
    (hr : S.resume c chk nonce sent p wake = some r) (hfew : Fewer (tr ++ r.2)) : Ran seed S O tr c chk r := by
  -- the check removes all its entries and ends
  have hend : ∀ {xs : List (Key × ℕ)} {q : Phase}, O c = xs → q.own = [] →
      Ran seed S O tr c chk ((S.popAll c xs).1.setPhase c chk q, (S.popAll c xs).2) := by
    intro xs q hO hq
    obtain ⟨hchecks, hp⟩ := h.popAll hO
    exact ⟨q, congrArg (List.set · c _) hchecks, hq ▸ hp.setPhase _ _⟩
  cases p with
  | awaiting left key echo =>
    obtain ⟨ho, hp⟩ := h.pop hO
    have hone : ∀ {q : Phase}, q.own = [] → Ran seed S O tr c chk ((S.pop c key).1.setPhase c chk q, (S.pop c key).2) := by
      intro q hq
      refine ⟨q, rfl, ?_⟩
      rw [ho, hq]
      exact hp.setPhase _ _
    cases wake with
    | done =>
      simp only [Service.resume] at hr
      split at hr
      · exact Option.some.inj hr ▸ hone rfl
      · cases hr
    | timeout =>
      cases left with
      | zero => exact Option.some.inj hr ▸ hone rfl
      | succ left =>
        -- the next attempt
        obtain rfl : (((S.pop c key).1.attempt c chk left nonce sent).1,
            (S.pop c key).2 ++ ((S.pop c key).1.attempt c chk left nonce sent).2) = r := Option.some.inj hr
        rw [ho, ← List.append_assoc] at hfew
        obtain ⟨q, hchecks, hq⟩ := hp.attempt (Function.update_self _ _ _) hfew
        rw [Function.update_idem, List.append_assoc] at hq
        rw [ho]
        exact ⟨q, hchecks, hq⟩
    | cancelled => exact Option.some.inj hr ▸ hone rfl
  | sleeping left xs =>
    cases wake with
    | done => exact Option.some.inj hr ▸ h.sendNext hO (Option.some.inj hr ▸ hfew)
    | timeout => cases hr
    | cancelled => exact Option.some.inj hr ▸ hend hO rfl
  | collecting xs =>
    cases wake with
    | done => exact Option.some.inj hr ▸ hend hO rfl
    | timeout => cases hr
    | cancelled => exact Option.some.inj hr ▸ hend hO rfl
  | starting => cases hr
  | returned s => cases hr
  | raised e => cases hr

/-- A packet on a socket resolves a waiter only with the waiter's key and nonce. -/
theorem Sound.onReadable (h : Sound seed S O tr) (pool : Pool) (packet : Bytes) :
    Sound seed (S.onReadable pool packet).1 O (tr ++ (S.onReadable pool packet).2) := by
  have hsame : Sound seed S O (tr ++ []) := (List.append_nil tr).symm ▸ h
  unfold Service.onReadable
  split
  · exact hsame
  · rename_i ident seq payload hparse
    split
    · exact hsame
    · rename_i e nonce hpending
      split
      · rename_i hmatch
        obtain ⟨hnonce, -⟩ := Bool.and_eq_true_iff.mp hmatch
        obtain ⟨c, hown⟩ := h.listed _ e nonce hpending
        obtain ⟨⟨x, hx, -, hk, hp⟩, -⟩ := h.owned c _ e hown
        obtain rfl : nonce = x.nonce := congrArg Prod.snd (Option.some.inj (hpending.symm.trans hp))
        refine h.setFuture (fun _ => ⟨pool, packet, List.mem_singleton_self _⟩) rfl (by simp) fun e' pool' packet' hr => ?_
        obtain ⟨rfl, rfl, rfl⟩ : e' = e ∧ pool' = pool ∧ packet' = packet := by simpa using hr
        exact ⟨x, payload, hx, hk ▸ hparse, List.isPrefixOf_iff_prefix.mp hnonce⟩
      · exact hsame

end Segments

/-! ### Runs -/

/-- The echoes that a check has to remove. -/
def Service.own (S : Service) (c : ℕ) : List (Key × ℕ) :=
  match S.checks[c]? with
  | some chk => chk.phase.own
  | none => []

section Runs

variable {seed : ℕ} {S S' : Service} {tr o : List Ev} {l : Label}

theorem Ran.own_eq {O : ℕ → List (Key × ℕ)} {c : ℕ} {chk : Check} {r : Service × List Ev} (h : Ran seed S O tr c chk r)
    (hO : O = S.own) (hc : c < S.checks.length) : Sound seed r.1 r.1.own (tr ++ r.2) := by
  obtain ⟨p, hchecks, hS⟩ := h
  have hown : r.1.own = Function.update O c p.own := by
    funext d
    unfold Service.own
    rw [hchecks, List.getElem?_set]
    by_cases hd : c = d
    · subst hd
      simp [hc]
    · rw [if_neg hd, Function.update_of_ne (Ne.symm hd), hO]
      rfl
  rwa [hown]

theorem sound_init (seed : ℕ) : Sound seed (.init seed) (Service.init seed).own [] := by
  refine ⟨rfl, rfl, ?_, ?_, ?_, ?_, ?_, ?_, ?_, ?_⟩ <;> simp [Service.init, Service.own]

/-- A check that is not in the list yet has nothing to remove. -/
theorem Sound.newCheck (h : Sound seed S S.own tr) (chk : Check) (hown : chk.phase.own = []) :
    Sound seed { S with checks := S.checks ++ [chk] } S.own tr ∧
      ({ S with checks := S.checks ++ [chk] } : Service).own = S.own := by
  refine ⟨⟨h.counter, h.draws, h.key, h.nodup, h.owned, h.listed, h.settled, h.removed, h.resolved, h.accepted⟩, ?_⟩
  funext d
  simp only [Service.own, getElem?_concat]
  by_cases hd : d = S.checks.length
  · simp [hd, hown]
  · rw [if_neg hd]

theorem checks_onReadable (S : Service) (pool : Pool) (packet : Bytes) : (S.onReadable pool packet).1.checks = S.checks := by
  unfold Service.onReadable
  split
  · rfl
  · split
    · rfl
    · split <;> rfl

theorem Sound.step (h : Sound seed S S.own tr) (hs : S.step l = some (S', o)) (hfew : Fewer (tr ++ o)) :
    Sound seed S' S'.own (tr ++ o) := by
  cases l with
  | start pool sendPings minPings nonce sent =>
    set chk : Check := ⟨pool, max 1 sendPings, max 1 (min minPings (max 1 sendPings)), .starting⟩ with hchk
    obtain ⟨h₁, hown⟩ := h.newCheck chk rfl
    have hO : S.own S.checks.length = [] := by simp [Service.own]
    have hran : Ran seed { S with checks := S.checks ++ [chk] } S.own tr S.checks.length chk (S', o) := by
      simp only [Service.step, ← hchk] at hs
      split at hs
      · have hr := Option.some.inj hs
        exact hr ▸ h₁.attempt hO (hr ▸ hfew)
      · split at hs
        · rw [← Option.some.inj hs]
          refine ⟨.raised (some .overflow), rfl, ?_⟩
          have hsame : Function.update S.own S.checks.length [] = S.own := by rw [← hO, Function.update_eq_self]
          rw [show (Phase.raised (some .overflow)).own = [] from rfl, hsame, List.append_nil]
          exact h₁.setPhase _ _
        · have hr := Option.some.inj hs
          exact hr ▸ h₁.sendNext hO (hr ▸ hfew)
    exact hran.own_eq hown.symm (by simp)
  | giveUp c =>
    simp only [Service.step] at hs
    split at hs
    · split at hs
      · obtain ⟨rfl, rfl⟩ := Prod.mk.inj (Option.some.inj hs)
        exact h.setFuture (by rintro ⟨⟩) rfl (by simp) (by simp)
      · cases hs
    · cases hs
  | resume c wake nonce sent =>
    simp only [Service.step] at hs
    split at hs
    · rename_i chk hc
      have hO : S.own c = chk.phase.own := by simp [Service.own, hc]
      exact (h.resume hO hs hfew).own_eq rfl (List.getElem?_eq_some_iff.mp hc).1
    · cases hs
  | readable pool packet =>
    have hr : S.onReadable pool packet = (S', o) := Option.some.inj hs
    have hS := h.onReadable pool packet
    have hchecks := checks_onReadable S pool packet
    rw [hr] at hS hchecks
    have hown : S'.own = S.own := by
      unfold Service.own
      rw [hchecks]
    rwa [hown]

theorem sound_exec {ls : List Label} (h : exec Service.step (.init seed) ls = some (S, tr)) (hfew : Fewer tr) :
    Sound seed S S.own tr := by
  -- along the run, the history so far is within the bound too
  refine exec_inv (P := fun _ _ => True) (fun S tr => Fewer tr → Sound seed S S.own tr) (fun S tr l S' o hS _ hs hfew => ?_)
    (fun _ => sound_init seed) (along_of_forall _ _ fun _ _ _ => trivial) h hfew
  exact (hS (hfew.of_prefix (List.prefix_append _ _))).step hs hfew

end Runs

/-- The echo is pending: its key was drawn, and its entry has not been removed. -/
def Outstanding (tr : List Ev) (e : ℕ) : Prop := e ∈ tr.filterMap Ev.draw? ∧ ∀ d, .removed d e ∉ tr

/-- **Replies reach their own waiters**, over any interleaving in which the counter does not come round while an echo is
pending.  Pending echoes have different keys, and the map holds exactly them; a waiter is resolved only by a packet that
the parser of the socket's family reads with its key, and whose payload starts with its nonce; a check that has ended has
removed its own entries, and no check removes another's; and without running checks the map is empty. -/
theorem demux_sound (seed : ℕ) (ls : List Label) (S : Service) (tr : List Ev)
    (h : exec Service.step (.init seed) ls = some (S, tr)) (hfew : Fewer tr) :
    (∀ (e e' : ℕ) (x x' : Echo), S.echoes[e]? = some x → S.echoes[e']? = some x' → Outstanding tr e → Outstanding tr e' →
      x.key = x'.key → e = e') ∧
    (∀ (k : Key) (e : ℕ) (nonce : Bytes), S.pending k = some (e, nonce) ↔
      Outstanding tr e ∧ ∃ x, S.echoes[e]? = some x ∧ x.key = k ∧ x.nonce = nonce) ∧
    (∀ (e : ℕ) (x : Echo), S.echoes[e]? = some x → x.future = .resolved → ∃ pool packet, .resolved e pool packet ∈ tr) ∧
    (∀ (e : ℕ) (pool : Pool) (packet : Bytes), .resolved e pool packet ∈ tr → ∃ x payload, S.echoes[e]? = some x ∧
      pool.parse packet = some (x.key.1, x.key.2, payload) ∧ x.nonce <+: payload) ∧
    (∀ (c : ℕ) (chk : Check), S.checks[c]? = some chk → chk.phase.over = true → ∀ (e : ℕ) (x : Echo),
      S.echoes[e]? = some x → x.check = c → .removed c e ∈ tr ∧ ∀ nonce, S.pending x.key ≠ some (e, nonce)) ∧
    (∀ c e, .removed c e ∈ tr → ∃ x, S.echoes[e]? = some x ∧ x.check = c) ∧
    ((∀ chk ∈ S.checks, chk.phase.over = true) → ∀ k, S.pending k = none) := by
  have hS := sound_exec h hfew
  have hnone : ∀ {p : Phase}, p.over = true → p.own = [] := fun {p} hp => by
    cases p <;> first | rfl | cases hp
  -- an echo is outstanding if and only if its check has still to remove it
  have howned : ∀ {e : ℕ} {x : Echo}, S.echoes[e]? = some x → (Outstanding tr e ↔ (x.key, e) ∈ S.own x.check) := by
    intro e x hx
    constructor
    · exact fun ho => (hS.settled e x hx).resolve_right (ho.2 _)
    · intro ho
      exact ⟨by rw [hS.draws]; exact List.mem_range.mpr (hS.lt_of_mem ho), (hS.owned _ _ e ho).2⟩
  have hpending : ∀ (k : Key) (e : ℕ) (nonce : Bytes), S.pending k = some (e, nonce) ↔
      Outstanding tr e ∧ ∃ x, S.echoes[e]? = some x ∧ x.key = k ∧ x.nonce = nonce := by
    intro k e nonce
    constructor
    · intro hp
      obtain ⟨c, hc⟩ := hS.listed k e nonce hp
      obtain ⟨⟨x, hx, rfl, rfl, hp'⟩, -⟩ := hS.owned c k e hc
      have hn : x.nonce = nonce := congrArg Prod.snd (Option.some.inj (hp'.symm.trans hp))
      exact ⟨(howned hx).mpr hc, x, hx, rfl, hn⟩
    · rintro ⟨ho, x, hx, rfl, rfl⟩
      obtain ⟨⟨y, hy, -, -, hp⟩, -⟩ := hS.owned _ _ e ((howned hx).mp ho)
      obtain rfl : x = y := Option.some.inj (hx.symm.trans hy)
      exact hp
  refine ⟨fun e e' x x' hx hx' ho ho' hk => ?_, hpending, hS.resolved, hS.accepted, fun c chk hc hover e x hx hcx => ?_,
    hS.removed, fun hall k => ?_⟩
  · have hown' := (howned hx').mp ho'
    rw [← hk] at hown'
    exact (hS.echo_eq ((howned hx).mp ho) hown').1
  · have hown : S.own x.check = [] := by simp [Service.own, hcx, hc, hnone hover]
    have hr : .removed c e ∈ tr := hcx ▸ (hS.settled e x hx).resolve_left (by simp [hown])
    exact ⟨hr, fun nonce hp => ((hpending _ e nonce).mp hp).1.2 c hr⟩
  · cases hp : S.pending k with
    | none => rfl
    | some p =>
      obtain ⟨c, hc⟩ := hS.listed k p.1 p.2 hp
      unfold Service.own at hc
      split at hc
      · rename_i chk hchk
        simp [hnone (hall chk (List.mem_of_getElem? hchk))] at hc
      · simp at hc

/-- A run that draws fewer keys than there are stays within the bound. -/
theorem fewer_of_length {tr : List Ev} (h : (tr.filterMap Ev.draw?).length < 2 ^ 32) : Fewer tr := by
  intro x c e y hp _
  have hsub : y.Sublist tr := ((List.sublist_cons_self _ y).trans (List.sublist_append_right x _)).trans hp.sublist
  exact (hsub.filterMap Ev.draw?).length_le.trans_lt h

/-- A probe whose first echo is lost and whose second is answered. -/
def answeredProbe : List Label :=
  [.start .v6 1 1 [7] (.ok ()), .giveUp 0, .resume 0 .timeout [8] (.ok ()), .readable .v6 [129, 0, 0, 0, 0, 0, 0, 6, 8],
    .resume 0 .done [] (.ok ())]

theorem demux_answeredProbe :
    ∃ S tr, exec Service.step (.init 5) answeredProbe = some (S, tr) ∧ S.checks.map (·.phase) = [.returned .ok] ∧
      ∀ k, S.pending k = none := by
  obtain ⟨⟨S, tr⟩, h⟩ := Option.isSome_iff_exists.mp
    (show (exec Service.step (.init 5) answeredProbe).isSome by decide +kernel)
  have hrun : (exec Service.step (.init 5) answeredProbe).map (fun r => (r.1.checks.map (·.phase), r.2.filterMap Ev.draw?)) =
      some ([.returned .ok], [0, 1]) := by decide +kernel
  rw [h] at hrun
  obtain ⟨hphases, hdraws⟩ : S.checks.map (·.phase) = [.returned .ok] ∧ tr.filterMap Ev.draw? = [0, 1] :=
    Prod.mk.inj (Option.some.inj hrun)
  have hfew : Fewer tr := fewer_of_length (by rw [hdraws]; decide)
  obtain ⟨-, -, -, -, -, -, hempty⟩ := demux_sound 5 answeredProbe S tr h hfew
  refine ⟨S, tr, h, hphases, hempty fun chk hc => ?_⟩
  have hphase : chk.phase ∈ S.checks.map (·.phase) := List.mem_map_of_mem hc
  rw [hphases, List.mem_singleton] at hphase
  rw [hphase]
  rfl

end Psysmon.Ping
