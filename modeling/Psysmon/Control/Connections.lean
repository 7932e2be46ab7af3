import Psysmon.Lib.Bytes
import Psysmon.Lib.Run
import Psysmon.Control.Server

/-!
# Psysmon.Control.Connections — the connections of the control channel (`control/server.py`)

`_handle` runs once for each connection: it turns the connection away if 32 are open, reads up to the first newline,
answers and closes.  It suspends where it reads and where it writes, so connections interleave with each other and with
the scheduler; what it does between two suspensions is one step here.  Bytes come in chunks as the network cuts them.

* `readUntil`: `StreamReader.readuntil` on the bytes that have come.
* `connection_slots`: `_active` counts the open connections, and a new one is turned away exactly if 32 are open.
* `one_request_per_connection`: however the bytes are cut, a connection makes one request, its first line, if that is
  within the limit, and none otherwise.
-/

namespace Psysmon.Control

open Lib

/-- `_MAX_LINE`. -/
def maxLine : ℕ := 65536

/-- `_MAX_CONNS`. -/
def maxConns : ℕ := 32

/-- What `readuntil(b"\n")` makes of the bytes in the buffer. -/
inductive Frame
  /-- It waits for more. -/
  | more
  /-- `LimitOverrunError`. -/
  | overrun
  | line (l : Bytes)
  deriving DecidableEq

def readUntil (buf : Bytes) : Frame :=
  if 0x0a ∈ buf then
    let body := buf.takeWhile (· ≠ 0x0a)
    if body.length > maxLine then .overrun else .line (body ++ [0x0a])
  else if buf.length > maxLine then .overrun
  else .more

/-- Where `_handle` is suspended. -/
inductive Conn
  | reading (buf : Bytes)
  /-- The reply is on its way. -/
  | writing
  /-- Turned away, with the reply on its way. -/
  | busy
  | over
  deriving DecidableEq

/-- The connection has a slot. -/
def Conn.isOpen : Conn → Bool
  | .reading _ | .writing => true
  | .busy | .over => false

/-- The server with its connections, in the order in which they came. -/
structure Endpoint where
  srv : Server
  conns : List Conn
  /-- `_active`. -/
  active : ℕ

inductive ConnLabel
  | connect
  /-- Bytes come in on the connection `i`. -/
  | receive (i : ℕ) (chunk : Bytes) (wall : ℚ)
  /-- The client closes its side, the read deadline passes, or the socket fails. -/
  | abandon (i : ℕ)
  /-- The reply is flushed, or its deadline passes. -/
  | drained (i : ℕ)
  /-- `stop` cancels the connection. -/
  | cancel (i : ℕ)
  /-- A segment of the scheduler. -/
  | segment (a : Label)

inductive ConnEvent
  | received (i : ℕ) (chunk : Bytes)
  /-- A line is parsed and dispatched. -/
  | request (i : ℕ) (line : Bytes)
  | reply (i : ℕ) (r : Record)

namespace Endpoint

/-- The connection `i` goes on at `c`. -/
def goTo (E : Endpoint) (i : ℕ) (c : Conn) : Endpoint := { E with conns := E.conns.set i c }

/-- The `finally` of `_handle`. -/
def finish (E : Endpoint) (i : ℕ) : Endpoint := { E with conns := E.conns.set i .over, active := E.active - 1 }

variable (version : Text) (loads : Bytes → Option Json)

/-- `_read_request` goes on with the buffer `buf`. -/
def onBytes (E : Endpoint) (i : ℕ) (buf : Bytes) (wall : ℚ) : Endpoint × List ConnEvent :=
  match readUntil buf with
  | .more => (E.goTo i (.reading buf), [])
  | .overrun => (E.goTo i .writing, [.reply i (failure "bad_request")])
  | .line l =>
    match readRequest version loads E.srv l wall with
    | .ok out => ({ E.goTo i .writing with srv := out.1 }, [.request i l, .reply i out.2])
    -- the exception is logged
    | .error _ => (E.finish i, [.request i l])

def step (E : Endpoint) : ConnLabel → Option (Endpoint × List ConnEvent)
  | .connect =>
    if E.active ≥ maxConns then
      some ({ E with conns := E.conns ++ [.busy] }, [.reply E.conns.length (failure "busy")])
    else some ({ E with conns := E.conns ++ [.reading []], active := E.active + 1 }, [])
  | .receive i chunk wall =>
    match E.conns[i]? with
    | some (.reading buf) =>
      let out := E.onBytes version loads i (buf ++ chunk) wall
      some (out.1, .received i chunk :: out.2)
    | _ => none
  | .abandon i =>
    match E.conns[i]? with
    | some (.reading _) => some (E.goTo i .writing, [.reply i (failure "bad_request")])
    | _ => none
  | .drained i =>
    match E.conns[i]? with
    | some .writing => some (E.finish i, [])
    | some .busy => some (E.goTo i .over, [])
    | _ => none
  | .cancel i =>
    match E.conns[i]? with
    | some (.reading _) | some .writing => some (E.finish i, [])
    | _ => none
  | .segment a => (E.srv.sched.step a).map fun q => ({ E with srv := { E.srv with sched := q.1 } }, [])

/-- The server when it starts to listen. -/
def init (srv : Server) : Endpoint := ⟨srv, [], 0⟩

end Endpoint

/-! ### One step -/

/-- All that a step can do: a connection comes, or one goes on, or the scheduler does. -/
inductive Moved (E : Endpoint) : Endpoint → List ConnEvent → Prop
  | turnedAway (h : maxConns ≤ E.active) :
    Moved E { E with conns := E.conns ++ [.busy] } [.reply E.conns.length (failure "busy")]
  | admitted (h : E.active < maxConns) :
    Moved E { E with conns := E.conns ++ [.reading []], active := E.active + 1 } []
  | more {i : ℕ} {buf chunk : Bytes} (hi : E.conns[i]? = some (.reading buf)) (hf : readUntil (buf ++ chunk) = .more) :
    Moved E (E.goTo i (.reading (buf ++ chunk))) [.received i chunk]
  | overrun {i : ℕ} {buf chunk : Bytes} (hi : E.conns[i]? = some (.reading buf))
      (hf : readUntil (buf ++ chunk) = .overrun) :
    Moved E (E.goTo i .writing) [.received i chunk, .reply i (failure "bad_request")]
  | answered {i : ℕ} {buf chunk l : Bytes} {srv : Server} {r : Record} (hi : E.conns[i]? = some (.reading buf))
      (hf : readUntil (buf ++ chunk) = .line l) :
    Moved E { E.goTo i .writing with srv := srv } [.received i chunk, .request i l, .reply i r]
  | raised {i : ℕ} {buf chunk l : Bytes} (hi : E.conns[i]? = some (.reading buf))
      (hf : readUntil (buf ++ chunk) = .line l) :
    Moved E (E.finish i) [.received i chunk, .request i l]
  | abandoned {i : ℕ} {buf : Bytes} (hi : E.conns[i]? = some (.reading buf)) :
    Moved E (E.goTo i .writing) [.reply i (failure "bad_request")]
  | closed {i : ℕ} {c : Conn} (hi : E.conns[i]? = some c) (hc : c.isOpen = true) : Moved E (E.finish i) []
  | dismissed {i : ℕ} (hi : E.conns[i]? = some .busy) : Moved E (E.goTo i .over) []
  | segment {S : Sched} : Moved E { E with srv := { E.srv with sched := S } } []

variable {version : Text} {loads : Bytes → Option Json} {E E' : Endpoint} {a : ConnLabel} {tr o : List ConnEvent}

theorem moved (hs : E.step version loads a = some (E', o)) : Moved E E' o := by
  cases a with
  | connect =>
    simp only [Endpoint.step] at hs
    split at hs <;> cases hs
    · rename_i h
      exact .turnedAway h
    · rename_i h
      exact .admitted (not_le.mp h)
  | receive i chunk wall =>
    simp only [Endpoint.step] at hs
    split at hs
    · rename_i buf hi
      cases hs
      unfold Endpoint.onBytes
      split
      · rename_i hf
        exact .more hi hf
      · rename_i hf
        exact .overrun hi hf
      · rename_i l hf
        split
        · exact .answered hi hf
        · exact .raised hi hf
    · cases hs
  | abandon i =>
    simp only [Endpoint.step] at hs
    split at hs <;> cases hs
    rename_i hi
    exact .abandoned hi
  | drained i =>
    simp only [Endpoint.step] at hs
    split at hs <;> cases hs <;> rename_i hi
    · exact .closed hi rfl
    · exact .dismissed hi
  | cancel i =>
    simp only [Endpoint.step] at hs
    split at hs <;> cases hs <;> rename_i hi
    · exact .closed hi rfl
    · exact .closed hi rfl
  | segment a =>
    obtain ⟨q, -, heq⟩ := Option.map_eq_some_iff.mp hs
    cases heq
    exact .segment

/-! ### Slots -/

/-- `_active` counts the open connections. -/
structure SlotsInv (E : Endpoint) : Prop where
  active_eq : E.active = E.conns.countP Conn.isOpen
  active_le : E.active ≤ maxConns

theorem countP_set_isOpen {l : List Conn} {i : ℕ} {c : Conn} (hi : l[i]? = some c) (c' : Conn) :
    (l.set i c').countP Conn.isOpen + (if c.isOpen then 1 else 0) =
      l.countP Conn.isOpen + if c'.isOpen then 1 else 0 := by
  obtain ⟨h, rfl⟩ := List.getElem?_eq_some_iff.mp hi
  rw [List.countP_set h]
  split
  · rename_i hopen
    have hpos : 0 < l.countP Conn.isOpen := List.countP_pos_iff.mpr ⟨_, List.getElem_mem h, hopen⟩
    omega
  · omega

theorem SlotsInv.moved (h : SlotsInv E) (hm : Moved E E' o) : SlotsInv E' := by
  obtain ⟨heq, hle⟩ := h
  -- a connection that keeps its slot, and one that gives it back
  have hkeep {i : ℕ} {c c' : Conn} (hi : E.conns[i]? = some c) (hc : c'.isOpen = c.isOpen) :
      E.active = (E.conns.set i c').countP Conn.isOpen := by
    have := countP_set_isOpen hi c'
    rw [hc] at this
    omega
  have hfree {i : ℕ} {c : Conn} (hi : E.conns[i]? = some c) (hc : c.isOpen = true) :
      E.active - 1 = (E.conns.set i .over).countP Conn.isOpen := by
    have := countP_set_isOpen hi .over
    rw [hc, if_pos rfl, show Conn.over.isOpen = false from rfl, if_neg Bool.false_ne_true] at this
    omega
  cases hm with
  | turnedAway => exact ⟨by rw [List.countP_append]; exact heq, hle⟩
  | admitted hlt =>
    refine ⟨?_, hlt⟩
    rw [List.countP_append, heq]
    rfl
  | more hi => exact ⟨hkeep hi rfl, hle⟩
  | overrun hi => exact ⟨hkeep hi rfl, hle⟩
  | answered hi => exact ⟨hkeep hi rfl, hle⟩
  | raised hi => exact ⟨hfree hi rfl, (Nat.sub_le ..).trans hle⟩
  | abandoned hi => exact ⟨hkeep hi rfl, hle⟩
  | closed hi hc => exact ⟨hfree hi hc, (Nat.sub_le ..).trans hle⟩
  | dismissed hi => exact ⟨hkeep hi rfl, hle⟩
  | segment => exact ⟨heq, hle⟩

/-- **Slots do not leak.**  After any run, `_active` is the number of open connections, at most 32; and the next
connection is turned away with `busy` exactly if that many are open. -/
theorem connection_slots {srv : Server} {as : List ConnLabel}
    (he : exec (Endpoint.step version loads) (.init srv) as = some (E, tr)) :
    E.active = E.conns.countP Conn.isOpen ∧ E.conns.countP Conn.isOpen ≤ maxConns ∧
      ∃ E' o, E.step version loads .connect = some (E', o) ∧
        if E.conns.countP Conn.isOpen = maxConns then
          E'.conns = E.conns ++ [.busy] ∧ E'.active = E.active ∧ o = [.reply E.conns.length (failure "busy")]
        else E'.conns = E.conns ++ [.reading []] ∧ E'.active = E.active + 1 ∧ o = [] := by
  obtain ⟨heq, hle⟩ : SlotsInv E := exec_inv_state (P := fun _ _ => True) SlotsInv
    (fun _ _ _ _ h _ hs => h.moved (Control.moved hs)) ⟨rfl, Nat.zero_le _⟩
    (along_of_forall as _ fun _ _ _ => trivial) he
  refine ⟨heq, heq ▸ hle, ?_⟩
  rw [← heq]
  by_cases hfull : E.active = maxConns
  · exact ⟨_, _, if_pos (le_of_eq hfull.symm), by rw [if_pos hfull]; exact ⟨rfl, rfl, rfl⟩⟩
  · exact ⟨_, _, if_neg (by omega), by rw [if_neg hfull]; exact ⟨rfl, rfl, rfl⟩⟩

/-- A server without a token. -/
def quietServer : Server := ⟨none, Sched.init {} gatewayForest (fun _ => 0) 0 true, false⟩

/-- Clients that connect and send nothing: the thirty-third is turned away. -/
theorem connection_slots_full : ∃ (E E' : Endpoint) (tr o : List ConnEvent),
    exec (Endpoint.step [] fun _ => none) (.init quietServer) (List.replicate 32 .connect) = some (E, tr) ∧
    E.active = 32 ∧ E.step [] (fun _ => none) .connect = some (E', o) ∧ o = [.reply E.conns.length (failure "busy")] := by
  have hrun : (exec (Endpoint.step [] fun _ => none) (.init quietServer) (List.replicate 32 .connect)).map (fun q =>
      q.1.active) = some 32 := by decide
  obtain ⟨⟨E, tr⟩, he, hactive⟩ := Option.map_eq_some_iff.mp hrun
  have hactive : E.active = 32 := hactive
  obtain ⟨heq, -, E', o, hs, hnext⟩ := connection_slots he
  rw [← heq, hactive, if_pos (show 32 = maxConns from rfl)] at hnext
  exact ⟨E, E', tr, o, he, hactive, hs, hnext.2.2⟩

/-! ### Requests -/

/-- The connection that an event is about. -/
def ConnEvent.conn : ConnEvent → ℕ
  | .received i _ | .request i _ | .reply i _ => i

/-- The bytes that have come in on `i`. -/
def received (i : ℕ) (tr : List ConnEvent) : Bytes :=
  tr.flatMap fun
    | .received j chunk => if j = i then chunk else []
    | _ => []

/-- The lines that `i` has had dispatched. -/
def requests (i : ℕ) (tr : List ConnEvent) : List Bytes :=
  tr.flatMap fun
    | .request j l => if j = i then [l] else []
    | _ => []

/-- The replies to `i`. -/
def replies (i : ℕ) (tr : List ConnEvent) : List Record :=
  tr.flatMap fun
    | .reply j r => if j = i then [r] else []
    | _ => []

theorem received_append (i : ℕ) (tr o : List ConnEvent) : received i (tr ++ o) = received i tr ++ received i o :=
  List.flatMap_append

theorem requests_append (i : ℕ) (tr o : List ConnEvent) : requests i (tr ++ o) = requests i tr ++ requests i o :=
  List.flatMap_append

theorem replies_append (i : ℕ) (tr o : List ConnEvent) : replies i (tr ++ o) = replies i tr ++ replies i o :=
  List.flatMap_append

/-- The line that the frame is, if it is one. -/
def Frame.lines : Frame → List Bytes
  | .line l => [l]
  | _ => []

/-- What has become of a connection, by where it is. -/
def Story (i : ℕ) (tr : List ConnEvent) : Option Conn → Prop
  | none => received i tr = [] ∧ requests i tr = [] ∧ replies i tr = []
  | some (.reading buf) => received i tr = buf ∧ readUntil buf = .more ∧ requests i tr = [] ∧ replies i tr = []
  | some _ => requests i tr = (readUntil (received i tr)).lines ∧ (replies i tr).length ≤ 1

theorem Story.requests_eq {i : ℕ} {c : Option Conn} (h : Story i tr c) :
    requests i tr = (readUntil (received i tr)).lines ∧ (replies i tr).length ≤ 1 := by
  rcases c with _ | _ | _ | _ | _
  · obtain ⟨hgot, hasked, htold⟩ := h
    rw [hgot, hasked, htold]
    exact ⟨rfl, Nat.zero_le _⟩
  · obtain ⟨hgot, hf, hasked, htold⟩ := h
    rw [hgot, hf, hasked, htold]
    exact ⟨rfl, Nat.zero_le _⟩
  all_goals exact h

/-- Events about another connection. -/
theorem Story.frame {i : ℕ} {c : Option Conn} (h : Story i tr c) (ho : ∀ e ∈ o, e.conn ≠ i) : Story i (tr ++ o) c := by
  have hgot : received i (tr ++ o) = received i tr := by
    rw [received_append, List.append_right_eq_self, received, List.flatMap_eq_nil_iff]
    intro e he
    cases e with
    | received j chunk => exact if_neg (ho _ he)
    | request | reply => rfl
  have hasked : requests i (tr ++ o) = requests i tr := by
    rw [requests_append, List.append_right_eq_self, requests, List.flatMap_eq_nil_iff]
    intro e he
    cases e with
    | request j l => exact if_neg (ho _ he)
    | received | reply => rfl
  have htold : replies i (tr ++ o) = replies i tr := by
    rw [replies_append, List.append_right_eq_self, replies, List.flatMap_eq_nil_iff]
    intro e he
    cases e with
    | reply j r => exact if_neg (ho _ he)
    | received | request => rfl
  unfold Story at *
  rwa [hgot, hasked, htold]

/-- The connection stops reading. -/
theorem Story.leave {j : ℕ} {buf : Bytes} (h : Story j tr (some (.reading buf)))
    (hasked : requests j o = (readUntil (buf ++ received j o)).lines) (htold : (replies j o).length ≤ 1) :
    requests j (tr ++ o) = (readUntil (received j (tr ++ o))).lines ∧ (replies j (tr ++ o)).length ≤ 1 := by
  obtain ⟨hgot, -, hasked₀, htold₀⟩ := h
  rw [requests_append, received_append, replies_append, hgot, hasked₀, htold₀]
  exact ⟨hasked, htold⟩

/-- The stories go on: a connection that comes begins one, and a step of one leaves the others alone. -/
theorem story_moved (h : ∀ i, Story i tr E.conns[i]?) (hm : Moved E E' o) (i : ℕ) : Story i (tr ++ o) E'.conns[i]? := by
  -- a connection comes
  have hcome {c : Conn} (ho : ∀ e ∈ o, e.conn = E.conns.length)
      (hnew : Story E.conns.length tr none → Story E.conns.length (tr ++ o) (some c)) :
      Story i (tr ++ o) (E.conns ++ [c])[i]? := by
    rcases Nat.lt_trichotomy i E.conns.length with hi | rfl | hi
    · rw [List.getElem?_append_left hi]
      exact (h i).frame fun e he heq => hi.ne (heq.symm.trans (ho e he))
    · rw [List.getElem?_concat_length]
      refine hnew ?_
      have := h E.conns.length
      rwa [List.getElem?_eq_none le_rfl] at this
    · have := h i
      rw [List.getElem?_eq_none hi.le] at this
      rw [List.getElem?_eq_none (by simpa using hi)]
      exact this.frame fun e he heq => hi.ne ((ho e he).symm.trans heq)
  -- a connection goes on
  have hgo {j : ℕ} {c c' : Conn} (hj : E.conns[j]? = some c) (ho : ∀ e ∈ o, e.conn = j)
      (hnew : Story j tr (some c) → Story j (tr ++ o) (some c')) : Story i (tr ++ o) (E.conns.set j c')[i]? := by
    by_cases hi : j = i
    · subst hi
      rw [List.getElem?_set_self (List.getElem?_eq_some_iff.mp hj).1]
      exact hnew (hj ▸ h j)
    · rw [List.getElem?_set_ne hi]
      exact (h i).frame fun e he heq => hi ((ho e he).symm.trans heq)
  cases hm with
  | turnedAway =>
    refine hcome (by simp [ConnEvent.conn]) fun hnone => ?_
    obtain ⟨hgot, hasked, htold⟩ := hnone
    refine ⟨?_, ?_⟩
    · rw [requests_append, received_append, hgot, hasked]
      rfl
    · rw [replies_append, htold, List.nil_append]
      simp [replies]
  | admitted =>
    refine hcome (by simp) fun hnone => ?_
    rw [List.append_nil]
    exact ⟨hnone.1, rfl, hnone.2⟩
  | @more j buf chunk hj hf =>
    refine hgo hj (by simp [ConnEvent.conn]) fun hread => ?_
    obtain ⟨hgot, -, hasked, htold⟩ := hread
    refine ⟨?_, hf, ?_, ?_⟩
    · rw [received_append, hgot]
      simp [received]
    · rw [requests_append, hasked]
      rfl
    · rw [replies_append, htold]
      rfl
  | overrun hj hf =>
    exact hgo hj (by simp [ConnEvent.conn]) fun hread =>
      hread.leave (by simp [requests, received, hf, Frame.lines]) (by simp [replies])
  | answered hj hf =>
    exact hgo hj (by simp [ConnEvent.conn]) fun hread =>
      hread.leave (by simp [requests, received, hf, Frame.lines]) (by simp [replies])
  | raised hj hf =>
    exact hgo hj (by simp [ConnEvent.conn]) fun hread =>
      hread.leave (by simp [requests, received, hf, Frame.lines]) (by simp [replies])
  | abandoned hj =>
    exact hgo hj (by simp [ConnEvent.conn]) fun hread =>
      hread.leave (by simp [requests, received, hread.2.1, Frame.lines]) (by simp [replies])
  | closed hj =>
    refine hgo hj (by simp) fun hopen => ?_
    rw [List.append_nil]
    exact hopen.requests_eq
  | dismissed hj =>
    refine hgo hj (by simp) fun hbusy => ?_
    rw [List.append_nil]
    exact hbusy
  | segment =>
    rw [List.append_nil]
    exact h i

/-- **One connection, one request.**  After any run, for every connection: what has been dispatched for it is the first
line of the bytes that have come, if `readuntil` takes it, however the bytes were cut into chunks; and it has had one
reply at most. -/
theorem one_request_per_connection {srv : Server} {as : List ConnLabel}
    (he : exec (Endpoint.step version loads) (.init srv) as = some (E, tr)) (i : ℕ) :
    requests i tr = (readUntil (received i tr)).lines ∧ (replies i tr).length ≤ 1 := by
  have h0 : ∀ i, Story i [] (Endpoint.init srv).conns[i]? := fun _ => ⟨rfl, rfl, rfl⟩
  have hstory := exec_inv (P := fun _ _ => True) (fun (E : Endpoint) tr => ∀ i, Story i tr E.conns[i]?)
    (fun _ _ _ _ _ h _ hs => story_moved h (moved hs)) h0 (along_of_forall as _ fun _ _ _ => trivial) he
  exact (hstory i).requests_eq

/-- Two lines in three chunks: the first line is the request. -/
theorem one_request_pipelined : ∃ (E : Endpoint) (tr : List ConnEvent),
    exec (Endpoint.step [] fun _ => none) (.init quietServer)
      [.connect, .receive 0 (bytes "a") 0, .connect, .receive 0 (bytes "b\nc\n") 0, .receive 1 (bytes "d") 0] =
      some (E, tr) ∧
    requests 0 tr = [bytes "ab\n"] ∧ requests 1 tr = [] := by
  have hrun : (exec (Endpoint.step [] fun _ => none) (.init quietServer)
      [.connect, .receive 0 (bytes "a") 0, .connect, .receive 0 (bytes "b\nc\n") 0, .receive 1 (bytes "d") 0]).map
      (fun q => (received 0 q.2, received 1 q.2)) = some (bytes "ab\nc\n", bytes "d") := by decide
  obtain ⟨⟨E, tr⟩, he, hq⟩ := Option.map_eq_some_iff.mp hrun
  obtain ⟨h0, h1⟩ := Prod.mk.inj hq
  refine ⟨E, tr, he, ?_, ?_⟩
  · rw [(one_request_per_connection he 0).1, h0]
    decide
  · rw [(one_request_per_connection he 1).1, h1]
    decide

end Psysmon.Control
