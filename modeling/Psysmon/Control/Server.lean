import Psysmon.Engine.Queue
import Psysmon.Output.Json

/-!
# Psysmon.Control.Server — the control channel (`control/server.py`, `control/auth.py`)

One request line in, one JSON object out.  `loads` is `json.loads` on the bytes of a line, `none` where it raises.
`dispatch` runs in one segment of the event loop, so a request is a function of the server state.

`Served` lists what one request can do (`served`); the results below split on it and never look at the dispatcher again.

* `requests_without_token`: requests that do not carry the configured token change nothing but `down_parents`.
* `answered_iff`: which requests get a reply.
-/

namespace Psysmon.Control

open Lib

/-- What the control server reads and writes: its token, the scheduler, and the daemon's reload flag. -/
structure Server where
  token : Option Text
  sched : Sched
  reloadFlag : Bool

/-- `hmac.compare_digest` raises `TypeError`. -/
inductive Raised
  | typeError
  deriving DecidableEq

/-! ### Tokens -/

def isAscii (t : Text) : Bool := t.all (·.toNat < 128)

/-- `hmac.compare_digest` on two strings. -/
def compareDigest (a b : Text) : Except Raised Bool :=
  if isAscii a && isAscii b then .ok (a = b) else .error .typeError

/-- `_MAX_TOKEN_LEN`. -/
def maxTokenLen : ℕ := 4096

/-- `token_matches`. -/
def tokenMatches (provided : Json) (expected : Text) : Except Raised Bool :=
  match provided with
  | .str t => if t.length > maxTokenLen then .ok false else compareDigest t expected
  | _ => .ok false

/-! ### Commands -/

inductive Command
  | status | version | ack | note | reload
  deriving DecidableEq

/-- `_COMMANDS`: the handler, and whether it requires the token. -/
def commands : List (Text × Command × Bool) :=
  [("status".toList, .status, false), ("version".toList, .version, false), ("ack".toList, .ack, true),
    ("note".toList, .note, true), ("reload".toList, .reload, true)]

/-- A reply with a fixed error code. -/
def failure (error : String) : Record := [("ok".toList, .bool false), ("error".toList, .str error.toList)]

/-- `_object_key`. -/
def objectKey (req : Record) : Option (Text × Text × ℤ) :=
  match req.get "object".toList with
  | .obj o =>
    match Record.get o "hostname".toList, Record.get o "type".toList, (o.lookup "port".toList).getD (.int 0) with
    | .str hostname, .str typeValue, .int port => some (hostname, typeValue, port)
    | _, _, _ => none
  | _ => none

/-- The reply to a mutation that matched `n` nodes. -/
def matchedReply (n : ℕ) : Record :=
  if n = 0 then failure "not_found" else [("ok".toList, .bool true), ("matched".toList, .int n)]

variable (version : Text)

/-- `_cmd_status`; `none` is an exception. -/
def cmdStatus (srv : Server) (wall : ℚ) : Server × Option Record :=
  let S := srv.sched.nodeStates
  ({ srv with sched := S },
    (toJson (S.scheduled.map fun r => ((S.objs r).node, (S.objs r).state)) wall).map fun j =>
      [("ok".toList, .bool true), ("status".toList, j)])

/-- `_cmd_ack`. -/
def cmdAck (srv : Server) (req : Record) : Server × Record :=
  match objectKey req with
  | none => (srv, failure "bad_request")
  | some (hostname, typeValue, port) =>
    ({ srv with sched := srv.sched.ack hostname typeValue port },
      matchedReply (srv.sched.matching hostname typeValue port).length)

/-- `text` is a string or missing. -/
def noteText : Json → Option (Option Text)
  | .null => some none
  | .str t => some (some t)
  | _ => none

/-- `_cmd_note`. -/
def cmdNote (srv : Server) (req : Record) : Server × Record :=
  match objectKey req, noteText (req.get "text".toList) with
  | some (hostname, typeValue, port), some text =>
    ({ srv with sched := srv.sched.setNote hostname typeValue port text },
      matchedReply (srv.sched.matching hostname typeValue port).length)
  | _, _ => (srv, failure "bad_request")

/-- The handler of a command; an exception in it is answered with a fixed code. -/
def handler (cmd : Command) (srv : Server) (req : Record) (wall : ℚ) : Server × Record :=
  match cmd with
  | .status => ((cmdStatus srv wall).1, (cmdStatus srv wall).2.getD (failure "internal_error"))
  | .version => (srv, [("ok".toList, .bool true), ("version".toList, .str version)])
  | .ack => cmdAck srv req
  | .note => cmdNote srv req
  | .reload => ({ srv with reloadFlag := true }, [("ok".toList, .bool true)])

/-- `_COMMANDS.get(cmd) if isinstance(cmd, str) else None`. -/
def commandOf (req : Record) : Option (Command × Bool) :=
  match req.get "cmd".toList with
  | .str cmd => commands.lookup cmd
  | _ => none

/-- `_dispatch`. -/
def dispatch (srv : Server) (req : Record) (wall : ℚ) : Except Raised (Server × Record) :=
  match commandOf req with
  | none => .ok (srv, failure "unknown_command")
  | some (cmd, requiresToken) =>
    if requiresToken then
      match srv.token with
      | none => .ok (srv, failure "mutations_disabled")
      | some token =>
        match tokenMatches (req.get "token".toList) token with
        | .error e => .error e
        | .ok false => .ok (srv, failure "unauthorized")
        | .ok true => .ok (handler version cmd srv req wall)
    else .ok (handler version cmd srv req wall)

variable (loads : List UInt8 → Option Json)

/-- `_read_request` on a complete line. -/
def readRequest (srv : Server) (line : List UInt8) (wall : ℚ) : Except Raised (Server × Record) :=
  match loads line with
  | some (.obj req) => dispatch version srv req wall
  | _ => .ok (srv, failure "bad_request")

/-- The server after a request; an exception closes the connection without a reply. -/
def serve (srv : Server) (line : List UInt8) (wall : ℚ) : Server :=
  match readRequest version loads srv line wall with
  | .ok out => out.1
  | .error _ => srv

/-- The server after a sequence of requests, each with the wall-clock time at which it is handled. -/
def serveAll (srv : Server) (lines : List (List UInt8 × ℚ)) : Server :=
  lines.foldl (fun srv q => serve version loads srv q.1 q.2) srv

/-! ### What one request can do -/

/-- A request that gets to a token-gated command, and the token it is compared with. -/
structure Gated (srv : Server) (line : List UInt8) (req : Record) (cmd : Command) (token : Text) : Prop where
  decoded : loads line = some (.obj req)
  gated : commandOf req = some (cmd, true)
  configured : srv.token = some token

/-- The outcomes of a request. -/
inductive Served (srv : Server) (line : List UInt8) (wall : ℚ) : Except Raised (Server × Record) → Prop
  /-- Answered with an error code, or a read that looks at nothing. -/
  | answered (reply : Record) {b : Bool} (hok : reply.lookup "ok".toList = some (.bool b)) :
    Served srv line wall (.ok (srv, reply))
  /-- `status` refreshes the `down_parents` lists. -/
  | status (reply : Record) {b : Bool} (hok : reply.lookup "ok".toList = some (.bool b)) :
    Served srv line wall (.ok ((cmdStatus srv wall).1, reply))
  | raised {req : Record} {cmd : Command} {token : Text} (hg : Gated loads srv line req cmd token)
      (hm : tokenMatches (req.get "token".toList) token = .error .typeError) :
    Served srv line wall (.error .typeError)
  | authorised {req : Record} {cmd : Command} {token : Text} (hg : Gated loads srv line req cmd token)
      (hm : tokenMatches (req.get "token".toList) token = .ok true) :
    Served srv line wall (.ok (handler version cmd srv req wall))

theorem mem_commands {req : Record} {q : Command × Bool} (h : commandOf req = some q) :
    q ∈ [(Command.status, false), (.version, false), (.ack, true), (.note, true), (.reload, true)] := by
  unfold commandOf at h
  split at h
  · simp only [commands, List.lookup] at h
    repeat' split at h
    all_goals simp_all
  · simp at h

theorem matchedReply_lookup (n : ℕ) : (matchedReply n).lookup "ok".toList = some (.bool (n ≠ 0)) := by
  unfold matchedReply
  split <;> simp_all [failure]

/-- Every handler answers with an `ok` field. -/
theorem handler_ok (cmd : Command) (srv : Server) (req : Record) (wall : ℚ) :
    ∃ b, (handler version cmd srv req wall).2.lookup "ok".toList = some (.bool b) := by
  cases cmd with
  | status =>
    simp only [handler]
    cases h : (cmdStatus srv wall).2 with
    | none => exact ⟨false, rfl⟩
    | some reply =>
      obtain ⟨j, -, rfl⟩ := Option.map_eq_some_iff.mp h
      exact ⟨true, rfl⟩
  | version => exact ⟨true, rfl⟩
  | ack =>
    simp only [handler, cmdAck]
    split
    · exact ⟨false, rfl⟩
    · exact ⟨_, matchedReply_lookup _⟩
  | note =>
    simp only [handler, cmdNote]
    split
    · exact ⟨_, matchedReply_lookup _⟩
    · exact ⟨false, rfl⟩
  | reload => exact ⟨true, rfl⟩

theorem served (srv : Server) (line : List UInt8) (wall : ℚ) :
    Served version loads srv line wall (readRequest version loads srv line wall) := by
  unfold readRequest
  split
  · rename_i req hreq
    unfold dispatch
    split
    · exact .answered _ rfl
    · rename_i cmd requiresToken hcmd
      cases requiresToken with
      | false =>
        have hread : cmd = .status ∨ cmd = .version := by simpa using mem_commands hcmd
        rcases hread with rfl | rfl
        · obtain ⟨b, hok⟩ := handler_ok version .status srv req wall
          exact .status _ hok
        · exact .answered _ (b := true) rfl
      | true =>
        simp only [if_true]
        split
        · exact .answered _ rfl
        · rename_i token htoken
          have hg : Gated loads srv line req cmd token := ⟨hreq, hcmd, htoken⟩
          split
          · rename_i e hm
            cases e
            exact .raised hg hm
          · exact .answered _ rfl
          · rename_i hm
            exact .authorised hg hm
  · exact .answered _ rfl

/-- A token that matches is the configured one. -/
theorem eq_of_tokenMatches {provided : Json} {token : Text} (h : tokenMatches provided token = .ok true) :
    provided = .str token := by
  unfold tokenMatches at h
  split at h
  · split at h
    · simp at h
    · unfold compareDigest at h
      split at h
      · simpa using h
      · simp at h
  · simp at h

/-! ### Who may change what -/

/-- The reload flag and every field of every node state but `down_parents` are as before. -/
structure Unchanged (before after : Server) : Prop where
  token : after.token = before.token
  reloadFlag : after.reloadFlag = before.reloadFlag
  state : ∀ r, { (after.sched.objs r).state with downParents := [] } =
    { (before.sched.objs r).state with downParents := [] }

variable {version loads} {srv : Server} {line : List UInt8} {wall : ℚ}

theorem Unchanged.refl (srv : Server) : Unchanged srv srv := ⟨rfl, rfl, fun _ => rfl⟩

theorem Unchanged.trans {a b c : Server} (h : Unchanged a b) (h' : Unchanged b c) : Unchanged a c :=
  ⟨h'.token.trans h.token, h'.reloadFlag.trans h.reloadFlag, fun r => (h'.state r).trans (h.state r)⟩

theorem unchanged_cmdStatus (srv : Server) (wall : ℚ) : Unchanged srv (cmdStatus srv wall).1 := by
  refine ⟨rfl, rfl, fun r => ?_⟩
  simp only [cmdStatus, Sched.nodeStates]
  split <;> rfl

/-- One request without the token. -/
theorem unchanged_serve (h : ∀ (req : Record) token, loads line = some (.obj req) → srv.token = some token →
    req.get "token".toList ≠ .str token) : Unchanged srv (serve version loads srv line wall) := by
  have hs := served version loads srv line wall
  unfold serve
  generalize readRequest version loads srv line wall = out at hs ⊢
  cases hs with
  | answered => exact .refl srv
  | status => exact unchanged_cmdStatus srv wall
  | raised => exact .refl srv
  | @authorised req cmd token hg hm => exact absurd (eq_of_tokenMatches hm) (h req token hg.decoded hg.configured)

theorem mapStates_nil (S : Sched) (f : NodeState → NodeState) : S.mapStates [] f = S := by
  simp [Sched.mapStates]

theorem publish_false (S : Sched) : S.publish false = S := by
  simp [Sched.publish]

theorem matchedReply_ok {n : ℕ} (h : (matchedReply n).lookup "ok".toList = some (.bool false)) : n = 0 := by
  rw [matchedReply_lookup] at h
  simpa using h

/-- A mutation that is answered with `ok = false` found no valid key, or no node. -/
theorem handler_eq_self {cmd : Command} {req : Record} (hcmd : commandOf req = some (cmd, true))
    (hok : (handler version cmd srv req wall).2.lookup "ok".toList = some (.bool false)) :
    (handler version cmd srv req wall).1 = srv := by
  have hgated : cmd = .ack ∨ cmd = .note ∨ cmd = .reload := by simpa using mem_commands hcmd
  rcases hgated with rfl | rfl | rfl
  · simp only [handler, cmdAck] at hok ⊢
    split at hok
    · rfl
    · have hnone := List.eq_nil_of_length_eq_zero (matchedReply_ok hok)
      simp [Sched.ack, hnone, mapStates_nil, publish_false]
  · simp only [handler, cmdNote] at hok ⊢
    split at hok
    · have hnone := List.eq_nil_of_length_eq_zero (matchedReply_ok hok)
      simp [Sched.setNote, hnone, mapStates_nil, publish_false]
    · rfl
  · simp [handler] at hok

/-- **Requests without the right token change nothing**, in any number and order; and no request that is answered with
`ok = false` does, whatever its token. -/
theorem requests_without_token (version : Text) (loads : List UInt8 → Option Json) (srv : Server) :
    (∀ lines : List (List UInt8 × ℚ),
      (∀ q ∈ lines, ∀ (req : Record) token, loads q.1 = some (.obj req) → srv.token = some token →
        req.get "token".toList ≠ .str token) →
      Unchanged srv (serveAll version loads srv lines)) ∧
    ∀ line wall srv' reply, readRequest version loads srv line wall = .ok (srv', reply) →
      reply.lookup "ok".toList = some (.bool false) → Unchanged srv srv' := by
  constructor
  · intro lines
    induction lines generalizing srv with
    | nil => exact fun _ => .refl srv
    | cons q lines ih =>
      intro h
      have h1 : Unchanged srv (serve version loads srv q.1 q.2) := unchanged_serve (h q (by simp))
      refine h1.trans (ih (serve version loads srv q.1 q.2) fun q' hq' req token hreq htok => ?_)
      rw [h1.token] at htok
      exact h q' (by simp [hq']) req token hreq htok
  · intro line wall srv' reply hout hok
    have hs := served version loads srv line wall
    rw [hout] at hs
    generalize hq : (Except.ok (srv', reply) : Except Raised (Server × Record)) = out at hs
    cases hs with
    | answered =>
      obtain ⟨rfl, rfl⟩ := Prod.mk.inj (Except.ok.inj hq)
      exact .refl _
    | status =>
      obtain ⟨rfl, rfl⟩ := Prod.mk.inj (Except.ok.inj hq)
      exact unchanged_cmdStatus srv wall
    | raised => exact absurd hq (by simp)
    | @authorised req cmd token hg hm =>
      obtain ⟨h1, h2⟩ := Prod.ext_iff.mp (Except.ok.inj hq)
      dsimp only at h1 h2
      rw [h1, handler_eq_self hg.gated (h2 ▸ hok)]
      exact .refl srv

/-! ### Who gets a reply -/

/-- The requests that are not answered: a token-gated command with a token of admissible length, where it or the
configured token is not ASCII. -/
def Unanswered (loads : List UInt8 → Option Json) (srv : Server) (line : List UInt8) : Prop :=
  ∃ req cmd token provided, Gated loads srv line req cmd token ∧ req.get "token".toList = .str provided ∧
    provided.length ≤ maxTokenLen ∧ (isAscii provided = false ∨ isAscii token = false)

theorem tokenMatches_error {provided : Json} {token : Text} :
    tokenMatches provided token = .error .typeError ↔
      ∃ t, provided = .str t ∧ t.length ≤ maxTokenLen ∧ (isAscii t = false ∨ isAscii token = false) := by
  cases provided with
  | str t =>
    simp only [tokenMatches, Json.str.injEq, exists_eq_left']
    by_cases hlen : t.length > maxTokenLen
    · rw [if_pos hlen]
      simp [not_le.mpr hlen]
    · rw [if_neg hlen, compareDigest]
      by_cases hasc : isAscii t && isAscii token
      · rw [if_pos hasc]
        simp only [Bool.and_eq_true] at hasc
        simp [hasc]
      · rw [if_neg hasc]
        simp only [Bool.and_eq_true, not_and_or, Bool.not_eq_true] at hasc
        simp [not_lt.mp hlen, hasc]
  | _ => simp [tokenMatches]

/-- **Every request line is answered with one object that has a boolean `ok`**, but for a token that
`hmac.compare_digest` does not take. -/
theorem answered_iff (version : Text) (loads : List UInt8 → Option Json) (srv : Server) (line : List UInt8) (wall : ℚ) :
    (∃ srv' reply b, readRequest version loads srv line wall = .ok (srv', reply) ∧
      reply.lookup "ok".toList = some (.bool b)) ↔ ¬ Unanswered loads srv line := by
  constructor
  · rintro ⟨srv', reply, b, hout, -⟩ ⟨req, cmd, token, provided, hg, hprov, hlen, hasc⟩
    have hm := tokenMatches_error.mpr ⟨provided, hprov, hlen, hasc⟩
    rw [readRequest, hg.decoded] at hout
    simp only [dispatch, hg.gated, hg.configured, hm, if_true, reduceCtorEq] at hout
  · intro h
    have hs := served version loads srv line wall
    generalize readRequest version loads srv line wall = out at hs ⊢
    cases hs with
    | answered reply hok => exact ⟨_, reply, _, rfl, hok⟩
    | status reply hok => exact ⟨_, reply, _, rfl, hok⟩
    | @raised req cmd token hg hm =>
      obtain ⟨provided, hprov, hlen, hasc⟩ := tokenMatches_error.mp hm
      exact absurd ⟨req, cmd, token, provided, hg, hprov, hlen, hasc⟩ h
    | @authorised req cmd token hg hm =>
      obtain ⟨b, hok⟩ := handler_ok version cmd srv req wall
      exact ⟨_, _, b, rfl, hok⟩

/-- A decoder for one line. -/
def oneLine (line : List UInt8) (req : Record) (l : List UInt8) : Option Json := if l = line then some (.obj req) else none

/-- A server with the token `secret` on the router and its web server. -/
def secretServer : Server := ⟨some "secret".toList, Sched.init {} gatewayForest (fun _ => 0) 0 true, false⟩

/-- A reload request with the token `é`. -/
def accentedLine : List UInt8 := "\x7b\"cmd\":\"reload\",\"token\":\"é\"\x7d\n".toUTF8.data.toList

def accentedRequest : Record := [("cmd".toList, .str "reload".toList), ("token".toList, .str "é".toList)]

/-- A guessed token leaves the reload flag alone. -/
theorem requests_without_token_guess :
    (serveAll "1".toList (oneLine [0] [("cmd".toList, .str "reload".toList), ("token".toList, .str "guess".toList)])
      secretServer [([0], 0), ([1], 1)]).reloadFlag = false := by
  refine ((requests_without_token "1".toList _ secretServer).1 _ fun q _ req token hreq htok => ?_).reloadFlag
  obtain rfl := Option.some.inj htok
  unfold oneLine at hreq
  split at hreq
  · obtain rfl := Json.obj.inj (Option.some.inj hreq)
    exact fun h => absurd (Json.str.inj h) (by decide)
  · simp at hreq

/-- **A token with an accent gets no reply**: the connection is closed. -/
theorem accented_token_unanswered :
    readRequest "1".toList (oneLine accentedLine accentedRequest) secretServer accentedLine 0 =
      .error .typeError := by
  rfl

end Psysmon.Control
