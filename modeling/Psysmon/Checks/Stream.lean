import Psysmon.Checks.Ftp
import Psysmon.Checks.Imap
import Psysmon.Checks.Verdict

/-!
# Psysmon.Checks.Stream — the stream checks and their teardown (`checks/base.py` and the checkers)

`open_check_connection` opens a connection, runs a checker on it, and closes it in a `finally`.  A checker ends its
dialogue with the peer knowing the status it will return; some then say goodbye before they hang up.

* `StreamCheck`: a checker, its dialogue without the goodbye, and the proof that it is the dialogue, then the goodbye.
* `perform_teardown_iff`: the status of the dialogue is the status of the check, unless the goodbye or the closing fails.
-/

namespace Psysmon.Checks

open Lib Session

/-- The outcomes of one connection. -/
structure Connection where
  /-- `resolve` and `open_connection`. -/
  opened : Except Exn Unit
  wire : Wire
  /-- `wait_closed`. -/
  closed : Except Exn Unit

/-- `open_check_connection` around a body: an exception of `wait_closed` replaces what the body ended with. -/
def openCheckConnection {α : Type} (c : Connection) (body : Session α) : Except Exn α := do
  c.opened
  match c.closed with
  | .ok () => (body c.wire).1
  | .error e => .error e

/-- `readexactly`: `none` is `IncompleteReadError`, for a read that ends with another length. -/
def readexactly (n : ℕ) : Session (Option Bytes) := do
  let got ← readline
  return if got.length = n then some got else none

/-! ### The checkers -/

/-- `tcp.check`. -/
def Tcp.check (_ : Node) (c : Connection) : Except Exn Status :=
  openCheckConnection c (return .ok)

/-- The bare connection of `Checks.Verdict`. -/
theorem tcpCheck_eq (idna : Idna) (node : Node) (world : World) (wire : Wire) :
    tcpCheck idna node world =
      Tcp.check node ⟨do let _ ← resolve idna node world; openConnection world (effectivePort node), wire,
        raising world.close⟩ := by
  unfold tcpCheck Tcp.check openCheckConnection
  rcases resolve idna node world with e | ip
  · rfl
  rcases openConnection world (effectivePort node) with e | _
  · rfl
  rcases world.close with e | _ <;> rfl

/-- `smtp.check`. -/
def Smtp.check (_ : Node) (c : Connection) : Except Exn Status :=
  openCheckConnection c do
    let banner ← readline
    if (bytes "220").isPrefixOf banner then
      gracefulQuit
      return .ok
    else if banner = [] then return .noResponse
    else return .badResponse

/-- `pop3.check`. -/
def Pop3.check (node : Node) (c : Connection) : Except Exn Status :=
  openCheckConnection c do
    let greeting ← readline
    if greeting = [] then return .noResponse
    else if !(bytes "+OK").isPrefixOf greeting then return .badResponse
    else if node.username = [] ∨ node.password = [] then
      gracefulQuit
      return .ok
    else
      send (bytes "USER " ++ utf8 node.username ++ bytes "\r\n")
      let userReply ← readline
      if userReply = [] then return .noResponse
      else if (bytes "-ERR").isPrefixOf userReply then return .badAuth
      else
        send (bytes "PASS " ++ utf8 node.password ++ bytes "\r\n")
        let reply ← readline
        if (bytes "+OK").isPrefixOf reply then
          gracefulQuit
          return .ok
        else if (bytes "-ERR").isPrefixOf reply then return .badAuth
        else if reply = [] then return .noResponse
        else return .badResponse

/-- `imap.check`. -/
def imapCheck (node : Node) (c : Connection) : Except Exn Status := openCheckConnection c (Imap.check node)

/-- `ftp.check`. -/
def ftpCheck (node : Node) (c : Connection) : Except Exn Status := openCheckConnection c (Ftp.check node)

/-- `ssh.check`. -/
def Ssh.check (_ : Node) (c : Connection) : Except Exn Status := do
  let banner ← openCheckConnection c readline
  if (bytes "SSH-").isPrefixOf banner then return .ok
  else if banner = [] then return .noResponse
  else return .badResponse

/-- The `async with` block of `mysql.check`: a status it returns, or the first byte of the payload. -/
def Mysql.handshake : Session (Status ⊕ UInt8) := do
  match ← readexactly 4 with
  | none => return .inl .noResponse
  | some header =>
    if (header.take 3).foldr (fun b n => b.toNat + 256 * n) 0 < 1 then return .inl .badResponse
    else
      match ← readexactly 1 with
      | none => return .inl .noResponse
      | some first => return .inr (first.headD 0)

/-- `mysql.check`. -/
def Mysql.check (_ : Node) (c : Connection) : Except Exn Status := do
  match ← openCheckConnection c Mysql.handshake with
  | .inl status => return status
  | .inr first => if first ∈ [0x09, 0x0a] ∨ first = 0xff then return .ok else return .badResponse

/-- `telnet.check`. -/
def Telnet.check (_ : Node) (c : Connection) : Except Exn Status := do
  let data ← openCheckConnection c readline
  return if data = [] then .noResponse else .ok

/-! ### Dialogues -/

/-- What the bytes received have decided: the status, and what the check says before it hangs up. -/
abbrev Outcome := Status × Option Bytes

/-- The goodbye. -/
def farewell : Option Bytes → Session Unit
  | none => pure ()
  | some message => send message

/-- A dialogue, then the goodbye. -/
def conclude (dialogue : Session Outcome) : Session Status := do
  let (status, message) ← dialogue
  farewell message
  return status

/-- The statuses of a dialogue. -/
def FromBytes (s : Status) : Prop := s = .ok ∨ s = .noResponse ∨ s = .badResponse ∨ s = .badAuth

/-- A checker that ends a dialogue with a goodbye, if any, and hangs up. -/
structure StreamCheck where
  check : Node → Connection → Except Exn Status
  dialogue : Node → Session Outcome
  check_eq : ∀ node c, check node c = openCheckConnection c (conclude (dialogue node))
  fromBytes : ∀ node, (dialogue node).Returns fun r => FromBytes r.1

theorem openCheckConnection_map {α β : Type} (c : Connection) (m : Session α) (f : α → β) :
    (do let a ← openCheckConnection c m; return f a) = openCheckConnection c (do let a ← m; return f a) := by
  obtain ⟨_ | _, w, _ | _⟩ := c
  · rfl
  · rfl
  · rfl
  · show ((m w).1 >>= fun a => .ok (f a)) = ((m >>= fun a => pure (f a)) w).1
    rcases hm : m w with ⟨e | a, w'⟩
    · rw [bind_error hm]
      rfl
    · rw [bind_ok hm]
      rfl

namespace Tcp

def stream : StreamCheck where
  check := check
  dialogue _ := return (.ok, none)
  check_eq _ _ := rfl
  fromBytes _ := returns_pure (.inl rfl)

end Tcp

namespace Smtp

def dialogue : Session Outcome := do
  let banner ← readline
  if (bytes "220").isPrefixOf banner then return (.ok, some (bytes "QUIT\r\n"))
  else if banner = [] then return (.noResponse, none)
  else return (.badResponse, none)

def stream : StreamCheck where
  check := check
  dialogue _ := dialogue
  check_eq _ c := by
    unfold check dialogue conclude
    simp only [bind_assoc, ite_bind, pure_bind]
    rfl
  fromBytes _ := by
    refine returns_bind fun banner => returns_ite ?_ (returns_ite ?_ ?_)
    all_goals exact returns_pure (by simp [FromBytes])

end Smtp

namespace Pop3

def dialogue (node : Node) : Session Outcome := do
  let greeting ← readline
  if greeting = [] then return (.noResponse, none)
  else if !(bytes "+OK").isPrefixOf greeting then return (.badResponse, none)
  else if node.username = [] ∨ node.password = [] then return (.ok, some (bytes "QUIT\r\n"))
  else
    send (bytes "USER " ++ utf8 node.username ++ bytes "\r\n")
    let userReply ← readline
    if userReply = [] then return (.noResponse, none)
    else if (bytes "-ERR").isPrefixOf userReply then return (.badAuth, none)
    else
      send (bytes "PASS " ++ utf8 node.password ++ bytes "\r\n")
      let reply ← readline
      if (bytes "+OK").isPrefixOf reply then return (.ok, some (bytes "QUIT\r\n"))
      else if (bytes "-ERR").isPrefixOf reply then return (.badAuth, none)
      else if reply = [] then return (.noResponse, none)
      else return (.badResponse, none)

def stream : StreamCheck where
  check := check
  dialogue := dialogue
  check_eq node c := by
    unfold check dialogue conclude
    simp only [bind_assoc, ite_bind, pure_bind]
    rfl
  fromBytes node := by
    refine returns_bind fun greeting => returns_ite ?_ (returns_ite ?_ (returns_ite ?_ (returns_bind fun _ =>
      returns_bind fun userReply => returns_ite ?_ (returns_ite ?_ (returns_bind fun _ => returns_bind fun reply =>
        returns_ite ?_ (returns_ite ?_ (returns_ite ?_ ?_)))))))
    all_goals exact returns_pure (by simp [FromBytes])

end Pop3

namespace Imap

def dialogue (node : Node) : Session Outcome := do
  let greeting ← readline
  if greeting = [] then return (.noResponse, none)
  else if (bytes "* PREAUTH").isPrefixOf greeting then return (.ok, none)
  else if !(bytes "* OK").isPrefixOf greeting then return (.badResponse, none)
  else if node.username = [] ∨ node.password = [] then return (.ok, none)
  else
    send (loginLine node.username node.password)
    let reply ← readTagged tag
    if reply = [] then return (.noResponse, none)
    else
      let result := Bytes.lstrip (reply.drop (tag.length + 1))
      if (bytes "OK").isPrefixOf result then return (.ok, some (bytes "a2 LOGOUT\r\n"))
      else if (bytes "NO").isPrefixOf result then return (.badAuth, none)
      else return (.badResponse, none)

def stream : StreamCheck where
  check := imapCheck
  dialogue := dialogue
  check_eq node c := by
    unfold imapCheck check dialogue conclude
    simp only [bind_assoc, ite_bind, pure_bind]
    rfl
  fromBytes node := by
    refine returns_bind fun greeting => returns_ite ?_ (returns_ite ?_ (returns_ite ?_ (returns_ite ?_
      (returns_bind fun _ => returns_bind fun reply => returns_ite ?_ (returns_ite ?_ (returns_ite ?_ ?_))))))
    all_goals exact returns_pure (by simp [FromBytes])

end Imap

namespace Ftp

def dialogue (node : Node) : Session Outcome := do
  let greeting ← readReply
  if greeting = [] then return (.noResponse, none)
  else if !(bytes "220").isPrefixOf greeting then return (.badResponse, none)
  else if node.username = [] ∨ node.password = [] then return (.ok, some (bytes "QUIT\r\n"))
  else
    send (bytes "USER " ++ utf8 node.username ++ bytes "\r\n")
    let userReply ← readReply
    if userReply = [] then return (.noResponse, none)
    else if (bytes "230").isPrefixOf userReply then return (.ok, some (bytes "QUIT\r\n"))
    else if (bytes "530").isPrefixOf userReply then return (.badAuth, none)
    else if !(bytes "331").isPrefixOf userReply then return (.badResponse, none)
    else
      send (bytes "PASS " ++ utf8 node.password ++ bytes "\r\n")
      let passReply ← readReply
      if passReply = [] then return (.noResponse, none)
      else if (bytes "230").isPrefixOf passReply then return (.ok, some (bytes "QUIT\r\n"))
      else if (bytes "530").isPrefixOf passReply then return (.badAuth, none)
      else return (.badResponse, none)

def streamCheck : StreamCheck where
  check := ftpCheck
  dialogue := dialogue
  check_eq node c := by
    unfold ftpCheck check dialogue conclude
    simp only [bind_assoc, ite_bind, pure_bind]
    rfl
  fromBytes node := by
    refine returns_bind fun greeting => returns_ite ?_ (returns_ite ?_ (returns_ite ?_ (returns_bind fun _ =>
      returns_bind fun userReply => returns_ite ?_ (returns_ite ?_ (returns_ite ?_ (returns_ite ?_
        (returns_bind fun _ => returns_bind fun passReply => returns_ite ?_ (returns_ite ?_ (returns_ite ?_ ?_)))))))))
    all_goals exact returns_pure (by simp [FromBytes])

end Ftp

/-- A checker that reads, hangs up, and then goes by what it has read. -/
theorem conclude_map {α : Type} (c : Connection) (m : Session α) (verdict : α → Status) :
    (do let a ← openCheckConnection c m; return verdict a) =
      openCheckConnection c (conclude do let a ← m; return (verdict a, none)) := by
  rw [openCheckConnection_map, conclude, bind_assoc]
  rfl

namespace Ssh

def verdict (banner : Bytes) : Status :=
  if (bytes "SSH-").isPrefixOf banner then .ok else if banner = [] then .noResponse else .badResponse

def stream : StreamCheck where
  check := check
  dialogue _ := do
    let banner ← readline
    return (verdict banner, none)
  check_eq node c := by
    rw [← conclude_map]
    unfold check verdict
    congr 1
    funext banner
    split_ifs <;> rfl
  fromBytes _ := returns_bind fun banner => returns_pure (by unfold verdict FromBytes; split_ifs <;> simp)

end Ssh

namespace Mysql

def verdict : Status ⊕ UInt8 → Status
  | .inl status => status
  | .inr first => if first ∈ [0x09, 0x0a] ∨ first = 0xff then .ok else .badResponse

theorem handshake_returns : handshake.Returns fun r => FromBytes (verdict r) := by
  have hinr (first : UInt8) : FromBytes (verdict (.inr first)) := by
    rw [verdict, FromBytes]
    split_ifs <;> simp
  refine returns_bind fun header => ?_
  cases header with
  | none => exact returns_pure (.inr (.inl rfl))
  | some header =>
    refine returns_ite (returns_pure (.inr (.inr (.inl rfl)))) (returns_bind fun first => ?_)
    cases first with
    | none => exact returns_pure (.inr (.inl rfl))
    | some first => exact returns_pure (hinr _)

def stream : StreamCheck where
  check := check
  dialogue _ := do
    let read ← handshake
    return (verdict read, none)
  check_eq node c := by
    rw [← conclude_map]
    unfold check verdict
    congr 1
    funext read
    cases read with
    | inl status => rfl
    | inr first => dsimp only; split_ifs <;> rfl
  fromBytes _ := handshake_returns.bind fun _ h => returns_pure h

end Mysql

namespace Telnet

def verdict (data : Bytes) : Status := if data = [] then .noResponse else .ok

def stream : StreamCheck where
  check := check
  dialogue _ := do
    let data ← readline
    return (verdict data, none)
  check_eq node c := by
    rw [← conclude_map]
    rfl
  fromBytes _ := returns_bind fun data => returns_pure (by unfold verdict FromBytes; split_ifs <;> simp)

end Telnet

/-! ### Teardown -/

/-- The keys of `_CHECKERS` whose checkers open a connection with `open_check_connection`. -/
inductive StreamType
  | tcp | smtp | pop3 | pop3s | imap | imaps | ssh | mysql | ftp | ftps | telnet
  deriving DecidableEq, Repr

/-- `_CHECKERS`. -/
def checkers : StreamType → StreamCheck
  | .tcp => Tcp.stream
  | .smtp => Smtp.stream
  | .pop3 | .pop3s => Pop3.stream
  | .imap | .imaps => Imap.stream
  | .ssh => Ssh.stream
  | .mysql => Mysql.stream
  | .ftp | .ftps => Ftp.streamCheck
  | .telnet => Telnet.stream

/-- No `OSError` stands for a status that a dialogue can end with. -/
theorem perform_oserror_ne {e : Exn} (he : e.isOSError = true) {s : Status} (hs : FromBytes s) :
    perform (.error e) ≠ .ok s := by
  unfold FromBytes at hs
  cases e with
  | os e => rcases hs with rfl | rfl | rfl | rfl <;> cases e <;> decide
  | timeout | gaierror => rcases hs with rfl | rfl | rfl | rfl <;> decide
  | noDns | value | overflow => cases he

/-- What a check ends with, once its dialogue has ended. -/
theorem StreamCheck.check_of_dialogue (check : StreamCheck) {node : Node} {c : Connection} (hopen : c.opened = .ok ())
    {s : Status} {message : Option Bytes} {w : Wire} (hrun : check.dialogue node c.wire = (.ok (s, message), w)) :
    check.check node c = (do c.closed; (farewell message w).1; return s) := by
  rw [check.check_eq, openCheckConnection, hopen]
  rcases hclosed : c.closed with e | _
  · rfl
  · show (conclude (check.dialogue node) c.wire).1 = _
    rw [conclude, bind_ok hrun]
    rcases hbye : farewell message w with ⟨e | _, w'⟩
    · exact congrArg Prod.fst (bind_error hbye)
    · exact congrArg Prod.fst (bind_ok hbye)

/-- **Teardown**: a dialogue has ended with a status.  The check ends with it exactly if neither the goodbye nor the
closing of the connection fails with an `OSError`. -/
theorem perform_teardown_iff (t : StreamType) (node : Node) (c : Connection) (hopen : c.opened = .ok ()) (s : Status)
    (message : Option Bytes) (w : Wire) (hrun : (checkers t).dialogue node c.wire = (.ok (s, message), w))
    (hbye : ∀ e, (farewell message w).1 = .error e → e.isOSError = true)
    (hclose : ∀ e, c.closed = .error e → e.isOSError = true) :
    perform ((checkers t).check node c) = .ok s ↔ (farewell message w).1 = .ok () ∧ c.closed = .ok () := by
  have hs : FromBytes s := (checkers t).fromBytes node _ _ _ hrun
  rw [(checkers t).check_of_dialogue hopen hrun]
  rcases hc : c.closed with e | _
  · have hne := perform_oserror_ne (hclose e hc) hs
    exact iff_of_false hne (by rintro ⟨-, h⟩; cases h)
  rcases hb : (farewell message w).1 with e | _
  · have hne := perform_oserror_ne (hbye e hb) hs
    exact iff_of_false hne (by rintro ⟨h, -⟩; cases h)
  · exact iff_of_true rfl ⟨rfl, rfl⟩

/-- A mail server that greets; what the drain of the goodbye and the closing end with. -/
def mailServer (bye closed : Except Exn Unit) : Connection :=
  ⟨.ok (), ⟨[.ok (bytes "220 ready\r\n")], [bye], []⟩, closed⟩

def mailHost : Node := { hostname := "m".toList, checkType := .smtp }

/-- The peer takes the goodbye and closes the connection. -/
theorem perform_teardown_clean :
    perform ((checkers .smtp).check mailHost (mailServer (.ok ()) (.ok ()))) = .ok .ok :=
  (perform_teardown_iff .smtp mailHost (mailServer (.ok ()) (.ok ())) rfl .ok (some (bytes "QUIT\r\n"))
    ⟨[], [.ok ()], []⟩ rfl (by rintro e ⟨⟩) (by rintro e ⟨⟩)).mpr ⟨rfl, rfl⟩

/-- The greeting has decided the status; a peer that then resets the connection, at the goodbye or at the closing,
turns it into another. -/
theorem perform_teardown_reset :
    (checkers .smtp).dialogue mailHost (mailServer (.error (.os .other)) (.ok ())).wire =
      (.ok (.ok, some (bytes "QUIT\r\n")), ⟨[], [.error (.os .other)], []⟩) ∧
    perform ((checkers .smtp).check mailHost (mailServer (.error (.os .other)) (.ok ()))) = .ok .connRefused ∧
    perform ((checkers .smtp).check mailHost (mailServer (.ok ()) (.error (.os .other)))) = .ok .connRefused :=
  ⟨rfl, rfl, rfl⟩

end Psysmon.Checks
