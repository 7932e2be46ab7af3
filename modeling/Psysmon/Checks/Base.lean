import Psysmon.Lib.Bytes
import Psysmon.Config.Model

/-!
# Psysmon.Checks.Base — common check plumbing (`checks/base.py`)

A check ends with a status or an exception; `perform` maps the expected exceptions to statuses.  A stream check talks
to a `Wire`: the outcomes of its reads and drains, which the peer and the network decide, and what it has written.
`Session` is the state monad of such checks; what was written stays written when an exception is raised.

* `Session.Returns`: what every value that a session returns satisfies.
* `Session.Appends`: a check never takes back what it wrote.
-/

namespace Psysmon.Checks

open Lib

/-- The `errno` values that the code tells apart. -/
inductive Errno
  | econnrefused | enetunreach | ehostunreach | ehostdown | etimedout | other
  deriving DecidableEq, Repr

/-- The exceptions of a check: `NoDnsError`, `TimeoutError`, `socket.gaierror`, a `ValueError`, another `OSError`, and
`OverflowError`. -/
inductive Exn
  | noDns | timeout | gaierror | value | os (e : Errno) | overflow
  deriving DecidableEq, Repr

/-- `TimeoutError` and `socket.gaierror` are `OSError`s. -/
def Exn.isOSError : Exn → Bool
  | .timeout | .gaierror | .os _ => true
  | .noDns | .value | .overflow => false

/-- `map_oserror`. -/
def mapOserror : Errno → Status
  | .econnrefused => .connRefused
  | .enetunreach => .netUnreach
  | .ehostunreach | .ehostdown => .hostDown
  | .etimedout => .timedOut
  | .other => .connRefused

/-- `perform`, once the checker has ended or the timeout has. -/
def perform : Except Exn Status → Except Exn Status
  | .ok s => .ok s
  | .error .noDns => .ok .noDns
  | .error .timeout => .ok .timedOut
  | .error .gaierror => .ok .noDns
  | .error .value => .ok .badResponse
  | .error (.os e) => .ok (mapOserror e)
  | .error .overflow => .error .overflow

/-- A connection, as a check sees it. -/
structure Wire where
  /-- What the next reads do; after them the peer has closed the connection. -/
  reads : List (Except Exn Bytes)
  /-- What the next `drain` calls do; after them they succeed. -/
  drains : List (Except Exn Unit)
  /-- The writes so far. -/
  sent : List Bytes

/-- A piece of a stream check. -/
def Session (α : Type) := Wire → Except Exn α × Wire

namespace Session

variable {α β γ : Type}

instance : Monad Session where
  pure a := fun w => (.ok a, w)
  bind m f := fun w => match m w with
    | (.ok a, w) => f a w
    | (.error e, w) => (.error e, w)

/-- `await reader.readline()`. -/
def readline : Session Bytes := fun w =>
  match w.reads with
  | [] => (.ok [], w)
  | r :: rs => (r, { w with reads := rs })

/-- `writer.write(data)` and `await writer.drain()`. -/
def send (data : Bytes) : Session Unit := fun w =>
  match w.drains with
  | [] => (.ok (), { w with sent := w.sent ++ [data] })
  | d :: ds => (d, { w with drains := ds, sent := w.sent ++ [data] })

theorem bind_ok {m : Session α} {f : α → Session β} {w w' : Wire} {a : α} (h : m w = (.ok a, w')) :
    (m >>= f) w = f a w' := by
  show (match m w with | (.ok a, w) => f a w | (.error e, w) => (.error e, w)) = _
  rw [h]

theorem bind_error {m : Session α} {f : α → Session β} {w w' : Wire} {e : Exn} (h : m w = (.error e, w')) :
    (m >>= f) w = (.error e, w') := by
  show (match m w with | (.ok a, w) => f a w | (.error e, w) => (.error e, w)) = _
  rw [h]

theorem bind_assoc (m : Session α) (f : α → Session β) (g : β → Session γ) :
    (m >>= f) >>= g = m >>= fun a => f a >>= g := by
  funext w
  rcases hm : m w with ⟨e | a, w'⟩
  · rw [bind_error hm, bind_error (bind_error hm)]
  · rw [bind_ok hm]
    rcases hf : f a w' with ⟨e | b, w''⟩
    · rw [bind_error hf, bind_error ((bind_ok hm).trans hf)]
    · rw [bind_ok hf, bind_ok ((bind_ok hm).trans hf)]

theorem pure_bind (a : α) (f : α → Session β) : (pure a : Session α) >>= f = f a := rfl

theorem ite_bind (c : Prop) [Decidable c] (m m' : Session α) (f : α → Session β) :
    (if c then m else m') >>= f = if c then m >>= f else m' >>= f := by
  split_ifs <;> rfl

/-- Every value that the session returns satisfies `P`. -/
def Returns (P : α → Prop) (m : Session α) : Prop := ∀ w a w', m w = (.ok a, w') → P a

theorem returns_pure {P : α → Prop} {a : α} (h : P a) : Returns P (pure a : Session α) := by
  rintro w b w' ⟨rfl, rfl⟩
  exact h

theorem Returns.bind {P : α → Prop} {Q : β → Prop} {m : Session α} {f : α → Session β} (hm : Returns P m)
    (hf : ∀ a, P a → Returns Q (f a)) : Returns Q (m >>= f) := by
  intro w b w' hb
  rcases hmw : m w with ⟨e | a, w''⟩
  · rw [bind_error hmw] at hb
    cases hb
  · rw [bind_ok hmw] at hb
    exact hf a (hm w a w'' hmw) w'' b w' hb

theorem returns_bind {Q : β → Prop} {m : Session α} {f : α → Session β} (hf : ∀ a, Returns Q (f a)) :
    Returns Q (m >>= f) :=
  Returns.bind (P := fun _ => True) (fun _ _ _ _ => trivial) fun a _ => hf a

theorem returns_ite {P : α → Prop} {c : Prop} [Decidable c] {m m' : Session α} (h : Returns P m) (h' : Returns P m') :
    Returns P (if c then m else m') := by
  split_ifs
  · exact h
  · exact h'

/-- The piece only adds to what was written. -/
def Appends (m : Session α) : Prop := ∀ w, ∃ rest, (m w).2.sent = w.sent ++ rest

theorem appends_pure (a : α) : Appends (pure a : Session α) := fun _ => ⟨[], (List.append_nil _).symm⟩

theorem Appends.bind {m : Session α} {f : α → Session β} (hm : m.Appends) (hf : ∀ a, (f a).Appends) :
    (m >>= f).Appends := by
  intro w
  obtain ⟨r1, h1⟩ := hm w
  rcases hmw : m w with ⟨e | a, w'⟩
  · rw [bind_error hmw]
    rw [hmw] at h1
    exact ⟨r1, h1⟩
  · rw [bind_ok hmw]
    rw [hmw] at h1
    obtain ⟨r2, h2⟩ := hf a w'
    refine ⟨r1 ++ r2, ?_⟩
    rw [h2, show w'.sent = w.sent ++ r1 from h1, List.append_assoc]

theorem appends_readline : readline.Appends := by
  intro w
  refine ⟨[], ?_⟩
  unfold readline
  split <;> simp

theorem sent_send (data : Bytes) (w : Wire) : (send data w).2.sent = w.sent ++ [data] := by
  unfold send
  split <;> rfl

theorem appends_send (data : Bytes) : (send data).Appends := fun w => ⟨[data], sent_send data w⟩

end Session

/-- `graceful_quit`. -/
def gracefulQuit : Session Unit := Session.send (bytes "QUIT\r\n")

end Psysmon.Checks
