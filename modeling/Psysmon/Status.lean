import Psysmon.Lib.Text

/-!
# Psysmon.Status — check status codes (`status.py`)

A check returns an integer code.  `0` is up, every other code is a failure reason of its own; the engine stores
the integer, so a code outside the table is representable too (a restored state file may carry one).
-/

namespace Psysmon

/-- Result of a single check (`Status`). -/
inductive Status
  | ok | connRefused | netUnreach | hostDown | timedOut | noDns | unpingable | throttled | noAuth
  | noResponse | inProgress | badAuth | badResponse | x500Wedged
  /-- Outside the legacy range `0..13`: a loss-tolerant ping with some replies but fewer than `min_pings`. -/
  | degraded
  deriving DecidableEq, Repr

/-- The integer value of a `Status`. -/
def Status.code : Status → ℤ
  | .ok => 0
  | .connRefused => 1
  | .netUnreach => 2
  | .hostDown => 3
  | .timedOut => 4
  | .noDns => 5
  | .unpingable => 6
  | .throttled => 7
  | .noAuth => 8
  | .noResponse => 9
  | .inProgress => 10
  | .badAuth => 11
  | .badResponse => 12
  | .x500Wedged => 13
  | .degraded => 14

/-- The display strings (`_STATUS_TEXT`). -/
def Status.text : Status → Lib.Text
  | .ok => "up".toList
  | .connRefused => "Conn Ref".toList
  | .netUnreach => "Net Unrch".toList
  | .hostDown => "Host Down".toList
  | .timedOut => "Conn Timed Out".toList
  | .noDns => "No dns entry".toList
  | .unpingable => "Unpingable".toList
  | .throttled => "Thrttl".toList
  | .noAuth => "No Auth".toList
  | .noResponse => "No Srvr Resp".toList
  | .inProgress => "Conn in prog".toList
  | .badAuth => "Bad Auth".toList
  | .badResponse => "Bad Resp".toList
  | .x500Wedged => "Wedged".toList
  | .degraded => "Degraded".toList

def Status.all : List Status :=
  [.ok, .connRefused, .netUnreach, .hostDown, .timedOut, .noDns, .unpingable, .throttled, .noAuth, .noResponse,
    .inProgress, .badAuth, .badResponse, .x500Wedged, .degraded]

/-- The display string of a code (`errtostr`). -/
def errtostr (value : ℤ) : Lib.Text :=
  match Status.all.find? fun s => s.code = value with
  | some s => s.text
  | none => "ERROR".toList

@[simp] theorem Status.code_ok : Status.ok.code = 0 := rfl

@[simp] theorem Status.code_noDns : Status.noDns.code = 5 := rfl

@[simp] theorem Status.code_degraded : Status.degraded.code = 14 := rfl

/-- True if the code means the service is fully up; `DEGRADED` is not. -/
def isUp (value : ℤ) : Bool := value == Status.ok.code

/-- Reachable enough to forward to dependents: up or degraded. -/
def isReachable (value : ℤ) : Bool := value == Status.ok.code || value == Status.degraded.code

@[simp] theorem isUp_iff {v : ℤ} : isUp v = true ↔ v = 0 := by simp [isUp]

@[simp] theorem isUp_eq_false_iff {v : ℤ} : isUp v = false ↔ v ≠ 0 := by simp [isUp]

end Psysmon
