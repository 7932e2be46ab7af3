import Psysmon.Engine.Persist

/-!
# Psysmon.Output.Json — JSON status output (`output/jsonout.py`)

Every monitored node with its live state.  `json.dumps` prints an integer in decimal digits and raises `ValueError` for
one that has too many of them, so the payload is printable or the call fails.
-/

namespace Psysmon

open Lib

/-- `text or None`. -/
def Json.orNull (t : Text) : Json := if t = [] then .null else .str t

/-- `value or None` of a float: a zero is falsy, a NaN is not. -/
def Json.timeOrNull (v : Number.PyFloat) : Json := if v = .finite 0 then .null else .float v

def Json.optStr : Option Text → Json
  | none => .null
  | some t => .str t

/-- `_host`. -/
def host (node : Node) (state : NodeState) : Record :=
  [("hostname".toList, .str node.hostname), ("type".toList, .str node.checkType.value), ("port".toList, .int node.port),
    ("label".toList, .str node.label), ("contact".toList, .str node.contact), ("group".toList, .orNull node.group),
    ("up".toList, .bool (isUp state.lastcheck)), ("degraded".toList, .bool (state.lastcheck = Status.degraded.code)),
    ("status".toList, .int state.lastcheck), ("status_text".toList, .str (errtostr state.lastcheck)),
    ("count".toList, .int state.downct), ("notified".toList, .bool state.contacted),
    ("acked".toList, .bool state.acked), ("note".toList, .optStr state.note),
    ("suppressed".toList, .bool state.suppressed), ("down_parents".toList, .arr (state.downParents.map .str)),
    ("deathtime".toList, .timeOrNull state.deathtime), ("last_up".toList, .timeOrNull state.lastUp)]

/-- The payload of `to_json`. -/
def statusPayload (states : List (Node × NodeState)) (nowWall : ℚ) : Json :=
  .obj [("generated".toList, .float nowWall),
    ("down".toList, .int (states.countP fun s => !isUp s.2.lastcheck && !s.2.suppressed)),
    ("total".toList, .int states.length), ("hosts".toList, .arr (states.map fun s => .obj (host s.1 s.2)))]

mutual

/-- `json.dumps` prints every integer in the value. -/
def Json.printable : Json → Bool
  | .int n => decide (Number.Printable n)
  | .arr l => Json.allPrintable l
  | .obj l => Json.fieldsPrintable l
  | _ => true

def Json.allPrintable : List Json → Bool
  | [] => true
  | j :: l => j.printable && Json.allPrintable l

def Json.fieldsPrintable : List (Text × Json) → Bool
  | [] => true
  | f :: l => f.2.printable && Json.fieldsPrintable l

end

/-- `to_json` as the value its text stands for; `none` if `json.dumps` raises. -/
def toJson (states : List (Node × NodeState)) (nowWall : ℚ) : Option Json :=
  if (statusPayload states nowWall).printable then some (statusPayload states nowWall) else none

end Psysmon
