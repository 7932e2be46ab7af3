import Psysmon.Lib.Binary64
import Psysmon.Engine.Scheduler

/-!
# Psysmon.Engine.Persist — state records (`Scheduler.export_state` / `import_state`)

A record is a JSON object.  `importState` merges records one after the other; a record whose key is not hashable, or
with an integer timestamp beyond the range of a float, makes it raise with the earlier records merged.

* `validatedCarry_exportRecord`: an exported record passes its own validation.
* `importState_ind`: what every validated record may write, `importState` keeps.
-/

namespace Psysmon

open Lib

/-- JSON values as Python's `json.loads` builds them; a number is an `int` or a `float`. -/
inductive Json
  | null
  | bool (b : Bool)
  | int (n : ℤ)
  | float (v : Number.PyFloat)
  | str (t : Text)
  | arr (l : List Json)
  | obj (l : List (Text × Json))

/-- A `dict` with string keys; a key occurs once. -/
abbrev Record := List (Text × Json)

/-- `record.get(key)`; a missing key reads `None`. -/
def Record.get (r : Record) (key : Text) : Json := (List.lookup key r).getD .null

def Json.hashable : Json → Bool
  | .arr _ | .obj _ => false
  | _ => true

/-- Python's `==` of a JSON value and an `int`: booleans and floats compare by value. -/
def Json.eqInt (j : Json) (n : ℤ) : Bool :=
  match j with
  | .int m => m = n
  | .bool b => (if b then 1 else 0) = n
  | .float (.finite v) => v = n
  | _ => false

def Json.eqStr (j : Json) (t : Text) : Bool :=
  match j with
  | .str u => u = t
  | _ => false

/-- Why a record is not restored: a missing or wrong-typed field, or a timestamp that `float()` cannot hold. -/
inductive CarryError
  | malformed | overflow
  deriving DecidableEq

/-- `_as_int(record[key])`. -/
def asInt : Option Json → Except CarryError ℤ
  | some (.int n) => .ok n
  | _ => .error .malformed

/-- `_as_float(record[key])`. -/
def asFloat : Option Json → Except CarryError Number.PyFloat
  | some (.int n) => match Binary64.round n with
    | some v => .ok (.finite v)
    | none => .error .overflow
  | some (.float v) => .ok v
  | _ => .error .malformed

/-- `_as_bool(record[key])`. -/
def asBool : Option Json → Except CarryError Bool
  | some (.bool b) => .ok b
  | _ => .error .malformed

/-- `_as_note(record[key])`. -/
def asNote : Option Json → Except CarryError (Option Text)
  | some .null => .ok none
  | some (.str t) => .ok (some (t.take Sched.maxNoteLen))
  | _ => .error .malformed

/-- The fields a record restores. -/
structure Carried where
  lastcheck : ℤ
  downct : ℤ
  contacted : Bool
  deathtime : Number.PyFloat
  lastUp : Number.PyFloat
  acked : Bool
  note : Option Text

/-- `_validated_carry`. -/
def validatedCarry (r : Record) : Except CarryError Carried := do
  let lastcheck ← asInt (r.lookup "lastcheck".toList)
  let downct ← asInt (r.lookup "downct".toList)
  let contacted ← asBool (r.lookup "contacted".toList)
  let deathtime ← asFloat (r.lookup "deathtime".toList)
  let lastUp ← asFloat (r.lookup "last_up".toList)
  let acked ← asBool (r.lookup "acked".toList)
  let note ← asNote (r.lookup "note".toList)
  return ⟨lastcheck, downct, contacted, deathtime, lastUp, acked, note⟩

/-- The writes of one restored record; the re-page timer restarts at `now`. -/
def restoreState (c : Carried) (now : ℚ) (s : NodeState) : NodeState :=
  { s with
    lastcheck := c.lastcheck
    downct := c.downct
    contacted := c.contacted
    deathtime := c.deathtime
    lastUp := c.lastUp
    acked := c.acked
    note := c.note
    lastcontacted := now }

namespace Sched

/-- The record of one object: its key and the fields `_CARRIED`. -/
def exportRecord (S : Sched) (r : ℕ) : Record :=
  let n := (S.objs r).node
  let s := (S.objs r).state
  [("hostname".toList, .str n.hostname), ("type".toList, .str n.checkType.value), ("port".toList, .int n.port),
    ("lastcheck".toList, .int s.lastcheck), ("downct".toList, .int s.downct), ("contacted".toList, .bool s.contacted),
    ("lastcontacted".toList, .float (.finite s.lastcontacted)), ("deathtime".toList, .float s.deathtime),
    ("last_up".toList, .float s.lastUp), ("acked".toList, .bool s.acked),
    ("note".toList, match s.note with | none => .null | some t => .str t)]

/-- `export_state`. -/
def exportState (S : Sched) : List Record := S.scheduled.map S.exportRecord

/-- `current.get(key)`: of several scheduled nodes with one key the dict keeps the last. -/
def current (S : Sched) (hostname type port : Json) : Option ℕ :=
  (S.scheduled.filter fun r =>
    hostname.eqStr (S.objs r).node.hostname && type.eqStr (S.objs r).node.checkType.value &&
      port.eqInt (S.objs r).node.port).getLast?

/-- `import_state`: the scheduler, the numbers of matched and of skipped records, and whether it raised. -/
structure Imported where
  sched : Sched
  matched : ℕ := 0
  skipped : ℕ := 0
  raised : Bool := false

def importLoop (now : ℚ) : List Record → Imported → Imported
  | [], out => out
  | r :: rs, out =>
    let hostname := r.get "hostname".toList
    let type := r.get "type".toList
    let port := r.get "port".toList
    if !(hostname.hashable && type.hashable && port.hashable) then { out with raised := true }
    else
      match out.sched.current hostname type port with
      | none => importLoop now rs out
      | some q =>
        match validatedCarry r with
        | .error .overflow => { out with raised := true }
        | .error .malformed => importLoop now rs { out with skipped := out.skipped + 1 }
        | .ok c => importLoop now rs
            { out with sched := out.sched.modifyState q (restoreState c now), matched := out.matched + 1 }

def importState (S : Sched) (records : List Record) (now : ℚ) : Imported := importLoop now records ⟨S, 0, 0, false⟩

/-! ### What an import writes -/

theorem validatedCarry_exportRecord (S : Sched) (r : ℕ) :
    validatedCarry (S.exportRecord r) = .ok
      ⟨(S.objs r).state.lastcheck, (S.objs r).state.downct, (S.objs r).state.contacted, (S.objs r).state.deathtime,
        (S.objs r).state.lastUp, (S.objs r).state.acked, (S.objs r).state.note.map (·.take maxNoteLen)⟩ := by
  unfold exportRecord
  generalize (S.objs r).node = n
  generalize (S.objs r).state = s
  obtain ⟨-, lastcheck, downct, contacted, lastcontacted, deathtime, lastUp, -, acked, note, -⟩ := s
  cases note <;> rfl

theorem current_mem {S : Sched} {h t p : Json} {q : ℕ} (hq : S.current h t p = some q) : q ∈ S.scheduled :=
  List.mem_of_mem_filter (List.mem_of_getLast? hq)

/-- **Induction over the records**: a property of the scheduler that every validated record keeps. -/
theorem importState_ind (I : Sched → Prop) (records : List Record) (now : ℚ)
    (hstep : ∀ T r c q, r ∈ records → validatedCarry r = .ok c → q ∈ T.scheduled → I T →
      I (T.modifyState q (restoreState c now))) {S : Sched} (h0 : I S) : I (S.importState records now).sched := by
  suffices hloop : ∀ rs out, (∀ r ∈ rs, r ∈ records) → I out.sched → I (importLoop now rs out).sched from
    hloop records ⟨S, 0, 0, false⟩ (fun _ h => h) h0
  intro rs
  induction rs with
  | nil => exact fun out _ h => h
  | cons r rs ih =>
    intro out hsub h
    have htail : ∀ x ∈ rs, x ∈ records := fun x hx => hsub x (by simp [hx])
    unfold importLoop
    dsimp only
    split
    · exact h
    split
    · exact ih out htail h
    · rename_i q hq
      split
      · exact h
      · exact ih _ htail h
      · rename_i c hc
        exact ih _ htail (hstep out.sched r c q (hsub r (by simp)) hc (current_mem hq) h)

end Sched

end Psysmon
