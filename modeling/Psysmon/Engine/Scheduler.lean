import Psysmon.Lib.Run
import Psysmon.Lib.Search
import Psysmon.Config.Settings
import Psysmon.Engine.Flatten
import Psysmon.Engine.Paging

/-!
# Psysmon.Engine.Scheduler — the monitoring scheduler (`engine/scheduler.py`)

`Sched` is the state of a `Scheduler`: the `_Scheduled` objects ever created, by allocation number, the live set,
the due-time heap and the pending check tasks.  `Sched.step` is one atomic segment of the event loop, from one
suspension point to the next:

* `tick`: dispatch or suppress every due node;
* `finish`: a check returns (or raises); the result is dropped or applied, up to the first `notifier.send`;
* `sent`: that send ends, and the task with it;
* `ack`, `setNote`, `nodeStates`, `clearDirty`, `reload`: the synchronous methods.

A segment carries the clock readings it makes; the monotonic clock never runs backwards.  A `heapq` whose entries
differ in `(due, seq)` is the sorted list of its entries.  Checks that wait for the concurrency semaphore are
`running`, so every order of completions is a run here.
-/

namespace Psysmon

open Lib

/-- A monitored node plus its runtime state and scheduling bookkeeping (`_Scheduled`).  References to these objects
are their allocation numbers. -/
structure Scheduled where
  node : Node
  state : NodeState
  /-- Direct ping parents. -/
  gate : List ℕ
  interval : ℚ
  source : Option Text
  nextDue : ℚ := 0
  inFlight : Bool := false
  checked : Bool := false
  alive : Bool := true

/-- A heap entry `(next_due, seq, sched)`. -/
structure Entry where
  due : ℚ
  seq : ℕ
  sched : ℕ

/-- The tuple order of two entries whose `seq` differ. -/
def Entry.le (a b : Entry) : Prop := a.due < b.due ∨ (a.due = b.due ∧ a.seq ≤ b.seq)

instance : DecidableRel Entry.le := fun a b => by unfold Entry.le; infer_instance

/-- `heapq.heappush`. -/
def heappush (h : List Entry) (e : Entry) : List Entry := h.orderedInsert Entry.le e

/-- `_MIN_INTERVAL_S`: the double nearest to `0.01`. -/
def minIntervalS : ℚ := 5764607523034235 / 2 ^ 59

/-- `_effective_source`. -/
def effectiveSource (settings : Settings) (n : Node) : Option Text :=
  match n.source with
  | some tok =>
    if tok = sourceAuto then none
    else if tok ≠ [] then some tok
    else if isPingType n.checkType then none else settings.sourceIp
  | none => if isPingType n.checkType then none else settings.sourceIp

/-- `node.interval or self._default_interval`, with its floor. -/
def effectiveInterval (settings : Settings) (n : Node) : ℚ :=
  max (match n.interval with
    | some i => if i = 0 then settings.intervalS else i
    | none => settings.intervalS) minIntervalS

/-- The `_Scheduled` that `_flatten` creates for a node. -/
def mkScheduled (settings : Settings) (n : Node) (gate : List ℕ) (wall : ℚ) : Scheduled where
  node := n
  state := { maxDown := n.maxDown, lastUp := wall }
  gate := gate
  interval := effectiveInterval settings n
  source := effectiveSource settings n

/-- Scheduler state. -/
structure Sched where
  settings : Settings
  objs : ℕ → Scheduled
  /-- The number of `_Scheduled` objects created so far. -/
  fresh : ℕ
  scheduled : List ℕ
  heap : List Entry
  heapSeq : ℕ
  tasks : List (ℕ × Phase)
  dirty : Bool
  warnings : List SchedWarning
  /-- The last instant read off the monotonic clock. -/
  mono : ℚ

namespace Sched

def modify (S : Sched) (r : ℕ) (f : Scheduled → Scheduled) : Sched :=
  { S with objs := Function.update S.objs r (f (S.objs r)) }

def modifyState (S : Sched) (r : ℕ) (f : NodeState → NodeState) : Sched :=
  S.modify r fun o => { o with state := f o.state }

/-- `_push`. -/
def push (S : Sched) (r : ℕ) : Sched :=
  { S with heap := heappush S.heap ⟨(S.objs r).nextDue, S.heapSeq, r⟩, heapSeq := S.heapSeq + 1 }

/-- A new check task, or the new phase of one. -/
def addTask (S : Sched) (r : ℕ) (ph : Phase) : Sched := { S with tasks := S.tasks ++ [(r, ph)] }

/-- A task resumes at the instant `t`. -/
def resume (S : Sched) (r : ℕ) (ph : Phase) (t : ℚ) : Sched :=
  { S with tasks := S.tasks.erase (r, ph), mono := t }

/-- `_dirty.set()`, if there is a change to publish. -/
def publish (S : Sched) (changed : Bool) : Sched := { S with dirty := S.dirty || changed }

/-! ### Eligibility -/

/-- `p.checked and is_reachable(p.state.lastcheck)`. -/
def usable (S : Sched) (p : ℕ) : Bool := (S.objs p).checked && isReachable (S.objs p).state.lastcheck

/-- The parents a search climbs to from `p`. -/
def hops (S : Sched) (p : ℕ) : List ℕ := if S.usable p then (S.objs p).gate else []

/-- `p` ends a search: a usable root. -/
def liveRoot (S : Sched) (p : ℕ) : Bool := S.usable p && (S.objs p).gate.isEmpty

/-- Iterations the search from `r` can need: one for every gate edge it may push. -/
def gateFuel (S : Sched) (r : ℕ) : ℕ :=
  (S.objs r).gate.length + ((List.range S.fresh).map fun p => (S.objs p).gate.length).sum + 1

/-- `_eligible` / `_reachable`. -/
def eligible (S : Sched) (r : ℕ) : Bool :=
  (S.objs r).gate.isEmpty || search S.hops S.liveRoot (S.gateFuel r) (S.objs r).gate.reverse []

/-! ### The loop -/

/-- One popped heap entry: dispatched if eligible, otherwise re-queued suppressed. -/
def dispatch (S : Sched) (now : ℚ) (r : ℕ) : Sched :=
  let S := S.modify r fun o => { o with nextDue := now + o.interval }
  if S.eligible r then
    (S.modify r fun o => { o with inFlight := true }).addTask r .running
  else (S.modifyState r fun st => { st with suppressed := true }).push r

def tickLoop (now : ℚ) : ℕ → Sched → Sched
  | 0, S => S
  | n + 1, S =>
    match S.heap with
    | [] => S
    | e :: rest => if e.due ≤ now then tickLoop now n ({ S with heap := rest }.dispatch now e.sched) else S

/-- `tick`: a re-queued entry lies in the future, so no more entries come up than the heap held. -/
def tick (S : Sched) (now : ℚ) : Sched := tickLoop now S.heap.length { S with mono := now }

/-! ### Check execution -/

/-- `node.contact_on or self._contact_on_default`, with the settings that paging reads. -/
def pagingCfg (S : Sched) (r : ℕ) : PagingCfg where
  contactOn := (S.objs r).node.contactOn.getD S.settings.contactOn
  pageintervalS := S.settings.pageintervalMin * 60
  pageOnDegraded := S.settings.pageOnDegraded

/-- The `finally` of `_run_check`. -/
def endTask (S : Sched) (r : ℕ) : Sched :=
  let S := S.modify r fun o => { o with inFlight := false }
  if (S.objs r).alive then S.push r else S

/-- The result of a check is in: `_run_check` from there to its first suspension or its end. -/
def applyVerdict (S : Sched) (r : ℕ) (code : ℤ) (wall now later : ℚ) : Sched × List NodeEvent :=
  if (S.objs r).alive = false then (S.endTask r, [])
  else if S.eligible r = false then
    ((S.modifyState r fun st => { st with suppressed := true }).endTask r, [])
  else
    let c := S.pagingCfg r
    let out := applyAndPage c (S.objs r).state code wall now later
    let S' := S.modify r fun o => { o with state := out.1, checked := true }
    (match out.2.1 with
      | some p => S'.addTask r (.sending p out.2.2)
      | none => (S'.publish out.2.2).endTask r,
      checkEvents c (S.objs r).state code wall now later)

/-- A send has ended, with the rest of `_handle_paging` and `_run_check`; an exception skips the publishing. -/
def applySent (S : Sched) (r : ℕ) (p : Page) (changed : Bool) (out : SendOutcome) (now : ℚ) : Sched :=
  ((S.modifyState r fun st => afterSend st p out now).publish (changed && out ≠ .raised)).endTask r

/-! ### Runtime control -/

/-- `_match`. -/
def matching (S : Sched) (hostname typeValue : Text) (port : ℤ) : List ℕ :=
  S.scheduled.filter fun r =>
    (S.objs r).node.hostname = hostname ∧ (S.objs r).node.checkType.value = typeValue ∧ (S.objs r).node.port = port

def mapStates (S : Sched) (rs : List ℕ) (f : NodeState → NodeState) : Sched :=
  { S with objs := fun r => if r ∈ rs then { S.objs r with state := f (S.objs r).state } else S.objs r }

/-- `ack`. -/
def ack (S : Sched) (hostname typeValue : Text) (port : ℤ) : Sched :=
  let rs := S.matching hostname typeValue port
  (S.mapStates rs fun st => { st with acked := true }).publish (!rs.isEmpty)

def maxNoteLen : ℕ := 1024

/-- `text[:_MAX_NOTE_LEN] if text else None`. -/
def capNote : Option Text → Option Text
  | none => none
  | some t => if t = [] then none else some (t.take maxNoteLen)

/-- `set_note`. -/
def setNote (S : Sched) (hostname typeValue : Text) (port : ℤ) (text : Option Text) : Sched :=
  let rs := S.matching hostname typeValue port
  (S.mapStates rs fun st => { st with note := capNote text }).publish (!rs.isEmpty)

/-- The direct ping parents of `r` that are checked and down. -/
def downParents (S : Sched) (r : ℕ) : List Text :=
  ((S.objs r).gate.filter fun p => (S.objs p).checked && !isReachable (S.objs p).state.lastcheck).map fun p =>
    (S.objs p).node.hostname

/-- `node_states`: it refreshes every `down_parents` list. -/
def nodeStates (S : Sched) : Sched :=
  { S with objs := fun r => if r ∈ S.scheduled then
      { S.objs r with state := { (S.objs r).state with downParents := S.downParents r } } else S.objs r }

/-! ### Construction and reload -/

/-- `previous.get(key)`: of several scheduled nodes with one key the dict keeps the last. -/
def previous (S : Sched) (k : NodeKey) : Option ℕ :=
  (S.scheduled.filter fun r => (S.objs r).node.key = k).getLast?

/-- The fields `_CARRIED` of a surviving node; everything else is fresh. -/
def carryState (old new : NodeState) : NodeState :=
  { new with
    lastcheck := old.lastcheck
    downct := old.downct
    contacted := old.contacted
    lastcontacted := old.lastcontacted
    deathtime := old.deathtime
    lastUp := old.lastUp
    acked := old.acked
    note := old.note }

/-- The merge of one new `_Scheduled` with its predecessor. -/
def carry (S : Sched) (o : Scheduled) : Scheduled :=
  match S.previous o.node.key with
  | none => o
  | some r => { o with state := carryState (S.objs r).state o.state, checked := (S.objs r).checked }

/-- The `_Scheduled` objects of a forest, `_stagger_due` included; the first is allocated at `base`. -/
def newScheduled (settings : Settings) (F : Forest) (base : ℕ) (wall : ℕ → ℚ) (now : ℚ) (stagger : Bool) :
    List Scheduled :=
  (flatten F).order.mapIdx fun i o =>
    { mkScheduled settings (F.node o.1) (o.2.map (base + ·)) (wall i) with
      nextDue := now + if stagger then (i / (flatten F).order.length : ℚ) * settings.intervalS else 0 }

/-- The objects once `news` are created: the scheduled ones before them are orphaned. -/
def allocate (S : Sched) (news : List Scheduled) (r : ℕ) : Scheduled :=
  if r < S.fresh then
    if r ∈ S.scheduled then { S.objs r with alive := false } else S.objs r
  else (news[r - S.fresh]?).getD (S.objs r)

/-- The references of `news`, once they are created. -/
def newRefs (S : Sched) (news : List Scheduled) : List ℕ := (List.range news.length).map (S.fresh + ·)

/-- `_build_heap`. -/
def buildHeap (S : Sched) : Sched := S.scheduled.foldl push { S with heap := [], heapSeq := 0 }

/-- Swap in a new scheduled set and rebuild the heap. -/
def install (S : Sched) (news : List Scheduled) : Sched :=
  { S with
    objs := S.allocate news
    fresh := S.fresh + news.length
    scheduled := S.newRefs news }.buildHeap

/-- The warnings for keys that occur twice among the new nodes. -/
def dupWarnings : List NodeKey → List Scheduled → List SchedWarning
  | _, [] => []
  | seen, o :: os =>
    (if o.node.key ∈ seen then [.duplicate o.node.hostname o.node.checkType o.node.port] else []) ++
      dupWarnings (o.node.key :: seen) os

/-- `reload`. -/
def reload (S : Sched) (F : Forest) (wall : ℕ → ℚ) (now : ℚ) : Sched :=
  let news := newScheduled S.settings F S.fresh wall now true
  { S.install (news.map S.carry) with
    warnings := flattenWarnings F ++ dupWarnings [] news
    mono := now }

/-- `Scheduler(roots, settings)`. -/
def init (settings : Settings) (F : Forest) (wall : ℕ → ℚ) (now : ℚ) (stagger : Bool) : Sched :=
  install
    { settings := settings
      objs := fun _ => ⟨F.node F.objs.length, {}, [], 0, none, 0, false, false, false⟩
      fresh := 0
      scheduled := []
      heap := []
      heapSeq := 0
      tasks := []
      dirty := true
      warnings := flattenWarnings F
      mono := now }
    (newScheduled settings F 0 wall now stagger)

end Sched

/-! ## Runs -/

/-- The atomic segments of the event loop. -/
inductive Label
  | tick (now : ℚ)
  /-- The check of `r` returns `code`, or raises (`none`). -/
  | finish (r : ℕ) (code : Option ℤ) (wall now later : ℚ)
  /-- The `notifier.send` that `r` waits for ends at `ended`. -/
  | sent (r : ℕ) (page : Page) (changed : Bool) (out : SendOutcome) (ended now : ℚ)
  | ack (hostname typeValue : Text) (port : ℤ)
  | setNote (hostname typeValue : Text) (port : ℤ) (text : Option Text)
  | nodeStates
  | clearDirty
  | reload (F : Forest) (wall : ℕ → ℚ) (now : ℚ)

/-- What an observer sees, by `_Scheduled` object. -/
abbrev Event := ℕ × NodeEvent

/-- One atomic segment. -/
def Sched.step (S : Sched) : Label → Option (Sched × List Event)
  | .tick now => if S.mono ≤ now then some (S.tick now, []) else none
  | .finish r code wall now later =>
    if (r, Phase.running) ∈ S.tasks ∧ S.mono ≤ now ∧ now ≤ later then
      let S := S.resume r .running later
      match code with
      | none => some (S.endTask r, [])
      | some code =>
        let out := S.applyVerdict r code wall now later
        some (out.1, out.2.map (r, ·))
    else none
  | .sent r page changed out ended now =>
    if (r, Phase.sending page changed) ∈ S.tasks ∧ S.mono ≤ ended ∧ ended ≤ now then
      let S := S.resume r (.sending page changed) now
      some (S.applySent r page changed out now, [(r, .sendEnd page (out = .delivered) ended)])
    else none
  | .ack hostname typeValue port => some (S.ack hostname typeValue port, [])
  | .setNote hostname typeValue port text => some (S.setNote hostname typeValue port text, [])
  | .nodeStates => some (S.nodeStates, [])
  | .clearDirty => some ({ S with dirty := false }, [])
  | .reload F wall now => if S.mono ≤ now then some (S.reload F wall now, []) else none

def Label.isReload : Label → Bool
  | .reload _ _ _ => true
  | _ => false

/-- The events of one `_Scheduled` object. -/
def eventsOf (r : ℕ) (tr : List Event) : List NodeEvent := (tr.filter (·.1 = r)).map Prod.snd

namespace Sched

/-! ### Frame lemmas -/

section Frame

variable (S : Sched) (r : ℕ) (f : Scheduled → Scheduled) (ph : Phase) (t : ℚ) (b : Bool)

@[simp] theorem modify_scheduled : (S.modify r f).scheduled = S.scheduled := rfl
@[simp] theorem modify_heap : (S.modify r f).heap = S.heap := rfl
@[simp] theorem modify_heapSeq : (S.modify r f).heapSeq = S.heapSeq := rfl
@[simp] theorem modify_tasks : (S.modify r f).tasks = S.tasks := rfl
@[simp] theorem modify_fresh : (S.modify r f).fresh = S.fresh := rfl
@[simp] theorem modify_mono : (S.modify r f).mono = S.mono := rfl
@[simp] theorem modify_settings : (S.modify r f).settings = S.settings := rfl
@[simp] theorem modify_objs_self : (S.modify r f).objs r = f (S.objs r) := by simp [modify]

theorem modify_objs_of_ne {q : ℕ} (h : q ≠ r) : (S.modify r f).objs q = S.objs q := by simp [modify, h]

@[simp] theorem push_scheduled : (S.push r).scheduled = S.scheduled := rfl
@[simp] theorem push_heapSeq : (S.push r).heapSeq = S.heapSeq + 1 := rfl
@[simp] theorem push_tasks : (S.push r).tasks = S.tasks := rfl
@[simp] theorem push_fresh : (S.push r).fresh = S.fresh := rfl
@[simp] theorem push_mono : (S.push r).mono = S.mono := rfl
@[simp] theorem push_settings : (S.push r).settings = S.settings := rfl
@[simp] theorem push_objs : (S.push r).objs = S.objs := rfl

theorem push_heap_perm : (S.push r).heap.Perm (⟨(S.objs r).nextDue, S.heapSeq, r⟩ :: S.heap) :=
  List.perm_orderedInsert _ _ _

@[simp] theorem addTask_scheduled : (S.addTask r ph).scheduled = S.scheduled := rfl
@[simp] theorem addTask_heap : (S.addTask r ph).heap = S.heap := rfl
@[simp] theorem addTask_tasks : (S.addTask r ph).tasks = S.tasks ++ [(r, ph)] := rfl
@[simp] theorem addTask_fresh : (S.addTask r ph).fresh = S.fresh := rfl
@[simp] theorem addTask_mono : (S.addTask r ph).mono = S.mono := rfl
@[simp] theorem addTask_settings : (S.addTask r ph).settings = S.settings := rfl
@[simp] theorem addTask_objs : (S.addTask r ph).objs = S.objs := rfl

@[simp] theorem resume_scheduled : (S.resume r ph t).scheduled = S.scheduled := rfl
@[simp] theorem resume_heap : (S.resume r ph t).heap = S.heap := rfl
@[simp] theorem resume_tasks : (S.resume r ph t).tasks = S.tasks.erase (r, ph) := rfl
@[simp] theorem resume_fresh : (S.resume r ph t).fresh = S.fresh := rfl
@[simp] theorem resume_mono : (S.resume r ph t).mono = t := rfl
@[simp] theorem resume_settings : (S.resume r ph t).settings = S.settings := rfl
@[simp] theorem resume_objs : (S.resume r ph t).objs = S.objs := rfl
@[simp] theorem resume_eligible (q : ℕ) : (S.resume r ph t).eligible q = S.eligible q := rfl

@[simp] theorem publish_scheduled : (S.publish b).scheduled = S.scheduled := rfl
@[simp] theorem publish_heap : (S.publish b).heap = S.heap := rfl
@[simp] theorem publish_heapSeq : (S.publish b).heapSeq = S.heapSeq := rfl
@[simp] theorem publish_tasks : (S.publish b).tasks = S.tasks := rfl
@[simp] theorem publish_fresh : (S.publish b).fresh = S.fresh := rfl
@[simp] theorem publish_mono : (S.publish b).mono = S.mono := rfl
@[simp] theorem publish_settings : (S.publish b).settings = S.settings := rfl
@[simp] theorem publish_objs : (S.publish b).objs = S.objs := rfl

end Frame

/-- The writes between two reloads leave the configuration of every object alone. -/
structure Kept (S S' : Sched) : Prop where
  settings : S'.settings = S.settings
  fresh : S'.fresh = S.fresh
  scheduled : S'.scheduled = S.scheduled
  node : ∀ r, (S'.objs r).node = (S.objs r).node
  gate : ∀ r, (S'.objs r).gate = (S.objs r).gate
  alive : ∀ r, (S'.objs r).alive = (S.objs r).alive
  interval : ∀ r, (S'.objs r).interval = (S.objs r).interval

namespace Kept

variable {S S' S'' : Sched}

theorem refl (S : Sched) : Kept S S := ⟨rfl, rfl, rfl, fun _ => rfl, fun _ => rfl, fun _ => rfl, fun _ => rfl⟩

theorem trans (h : Kept S S') (h' : Kept S' S'') : Kept S S'' :=
  ⟨h'.settings.trans h.settings, h'.fresh.trans h.fresh, h'.scheduled.trans h.scheduled,
    fun r => (h'.node r).trans (h.node r), fun r => (h'.gate r).trans (h.gate r),
    fun r => (h'.alive r).trans (h.alive r), fun r => (h'.interval r).trans (h.interval r)⟩

theorem modify (h : Kept S S') (q : ℕ) (f : Scheduled → Scheduled)
    (hf : ∀ o, (f o).node = o.node ∧ (f o).gate = o.gate ∧ (f o).alive = o.alive ∧ (f o).interval = o.interval) :
    Kept S (S'.modify q f) := by
  have hobj : ∀ r, ((S'.modify q f).objs r).node = (S'.objs r).node ∧
      ((S'.modify q f).objs r).gate = (S'.objs r).gate ∧ ((S'.modify q f).objs r).alive = (S'.objs r).alive ∧
      ((S'.modify q f).objs r).interval = (S'.objs r).interval := by
    intro r
    by_cases hr : r = q
    · subst hr
      rw [modify_objs_self]
      exact hf _
    · rw [modify_objs_of_ne _ _ _ hr]
      exact ⟨rfl, rfl, rfl, rfl⟩
  exact h.trans ⟨rfl, rfl, rfl, fun r => (hobj r).1, fun r => (hobj r).2.1, fun r => (hobj r).2.2.1,
    fun r => (hobj r).2.2.2⟩

theorem modifyState (h : Kept S S') (q : ℕ) (f : NodeState → NodeState) : Kept S (S'.modifyState q f) :=
  h.modify q _ fun _ => ⟨rfl, rfl, rfl, rfl⟩

theorem push (h : Kept S S') (q : ℕ) : Kept S (S'.push q) := h.trans ⟨rfl, rfl, rfl, by simp, by simp, by simp, by simp⟩

theorem publish (h : Kept S S') (b : Bool) : Kept S (S'.publish b) :=
  h.trans ⟨rfl, rfl, rfl, by simp, by simp, by simp, by simp⟩

theorem addTask (h : Kept S S') (q : ℕ) (ph : Phase) : Kept S (S'.addTask q ph) :=
  h.trans ⟨rfl, rfl, rfl, by simp, by simp, by simp, by simp⟩

theorem resume (h : Kept S S') (q : ℕ) (ph : Phase) (t : ℚ) : Kept S (S'.resume q ph t) :=
  h.trans ⟨rfl, rfl, rfl, by simp, by simp, by simp, by simp⟩

theorem endTask (h : Kept S S') (q : ℕ) : Kept S (S'.endTask q) := by
  have h1 := h.modify q (fun o => { o with inFlight := false }) fun _ => ⟨rfl, rfl, rfl, rfl⟩
  unfold Sched.endTask
  dsimp only
  split
  · exact h1.push q
  · exact h1

theorem dispatch (h : Kept S S') (now : ℚ) (q : ℕ) : Kept S (S'.dispatch now q) := by
  have h1 := h.modify q (fun o => { o with nextDue := now + o.interval }) fun _ => ⟨rfl, rfl, rfl, rfl⟩
  unfold Sched.dispatch
  dsimp only
  split
  · refine Kept.addTask (h1.modify q _ ?_) q .running
    exact fun _ => ⟨rfl, rfl, rfl, rfl⟩
  · exact (h1.modifyState q _).push q

theorem tickLoop (now : ℚ) : ∀ (n : ℕ) {S' : Sched}, Kept S S' → Kept S (Sched.tickLoop now n S')
  | 0, _, h => h
  | n + 1, S', h => by
    unfold Sched.tickLoop
    split
    · exact h
    · rename_i e rest _
      split
      · have h1 : Kept S { S' with heap := rest } := h.trans ⟨rfl, rfl, rfl, by simp, by simp, by simp, by simp⟩
        exact tickLoop now n (h1.dispatch now e.sched)
      · exact h

theorem applyVerdict (h : Kept S S') (q : ℕ) (code : ℤ) (wall now later : ℚ) :
    Kept S (S'.applyVerdict q code wall now later).1 := by
  unfold Sched.applyVerdict
  split
  · exact h.endTask q
  split
  · exact (h.modifyState q _).endTask q
  · have h1 := h.modify q (fun o => { o with
      state := (applyAndPage (S'.pagingCfg q) (S'.objs q).state code wall now later).1, checked := true })
      fun _ => ⟨rfl, rfl, rfl, rfl⟩
    dsimp only
    split
    · exact h1.addTask q _
    · exact (h1.publish _).endTask q

theorem applySent (h : Kept S S') (q : ℕ) (p : Page) (ch : Bool) (out : SendOutcome) (now : ℚ) :
    Kept S (S'.applySent q p ch out now) :=
  ((h.modifyState q _).publish _).endTask q

theorem mapStates (h : Kept S S') (rs : List ℕ) (f : NodeState → NodeState) : Kept S (S'.mapStates rs f) := by
  refine h.trans ⟨rfl, rfl, rfl, fun r => ?_, fun r => ?_, fun r => ?_, fun r => ?_⟩ <;>
  · simp only [Sched.mapStates]
    split <;> rfl

theorem nodeStates (h : Kept S S') : Kept S S'.nodeStates := by
  refine h.trans ⟨rfl, rfl, rfl, fun r => ?_, fun r => ?_, fun r => ?_, fun r => ?_⟩ <;>
  · simp only [Sched.nodeStates]
    split <;> rfl

end Kept

section Install

variable (S : Sched) (news : List Scheduled)

theorem foldl_push_frame : ∀ (refs : List ℕ) (S : Sched),
    ∃ h n, refs.foldl push S = { S with heap := h, heapSeq := n }
  | [], S => ⟨S.heap, S.heapSeq, rfl⟩
  | r :: refs, S => by
    obtain ⟨h, n, hS⟩ := foldl_push_frame refs (S.push r)
    exact ⟨h, n, hS⟩

theorem install_frame : ∃ h n, S.install news =
    { S with
      objs := S.allocate news
      fresh := S.fresh + news.length
      scheduled := S.newRefs news
      heap := h
      heapSeq := n } := by
  obtain ⟨h, n, hS⟩ := foldl_push_frame (S.newRefs news)
    { S with
      objs := S.allocate news
      fresh := S.fresh + news.length
      scheduled := S.newRefs news
      heap := []
      heapSeq := 0 }
  exact ⟨h, n, hS⟩

theorem mem_newRefs {q : ℕ} : q ∈ S.newRefs news ↔ S.fresh ≤ q ∧ q < S.fresh + news.length := by
  simp only [newRefs, List.mem_map, List.mem_range]
  constructor
  · rintro ⟨i, hi, rfl⟩
    omega
  · rintro ⟨h1, h2⟩
    exact ⟨q - S.fresh, by omega, by omega⟩

theorem newRefs_nodup : (S.newRefs news).Nodup :=
  List.nodup_range.map fun a b hab => by simpa using hab

/-- The object behind a new reference. -/
theorem allocate_new {q : ℕ} (h : q ∈ S.newRefs news) : ∃ o ∈ news, S.allocate news q = o := by
  obtain ⟨h1, h2⟩ := (S.mem_newRefs news).mp h
  have hlt : q - S.fresh < news.length := by omega
  refine ⟨news[q - S.fresh], List.getElem_mem hlt, ?_⟩
  rw [allocate, if_neg (by omega), List.getElem?_eq_getElem hlt, Option.getD_some]

/-- An older object is as it was, but for `alive`. -/
theorem allocate_old {q : ℕ} (h : q < S.fresh) :
    S.allocate news q = { S.objs q with alive := (S.objs q).alive && q ∉ S.scheduled } := by
  rw [allocate, if_pos h]
  by_cases hq : q ∈ S.scheduled
  · simp [hq]
  · rw [if_neg hq]
    simp [hq]

theorem allocate_beyond {q : ℕ} (h : S.fresh + news.length ≤ q) : S.allocate news q = S.objs q := by
  rw [allocate, if_neg (by omega), List.getElem?_eq_none (by omega), Option.getD_none]

variable (F : Forest) (wall : ℕ → ℚ) (now : ℚ)

/-- The objects a reload creates: new nodes with the carried state of their predecessors. -/
def reloaded : List Scheduled := (newScheduled S.settings F S.fresh wall now true).map S.carry

theorem reload_frame : (S.reload F wall now).tasks = S.tasks ∧ (S.reload F wall now).settings = S.settings ∧
    (S.reload F wall now).fresh = S.fresh + (S.reloaded F wall now).length ∧
    (S.reload F wall now).scheduled = S.newRefs (S.reloaded F wall now) ∧
    (S.reload F wall now).objs = S.allocate (S.reloaded F wall now) := by
  obtain ⟨h, n, hS⟩ := S.install_frame (S.reloaded F wall now)
  unfold reloaded at hS
  unfold reload reloaded
  dsimp only
  rw [hS]
  exact ⟨rfl, rfl, rfl, rfl, rfl⟩

/-- A reload leaves an older object alone, but for `alive`. -/
theorem reload_old {r : ℕ} (hr : r < S.fresh) :
    (S.reload F wall now).objs r = { S.objs r with alive := (S.objs r).alive && r ∉ S.scheduled } := by
  rw [(S.reload_frame F wall now).2.2.2.2]
  exact S.allocate_old _ hr

end Install

end Sched

/-! ### What one segment can do -/

/-- The segments, each with its guard and its effect. -/
inductive Stepped (S : Sched) : Label → Sched → List Event → Prop
  | tick {now : ℚ} (h : S.mono ≤ now) : Stepped S (.tick now) (S.tick now) []
  /-- The check raised. -/
  | raised {r : ℕ} {wall now later : ℚ} (ht : (r, Phase.running) ∈ S.tasks) (hn : S.mono ≤ now) (hl : now ≤ later) :
    Stepped S (.finish r none wall now later) ((S.resume r .running later).endTask r) []
  | verdict {r : ℕ} {code : ℤ} {wall now later : ℚ} (ht : (r, Phase.running) ∈ S.tasks) (hn : S.mono ≤ now)
      (hl : now ≤ later) :
    Stepped S (.finish r (some code) wall now later)
      ((S.resume r .running later).applyVerdict r code wall now later).1
      (((S.resume r .running later).applyVerdict r code wall now later).2.map (r, ·))
  | sent {r : ℕ} {p : Page} {ch : Bool} {out : SendOutcome} {ended now : ℚ} (ht : (r, Phase.sending p ch) ∈ S.tasks)
      (he : S.mono ≤ ended) (hn : ended ≤ now) :
    Stepped S (.sent r p ch out ended now) ((S.resume r (.sending p ch) now).applySent r p ch out now)
      [(r, .sendEnd p (out = .delivered) ended)]
  | ack {h t : Text} {p : ℤ} : Stepped S (.ack h t p) (S.ack h t p) []
  | setNote {h t : Text} {p : ℤ} {x : Option Text} : Stepped S (.setNote h t p x) (S.setNote h t p x) []
  | nodeStates : Stepped S .nodeStates S.nodeStates []
  | clearDirty : Stepped S .clearDirty { S with dirty := false } []
  | reload {F : Forest} {wall : ℕ → ℚ} {now : ℚ} (h : S.mono ≤ now) :
    Stepped S (.reload F wall now) (S.reload F wall now) []

theorem Sched.stepped {S S' : Sched} {a : Label} {o : List Event} (hs : S.step a = some (S', o)) :
    Stepped S a S' o := by
  cases a with
  | tick now =>
    simp only [Sched.step, Option.ite_none_right_eq_some, Option.some.injEq, Prod.mk.injEq] at hs
    obtain ⟨h, rfl, rfl⟩ := hs
    exact .tick h
  | finish r code wall now later =>
    simp only [Sched.step, Option.ite_none_right_eq_some] at hs
    obtain ⟨⟨ht, hn, hl⟩, hs⟩ := hs
    cases code with
    | none =>
      simp only [Option.some.injEq, Prod.mk.injEq] at hs
      obtain ⟨rfl, rfl⟩ := hs
      exact .raised ht hn hl
    | some code =>
      simp only [Option.some.injEq, Prod.mk.injEq] at hs
      obtain ⟨rfl, rfl⟩ := hs
      exact .verdict ht hn hl
  | sent r page ch out ended now =>
    simp only [Sched.step, Option.ite_none_right_eq_some, Option.some.injEq, Prod.mk.injEq] at hs
    obtain ⟨⟨ht, he, hn⟩, rfl, rfl⟩ := hs
    exact .sent ht he hn
  | ack h t p =>
    simp only [Sched.step, Option.some.injEq, Prod.mk.injEq] at hs
    obtain ⟨rfl, rfl⟩ := hs
    exact .ack
  | setNote h t p x =>
    simp only [Sched.step, Option.some.injEq, Prod.mk.injEq] at hs
    obtain ⟨rfl, rfl⟩ := hs
    exact .setNote
  | nodeStates =>
    simp only [Sched.step, Option.some.injEq, Prod.mk.injEq] at hs
    obtain ⟨rfl, rfl⟩ := hs
    exact .nodeStates
  | clearDirty =>
    simp only [Sched.step, Option.some.injEq, Prod.mk.injEq] at hs
    obtain ⟨rfl, rfl⟩ := hs
    exact .clearDirty
  | reload F wall now =>
    simp only [Sched.step, Option.ite_none_right_eq_some, Option.some.injEq, Prod.mk.injEq] at hs
    obtain ⟨h, rfl, rfl⟩ := hs
    exact .reload h

/-- Only a reload changes the scheduled set or an object's configuration. -/
theorem Stepped.kept {S S' : Sched} {a : Label} {o : List Event} (hs : Stepped S a S' o) (ha : a.isReload = false) :
    S.Kept S' := by
  cases hs with
  | tick => exact Sched.Kept.tickLoop _ _ ⟨rfl, rfl, rfl, fun _ => rfl, fun _ => rfl, fun _ => rfl, fun _ => rfl⟩
  | raised => exact ((Sched.Kept.refl S).resume _ _ _).endTask _
  | verdict => exact ((Sched.Kept.refl S).resume _ _ _).applyVerdict _ _ _ _ _
  | sent => exact ((Sched.Kept.refl S).resume _ _ _).applySent _ _ _ _ _
  | ack => exact ((Sched.Kept.refl S).mapStates _ _).publish _
  | setNote => exact ((Sched.Kept.refl S).mapStates _ _).publish _
  | nodeStates => exact (Sched.Kept.refl S).nodeStates
  | clearDirty => exact ⟨rfl, rfl, rfl, fun _ => rfl, fun _ => rfl, fun _ => rfl, fun _ => rfl⟩
  | reload => simp [Label.isReload] at ha

end Psysmon
