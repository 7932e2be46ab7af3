import Psysmon.Config.Model
import Psysmon.Lib.Number

/-!
# Psysmon.Config.Settings — runtime settings (`config/settings.py`)

`Settings` carries the built-in defaults.  The config file and the command line each contribute a layer of
overrides; `merge` applies them in the order defaults < config file < command line.
-/

namespace Psysmon

open Lib Lib.Number

/-- Verbosity of operational logging. -/
inductive LogLevel
  | warning | info | debug
  deriving DecidableEq, Repr

/-- Effective runtime configuration. -/
structure Settings where
  configPath : Text := "/etc/psysmon.conf".toList
  statusPath : Option Text := none
  statusHtml : Bool := true
  statusRefreshS : ℤ := 30
  showUpAlso : Bool := false
  sourceIp : Option Text := none
  orgHostname : Option Text := none
  intervalS : ℚ := 30
  maxConcurrency : ℤ := 50
  numfailures : ℤ := 2
  pageintervalMin : ℤ := 10
  slowCheckS : ℚ := 30
  sendPings : ℤ := 1
  minPings : ℤ := 1
  pageOnDegraded : Bool := false
  contactOn : ContactOn := .both
  dnsexpireS : ℤ := 900
  dnslogS : ℤ := 600
  statePath : Option Text := none
  statesaveS : ℤ := 60
  stateMaxAgeS : ℤ := 86400
  smtpHost : Text := "localhost".toList
  smtpPort : ℤ := 25
  mailFrom : Option Text := none
  notifyEnabled : Bool := true
  syslogFacility : Option Text := some "daemon".toList
  logLevel : LogLevel := .info
  heartbeatS : ℤ := 300
  foreground : Bool := false
  controlEnabled : Bool := false
  controlBind : Text := "127.0.0.1".toList
  controlPort : ℤ := 2026
  controlTokenFile : Option Text := none
  controlTlsCert : Option Text := none
  controlTlsKey : Option Text := none
  deriving DecidableEq

/-! ### Layers of overrides -/

/-- The settings that hold an `int`. -/
inductive IntField
  | statusRefreshS | maxConcurrency | numfailures | pageintervalMin | sendPings | minPings | dnsexpireS | dnslogS
  | statesaveS | stateMaxAgeS | smtpPort | heartbeatS | controlPort
  deriving DecidableEq

/-- The settings that hold a `str`, where they are set. -/
inductive StrField
  | configPath | statusPath | sourceIp | orgHostname | statePath | smtpHost | mailFrom | controlBind
  | controlTokenFile | controlTlsCert | controlTlsKey
  deriving DecidableEq

/-- The settings that hold a `float`. -/
inductive FloatField
  | intervalS | slowCheckS
  deriving DecidableEq

/-- The settings that hold a `bool`. -/
inductive BoolField
  | statusHtml | showUpAlso | pageOnDegraded | notifyEnabled | foreground | controlEnabled
  deriving DecidableEq

/-- A key of an overrides dict: the name of a `Settings` field. -/
inductive Field
  | int (f : IntField)
  | str (f : StrField)
  | float (f : FloatField)
  | bool (f : BoolField)
  | contactOn
  | syslogFacility
  | logLevel
  deriving DecidableEq

/-- The values an overrides dict holds under a key. -/
def Field.Val : Field → Type
  | .int _ => ℤ
  | .str _ => Text
  | .float _ => PyFloat
  | .bool _ => Bool
  | .contactOn => ContactOn
  | .syslogFacility => Option Text
  | .logLevel => LogLevel

/-- A layer of overrides: the dict that a parser or the command line produces, without the order of its keys. -/
def Overrides := ∀ f : Field, Option f.Val

namespace Overrides

/-- The empty dict. -/
def empty : Overrides := fun _ => none

/-- `overrides[f] = v`. -/
def set (o : Overrides) (f : Field) (v : f.Val) : Overrides := Function.update o f (some v)

/-- `overrides.pop(f, None)`. -/
def erase (o : Overrides) (f : Field) : Overrides := Function.update o f none

@[simp] theorem set_self (o : Overrides) (f : Field) (v : f.Val) : o.set f v f = some v := Function.update_self ..

@[simp] theorem set_of_ne (o : Overrides) {f g : Field} (v : f.Val) (h : g ≠ f) : o.set f v g = o g :=
  Function.update_of_ne h ..

end Overrides

/-- The value of a field after `merge`: the command line wins over the config file, the file over the default. -/
def effective (file cli : Overrides) (f : Field) (default : f.Val) : f.Val := ((cli f).or (file f)).getD default

/-- `merge`: the effective settings.  `none` if one of the two durations is not a finite number: the engine's model
counts time in rationals. -/
def merge (file cli : Overrides) : Option Settings :=
  let base : Settings := {}
  match effective file cli (.float .intervalS) (.finite base.intervalS),
    effective file cli (.float .slowCheckS) (.finite base.slowCheckS) with
  | .finite intervalS, .finite slowCheckS => some
    { configPath := effective file cli (.str .configPath) base.configPath
      statusPath := (cli (.str .statusPath)).or (file (.str .statusPath))
      statusHtml := effective file cli (.bool .statusHtml) base.statusHtml
      statusRefreshS := effective file cli (.int .statusRefreshS) base.statusRefreshS
      showUpAlso := effective file cli (.bool .showUpAlso) base.showUpAlso
      sourceIp := (cli (.str .sourceIp)).or (file (.str .sourceIp))
      orgHostname := (cli (.str .orgHostname)).or (file (.str .orgHostname))
      intervalS := intervalS
      maxConcurrency := effective file cli (.int .maxConcurrency) base.maxConcurrency
      numfailures := effective file cli (.int .numfailures) base.numfailures
      pageintervalMin := effective file cli (.int .pageintervalMin) base.pageintervalMin
      slowCheckS := slowCheckS
      sendPings := effective file cli (.int .sendPings) base.sendPings
      minPings := effective file cli (.int .minPings) base.minPings
      pageOnDegraded := effective file cli (.bool .pageOnDegraded) base.pageOnDegraded
      contactOn := effective file cli .contactOn base.contactOn
      dnsexpireS := effective file cli (.int .dnsexpireS) base.dnsexpireS
      dnslogS := effective file cli (.int .dnslogS) base.dnslogS
      statePath := (cli (.str .statePath)).or (file (.str .statePath))
      statesaveS := effective file cli (.int .statesaveS) base.statesaveS
      stateMaxAgeS := effective file cli (.int .stateMaxAgeS) base.stateMaxAgeS
      smtpHost := effective file cli (.str .smtpHost) base.smtpHost
      smtpPort := effective file cli (.int .smtpPort) base.smtpPort
      mailFrom := (cli (.str .mailFrom)).or (file (.str .mailFrom))
      notifyEnabled := effective file cli (.bool .notifyEnabled) base.notifyEnabled
      syslogFacility := effective file cli .syslogFacility base.syslogFacility
      logLevel := effective file cli .logLevel base.logLevel
      heartbeatS := effective file cli (.int .heartbeatS) base.heartbeatS
      foreground := effective file cli (.bool .foreground) base.foreground
      controlEnabled := effective file cli (.bool .controlEnabled) base.controlEnabled
      controlBind := effective file cli (.str .controlBind) base.controlBind
      controlPort := effective file cli (.int .controlPort) base.controlPort
      controlTokenFile := (cli (.str .controlTokenFile)).or (file (.str .controlTokenFile))
      controlTlsCert := (cli (.str .controlTlsCert)).or (file (.str .controlTlsCert))
      controlTlsKey := (cli (.str .controlTlsKey)).or (file (.str .controlTlsKey)) }
  | _, _ => none

end Psysmon
