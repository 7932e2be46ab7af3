import Psysmon.Config.Settings

/-!
# Psysmon.Config.Directives — the tables both parsers share

The keywords of `config <directive>` lines (the tables of `config/modern.py`, which `config/legacy.py` reuses), the
syslog facilities, and the texts of the enumerated settings.
-/

namespace Psysmon

open Lib

/-- What a parser returns: the node forest, the config file's layer of settings, and its warnings. -/
structure ParseResult (ρ : Type) where
  roots : ρ
  overrides : Overrides
  warnings : List Text

/-- A config that a parser refuses. -/
structure ParseError where
  message : Text
  deriving DecidableEq

/-- `_INT_DIRECTIVES`. -/
def intDirectives : List (Text × IntField) :=
  [("pageinterval".toList, .pageintervalMin), ("numfailures".toList, .numfailures), ("dnsexpire".toList, .dnsexpireS),
    ("dnslog".toList, .dnslogS), ("heartbeat".toList, .heartbeatS), ("send_pings".toList, .sendPings),
    ("min_pings".toList, .minPings), ("statesave_interval".toList, .statesaveS),
    ("state_max_age".toList, .stateMaxAgeS), ("maxqueued".toList, .maxConcurrency),
    ("control_port".toList, .controlPort)]

/-- `_FLOAT_DIRECTIVES`. -/
def floatDirectives : List (Text × FloatField) := [("queuetime".toList, .intervalS)]

/-- `_STR_DIRECTIVES`. -/
def strDirectives : List (Text × StrField) :=
  [("savestate".toList, .statePath), ("source_ip".toList, .sourceIp), ("hostname".toList, .orgHostname),
    ("sender".toList, .mailFrom), ("from".toList, .mailFrom), ("control_bind".toList, .controlBind),
    ("control_token_file".toList, .controlTokenFile), ("control_tls_cert".toList, .controlTlsCert),
    ("control_tls_key".toList, .controlTlsKey)]

/-- `_FLAG_DIRECTIVES`: value-less directives, with the field and the value they set. -/
def flagDirectives : List (Text × Σ f : Field, f.Val) :=
  [("page_on_degraded".toList, ⟨.bool .pageOnDegraded, true⟩), ("noheartbeat".toList, ⟨.int .heartbeatS, (0 : ℤ)⟩),
    ("control".toList, ⟨.bool .controlEnabled, true⟩)]

/-- `_FACILITIES`: the valid syslog facilities. -/
def facilities : List Text :=
  ["kern".toList, "user".toList, "mail".toList, "daemon".toList, "auth".toList, "syslog".toList, "lpr".toList,
    "news".toList, "uucp".toList, "cron".toList, "authpriv".toList, "local0".toList, "local1".toList, "local2".toList,
    "local3".toList, "local4".toList, "local5".toList, "local6".toList, "local7".toList]

/-- A member of `CONTACT_ON_CHOICES`, as text. -/
def ContactOn.value : ContactOn → Text
  | .down => "down".toList
  | .up => "up".toList
  | .both => "both".toList
  | .none => "none".toList

/-- `CONTACT_ON_CHOICES`. -/
def contactOnChoices : List ContactOn := [.down, .up, .both, .none]

/-- The choice a text names. -/
def contactOnOf (t : Text) : Option ContactOn := contactOnChoices.find? (·.value = t)

/-- `'/'.join(CONTACT_ON_CHOICES)`. -/
def contactOnText : Text := ['/'].intercalate (contactOnChoices.map ContactOn.value)

/-- A member of `_LOGLEVELS`, as text. -/
def LogLevel.value : LogLevel → Text
  | .warning => "warning".toList
  | .info => "info".toList
  | .debug => "debug".toList

/-- The level a text names. -/
def logLevelOf (t : Text) : Option LogLevel := [LogLevel.warning, .info, .debug].find? (·.value = t)

/-- `line N: message`, the form of every parser warning. -/
def warning (line : ℕ) (message : Text) : Text := "line ".toList ++ Number.natText line ++ ": ".toList ++ message

/-- A pair that a table holds. -/
theorem mem_of_lookup {α β : Type} [BEq α] [LawfulBEq α] {l : List (α × β)} {a : α} {b : β} (h : l.lookup a = some b) :
    (a, b) ∈ l := by
  obtain ⟨l₁, l₂, rfl, -⟩ := List.lookup_eq_some_iff.mp h
  simp

@[simp] theorem contactOnOf_value (c : ContactOn) : contactOnOf c.value = some c := by cases c <;> decide

@[simp] theorem logLevelOf_value (l : LogLevel) : logLevelOf l.value = some l := by cases l <;> decide

end Psysmon
