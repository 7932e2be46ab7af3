import Psysmon.Lib.Number
import Psysmon.Status

/-!
# Psysmon.Config.Model — the monitored tree and the per-node runtime state (`config/model.py`)

`Node` is the static configuration of one stanza, `NodeState` the mutable runtime part.  Python's `Node.children`
holds references; a `Forest` is the graph of these references: its nodes by allocation number, each with the
numbers of its children.  Shared children and cycles are representable, dangling references are not.
A Python `float` that is finite is the rational number it denotes.
-/

namespace Psysmon

open Lib

/-- Check types in scope (`CheckType`). -/
inductive CheckType
  | ping | ping6 | tcp | udp | smtp | pop3 | pop3s | imap | imaps | dns | http | https | ssh | mysql
  | ftp | ftps | telnet
  deriving DecidableEq, Repr

/-- The enum's string value, the config keyword. -/
def CheckType.value : CheckType → Text
  | .ping => "ping".toList
  | .ping6 => "ping6".toList
  | .tcp => "tcp".toList
  | .udp => "udp".toList
  | .smtp => "smtp".toList
  | .pop3 => "pop3".toList
  | .pop3s => "pop3s".toList
  | .imap => "imap".toList
  | .imaps => "imaps".toList
  | .dns => "dns".toList
  | .http => "http".toList
  | .https => "https".toList
  | .ssh => "ssh".toList
  | .mysql => "mysql".toList
  | .ftp => "ftp".toList
  | .ftps => "ftps".toList
  | .telnet => "telnet".toList

/-- Default port per type; `none` is "not applicable or supplied explicitly in config". -/
def defaultPort : CheckType → Option ℤ
  | .ping | .ping6 | .tcp | .udp => none
  | .smtp => some 25
  | .pop3 => some 110
  | .pop3s => some 995
  | .imap => some 143
  | .imaps => some 993
  | .dns => some 53
  | .http => some 80
  | .https => some 443
  | .ssh => some 22
  | .mysql => some 3306
  | .ftp => some 21
  | .ftps => some 990
  | .telnet => some 23

/-- True for any ICMP echo check. -/
def isPingType (t : CheckType) : Bool := t = .ping || t = .ping6

/-- Which transitions page (`CONTACT_ON_CHOICES`). -/
inductive ContactOn
  | down | up | both | none
  deriving DecidableEq, Repr

/-- `contact_on in ("down", "both")`. -/
def ContactOn.pagesDown : ContactOn → Bool
  | .down | .both => true
  | .up | .none => false

/-- `contact_on in ("up", "both")`. -/
def ContactOn.pagesUp : ContactOn → Bool
  | .up | .both => true
  | .down | .none => false

/-- The `source` value that leaves a check explicitly unbound. -/
def sourceAuto : Text := "auto".toList

/-- A monitored host or service; `contactOn = none` is the empty string of the source ("use the global
default"). -/
structure Node where
  hostname : Text
  checkType : CheckType
  port : ℤ := 0
  label : Text := []
  contact : Text := []
  group : Text := []
  contactOn : Option ContactOn := none
  source : Option Text := none
  username : Text := []
  password : Text := []
  url : Text := []
  urlText : Option Text := none
  maxDown : ℤ := 2
  interval : Option ℚ := none
  sendPings : Option ℤ := none
  minPings : Option ℤ := none
  deriving DecidableEq

/-- The `(hostname, type, port)` key that reload, restore and the control channel match nodes by. -/
structure NodeKey where
  hostname : Text
  checkType : CheckType
  port : ℤ
  deriving DecidableEq

def Node.key (n : Node) : NodeKey := ⟨n.hostname, n.checkType, n.port⟩

/-- The node with another threshold. -/
def Node.mapMaxDown (g : ℤ → ℤ) (n : Node) : Node := { n with maxDown := g n.maxDown }

/-- Mutable per-node runtime state. -/
structure NodeState where
  maxDown : ℤ := 2
  lastcheck : ℤ := 0
  downct : ℤ := 0
  contacted : Bool := false
  lastcontacted : ℚ := 0
  /-- Wall-clock times; a state file may hold any float. -/
  deathtime : Number.PyFloat := .finite 0
  lastUp : Number.PyFloat := .finite 0
  suppressed : Bool := false
  acked : Bool := false
  note : Option Text := none
  downParents : List Text := []
  deriving DecidableEq

/-- The node graph that a root list reaches. -/
structure Forest where
  /-- The nodes by allocation number, each with its children. -/
  objs : List (Node × List ℕ)
  roots : List ℕ
  roots_lt : ∀ r ∈ roots, r < objs.length
  children_lt : ∀ o ∈ objs, ∀ c ∈ o.2, c < objs.length

namespace Forest

/-- The node with number `i`; out of range it is a ping of the empty hostname, which no reference names. -/
def node (F : Forest) (i : ℕ) : Node := (F.objs[i]?.map Prod.fst).getD ⟨[], .ping, 0, [], [], [], none, none, [], [],
  [], none, 2, none, none, none⟩

/-- The children of node `i`, in order. -/
def children (F : Forest) (i : ℕ) : List ℕ := (F.objs[i]?.map Prod.snd).getD []

theorem children_mem_lt (F : Forest) {i c : ℕ} (h : c ∈ F.children i) : c < F.objs.length := by
  unfold children at h
  cases ho : F.objs[i]? with
  | none => simp [ho] at h
  | some o =>
    rw [ho] at h
    exact F.children_lt o (List.mem_of_getElem? ho) c (by simpa using h)

/-- The forest with another node at every position. -/
def mapNodes (f : Node → Node) (F : Forest) : Forest where
  objs := F.objs.map fun o => (f o.1, o.2)
  roots := F.roots
  roots_lt r hr := by simpa using F.roots_lt r hr
  children_lt o ho c hc := by
    obtain ⟨o', ho', rfl⟩ := List.mem_map.mp ho
    simpa using F.children_lt o' ho' c hc

theorem ext_objs {F G : Forest} (ho : F.objs = G.objs) (hr : F.roots = G.roots) : F = G := by
  cases F
  cases G
  simp_all

end Forest

end Psysmon
