import Psysmon.Config.Globals
import Psysmon.Config.LegacyFlat

/-!
# Psysmon.Config.LegacyRange — what a legacy config can say

Not every node and not every layer of overrides is the reading of a legacy file: fields are split at whitespace, so what
is there is not empty; a stanza is accepted with the fields of its type; sticky values are checked when they are set.

* `positional_hostNode`, `sticky_stamp`: one accepted stanza.
* `nodes_eq_keptFrom`, `accepted_of_parse`: the nodes of a file.
* `collected_handleConfig`, `collected_of_parse`: the overrides, after one directive and of a file.
-/

namespace Psysmon.Legacy

open Lib Text Number Binary64

/-! ### Positional fields -/

/-- The fields of an accepted stanza that depend on its type. -/
def TypeFields (n : Node) : Prop :=
  let plain := n.username = [] ∧ n.password = [] ∧ n.url = [] ∧ n.urlText = none
  let standard := n.port = (defaultPort n.checkType).getD 0
  match n.checkType with
  | .tcp | .udp => 0 < n.port ∧ plain
  | .http | .https => standard ∧ n.url ≠ [] ∧ n.username = [] ∧ n.password = []
  | .pop3 | .pop3s | .imap | .imaps | .ftp | .ftps =>
    standard ∧ (n.username = [] ↔ n.password = []) ∧ n.url = [] ∧ n.urlText = none
  | .dns => standard ∧ n.username ≠ [] ∧ n.contact ≠ [] ∧ n.password = [] ∧ n.url = [] ∧ n.urlText = none
  | .ssh | .mysql | .telnet => 1 ≤ n.port ∧ n.port ≤ 65535 ∧ plain
  | .ping | .ping6 | .smtp => standard ∧ plain

/-- What the positional fields of an accepted stanza are like. -/
structure Positional (n : Node) : Prop where
  hostname : n.hostname ≠ []
  group : n.group = []
  fields : TypeFields n

theorem getD_ne_nil {tokens : List Text} (hf : ∀ t ∈ tokens, IsField t) {i : ℕ} (hi : i < tokens.length) :
    tokens.getD i [] ≠ [] := by
  rw [List.getD_eq_getElem _ _ hi]
  exact (hf _ (List.getElem_mem hi)).1

theorem mem_stanzaTokens {tokens : List Text} {t : Text} (h : t ∈ (stanzaTokens tokens).take 7) : t ∈ tokens := by
  have := List.mem_of_mem_take h
  unfold stanzaTokens at this
  split at this
  · exact List.mem_of_mem_dropLast this
  · exact this

theorem isField_of_directive {raw d v : Text} (h : directive raw = some (d, v)) : IsField v := by
  have hf : ∀ t ∈ (stanzaTokens (split raw)).take 7, IsField t := fun t ht => mem_split (mem_stanzaTokens ht)
  unfold directive at h
  match hfields : (stanzaTokens (split raw)).take 7 with
  | [] | [_] | [_, _] => rw [hfields] at h; cases h
  | first :: d' :: v' :: more =>
    rw [hfields, directiveOf] at h
    split at h
    · obtain ⟨rfl, rfl⟩ := Prod.mk.inj (Option.some.inj h)
      exact hf _ (by rw [hfields]; simp)
    · cases h

/-- A running default comes from a directive. -/
theorem exists_of_lastValue {α : Type} {sets : Text → Text → Option α} {before : List (Text × ℕ)} {a : α}
    (h : lastValue sets before = some a) : ∃ d v, IsField v ∧ sets d v = some a := by
  obtain ⟨l, -, hl⟩ := List.exists_of_findSome?_eq_some h
  obtain ⟨⟨d, v⟩, hd, hv⟩ := Option.bind_eq_some_iff.mp hl
  exact ⟨d, v, isField_of_directive hd, hv⟩

theorem le_of_setsCount {name d v : Text} {c : ℤ} (h : setsCount name d v = some c) : 1 ≤ c := by
  unfold setsCount at h
  split at h
  · cases hv : int v with
    | none => rw [hv] at h; cases h
    | some z =>
      rw [hv] at h
      dsimp only at h
      split at h
      · cases h
      · obtain rfl := Option.some.inj h
        exact not_lt.mp ‹_›
  · cases h

theorem isDouble_of_float {t : Text} {q : ℚ} (h : Number.float t = some (.finite q)) : IsDouble q := by
  unfold Number.float at h
  dsimp only at h
  split at h
  · cases h
  split at h
  · cases h
  obtain ⟨x, -, hx⟩ := Option.map_eq_some_iff.mp h
  cases hr : Binary64.round x with
  | none => rw [hr] at hx; cases hx
  | some v =>
    rw [hr] at hx
    obtain rfl := PyFloat.finite.inj hx
    have hv := Binary64.isDouble_of_round hr
    split
    · exact hv.neg
    · exact hv

section Nodes

variable [Python]

/-- The fields of a stanza, if it is accepted. -/
theorem positional_hostFields {tokens : List Text} (hf : ∀ t ∈ tokens, IsField t) (hlen : 3 ≤ tokens.length)
    {ctype : CheckType} {source : Option Text} {st : State} {node : Node} {message : Option Text}
    (h : hostFields tokens (snapshot (tokens.getD 0 []) ctype source st) = .ok (node, message)) : Positional node := by
  have hne {i : ℕ} (hi : i < tokens.length) : tokens.getD i [] ≠ [] := getD_ne_nil hf hi
  have hhost : tokens.getD 0 [] ≠ [] := hne (by omega)
  unfold hostFields at h
  cases ctype <;> dsimp only [snapshot] at h
  case tcp | udp =>
    split at h
    · cases h
    cases hport : int (tokens.getD 2 []) with
    | none => rw [hport] at h; cases h
    | some port =>
      rw [hport] at h
      dsimp only at h
      split at h
      · cases h
      · rename_i hpos
        obtain ⟨rfl, -⟩ := Prod.mk.inj (Except.ok.inj h)
        exact ⟨hhost, rfl, not_le.mp hpos, rfl, rfl, rfl, rfl⟩
  case http | https =>
    split at h
    · cases h
    rename_i hn
    split at h <;>
    · obtain ⟨rfl, -⟩ := Prod.mk.inj (Except.ok.inj h)
      exact ⟨hhost, rfl, rfl, hne (by omega), rfl, rfl⟩
  case pop3 | pop3s | imap | imaps | ftp | ftps =>
    split at h
    · obtain ⟨rfl, -⟩ := Prod.mk.inj (Except.ok.inj h)
      exact ⟨hhost, rfl, rfl, Iff.rfl, rfl, rfl⟩
    · rename_i hn
      obtain ⟨rfl, -⟩ := Prod.mk.inj (Except.ok.inj h)
      exact ⟨hhost, rfl, rfl, iff_of_false (hne (by omega)) (hne (by omega)), rfl, rfl⟩
  case dns =>
    split at h
    · cases h
    · rename_i hn
      obtain ⟨rfl, -⟩ := Prod.mk.inj (Except.ok.inj h)
      exact ⟨hhost, rfl, rfl, hne (by omega), hne (by omega), rfl, rfl, rfl⟩
  case ssh | mysql | telnet =>
    cases hport : asPort (tokens.getD 2 []) with
    | none =>
      rw [hport] at h
      obtain ⟨rfl, -⟩ := Prod.mk.inj (Except.ok.inj h)
      exact ⟨hhost, rfl, by norm_num [defaultPort], by norm_num [defaultPort], rfl, rfl, rfl, rfl⟩
    | some port =>
      rw [hport] at h
      dsimp only at h
      split at h
      · cases h
      · obtain ⟨rfl, -⟩ := Prod.mk.inj (Except.ok.inj h)
        obtain ⟨h1, h2⟩ : 1 ≤ port ∧ port ≤ 65535 := by simpa using (Option.filter_eq_some_iff.mp hport).2
        exact ⟨hhost, rfl, h1, h2, rfl, rfl, rfl, rfl⟩
  case ping | ping6 | smtp =>
    obtain ⟨rfl, -⟩ := Prod.mk.inj (Except.ok.inj h)
    exact ⟨hhost, rfl, rfl, rfl, rfl, rfl, rfl⟩

theorem exists_of_parseHost {line : ℕ} {tokens : List Text} {st : State} {node : Node}
    (h : (parseHost line tokens st).1 = some node) :
    ∃ ctype source message, hostFields tokens (snapshot (tokens.getD 0 []) ctype source st) = .ok (node, message) := by
  unfold parseHost at h
  cases hm : matchType (tokens.getD 1 []) with
  | none => rw [hm] at h; cases h
  | some k =>
    obtain ⟨keyword, ctype⟩ := k
    rw [hm] at h
    cases ctype with
    | none => cases h
    | some ctype =>
      dsimp only at h
      cases hfields : hostFields tokens (snapshot (tokens.getD 0 []) ctype (sourceFor ctype line st).1 st) with
      | error message => rw [hfields] at h; cases h
      | ok r =>
        obtain ⟨n, message⟩ := r
        rw [hfields] at h
        have hn : n = node := by cases message <;> exact Option.some.inj h
        exact ⟨ctype, _, message, hn ▸ hfields⟩

/-- An accepted stanza has at least three fields, and its node comes from them. -/
theorem exists_of_hostNode {raw : Text} {n : Node} (h : hostNode raw = some n) :
    ∃ tokens, (∀ t ∈ tokens, IsField t) ∧ 3 ≤ tokens.length ∧ ∃ ctype source st message,
      hostFields tokens (snapshot (tokens.getD 0 []) ctype source st) = .ok (n, message) := by
  have hf : ∀ t ∈ (stanzaTokens (split raw)).take 7, IsField t := fun t ht => mem_split (mem_stanzaTokens ht)
  unfold hostNode lineAction parseLine at h
  cases hsplit : split raw with
  | nil => rw [hsplit] at h; cases h
  | cons first tokens =>
    rw [hsplit] at h hf
    dsimp only at h
    split at h
    · cases h
    split at h
    · cases h
    split at h
    · cases h
    split at h
    · cases h
    split at h
    · cases h
    · rename_i hlen
      obtain ⟨ctype, source, message, hfields⟩ := exists_of_parseHost h
      exact ⟨_, hf, not_lt.mp hlen, ctype, source, _, message, hfields⟩

/-- **An accepted stanza** has a host and the fields of its type. -/
theorem positional_hostNode {raw : Text} {n : Node} (h : hostNode raw = some n) : Positional n := by
  obtain ⟨tokens, hf, hlen, ctype, source, st, message, hfields⟩ := exists_of_hostNode h
  exact positional_hostFields hf hlen hfields

/-! ### Sticky fields -/

/-- What the running defaults of a node are like. -/
structure Sticky (n : Node) : Prop where
  interval : ∀ q, n.interval = some q → 0 < q ∧ IsDouble q
  sendPings : ∀ c, n.sendPings = some c → 1 ≤ c
  minPings : ∀ c, n.minPings = some c → 1 ≤ c
  source : ∀ s, n.source = some s → s = sourceAuto ∨ (∀ c ∈ s, isSpace c = false) ∧ Python.lower s ≠ sourceAuto ∧
    Python.ipVersion s = some (if n.checkType = .ping6 then 6 else 4)

theorem sticky_stamp (z : ℤ) (before : List (Text × ℕ)) (n : Node) : Sticky ((defaultsAt z before).stamp n) := by
  refine ⟨fun q hq => ?_, fun c hc => ?_, fun c hc => ?_, fun s hs => ?_⟩
  · obtain ⟨d, v, -, hv⟩ := exists_of_lastValue (hq : lastValue setsInterval before = some q)
    unfold setsInterval at hv
    split at hv
    · cases hfl : Number.float v with
      | none => rw [hfl] at hv; cases hv
      | some x =>
        rw [hfl] at hv
        cases x with
        | inf neg => cases hv
        | nan => cases hv
        | finite y =>
          dsimp only at hv
          split at hv
          · rename_i hpos
            obtain rfl := Option.some.inj hv
            exact ⟨hpos, isDouble_of_float hfl⟩
          · cases hv
    · cases hv
  · obtain ⟨d, v, -, hv⟩ := exists_of_lastValue (hc : lastValue (setsCount _) before = some c)
    exact le_of_setsCount hv
  · obtain ⟨d, v, -, hv⟩ := exists_of_lastValue (hc : lastValue (setsCount _) before = some c)
    exact le_of_setsCount hv
  · obtain ⟨hsrc, hfit⟩ := Option.filter_eq_some_iff.mp (hs : fitting n.checkType (lastValue setsSource before) = some s)
    obtain ⟨d, v, hv, hset⟩ := exists_of_lastValue hsrc
    rcases (of_decide_eq_true hfit : s = sourceAuto ∨ _) with hauto | hversion
    · exact .inl hauto
    unfold setsSource at hset
    split at hset
    · dsimp only at hset
      split at hset
      · exact .inl (Option.some.inj hset).symm
      rename_i hlower
      split at hset
      · obtain rfl := Option.some.inj hset
        exact .inr ⟨fun c hc => hv.2 c (mem_stripBy (mem_stripBy hc)), hlower, hversion⟩
      · cases hset
    · cases hset

/-! ### The nodes of a file -/

/-- The nodes of a file are those of its kept lines. -/
theorem nodes_eq_keptFrom {text : Text} {z : ℤ} {res : ParseResult Siblings} (h : parse text z = .ok res) :
    res.roots.nodes = (keptFrom z [] ((splitlines text).zipIdx 1)).map Kept.node := by
  have hstart : Reading z [] [] [] .nil { numfailures := z } := ⟨rfl, trivial, .nil⟩
  unfold parse at h
  rcases hstart.run (Nat.zero_le _) ((splitlines text).zipIdx 1) with ⟨⟨e, he⟩, -⟩ | ⟨-, outer, cur, st, hrun, hread⟩
  · rw [he] at h
    cases h
  · rw [hrun] at h
    obtain rfl := Except.ok.inj h
    have hrows := hread.rows.imp fun _ _ h => h.1
    rw [← Siblings.map_parents none 0]
    exact List.forall₂_eq_eq_eq ▸ List.forall₂_map_left_iff.mpr (List.forall₂_map_right_iff.mpr hrows)

theorem accepted_of_parse {text : Text} {z : ℤ} {res : ParseResult Siblings} (h : parse text z = .ok res) {n : Node}
    (hn : n ∈ res.roots.nodes) : Positional n ∧ Sticky n := by
  rw [nodes_eq_keptFrom h] at hn
  obtain ⟨k, hk, rfl⟩ := List.mem_map.mp hn
  obtain ⟨before, l, after, -, hat⟩ := mem_keptFrom.mp hk
  obtain ⟨-, n, hnode, rfl⟩ := keptAt_eq_some_iff.mp hat
  have hpos := positional_hostNode hnode
  exact ⟨⟨hpos.hostname, hpos.group, hpos.fields⟩, sticky_stamp z _ n⟩

end Nodes

/-! ### Overrides -/

/-- The values a legacy file can set: strings without line boundaries and known facilities; `queuetime` is a running
default and no override, and `page_on_degraded` can only be switched on. -/
def Settable : (f : Field) → f.Val → Prop
  | .str _, v => OneLine v
  | .float _, _ => False
  | .syslogFacility, fac => ∀ name : Text, fac = some name → name ∈ facilities
  | .bool .pageOnDegraded, on => on = true
  | _, _ => True

/-- The overrides of a legacy file; the two halves of `statusfile` are set together. -/
structure Collected (o : Overrides) : Prop where
  settable : ∀ f v, o f = some v → Settable f v
  status : (o (.bool .statusHtml)).isSome = (o (.str .statusPath)).isSome

section Collected

variable {o : Overrides}

theorem collected_empty : Collected .empty := ⟨fun _ _ h => (nomatch h), rfl⟩

theorem settable_set {f : Field} {v : f.Val} (h : ∀ f v, o f = some v → Settable f v) (hv : Settable f v) :
    ∀ g w, o.set f v g = some w → Settable g w := by
  intro g w hw
  by_cases hg : g = f
  · subst hg
    rw [Overrides.set_self] at hw
    exact Option.some.inj hw ▸ hv
  · rw [Overrides.set_of_ne _ _ hg] at hw
    exact h g w hw

theorem Collected.set (h : Collected o) {f : Field} {v : f.Val} (hv : Settable f v) (hhtml : f ≠ .bool .statusHtml)
    (hpath : f ≠ .str .statusPath) : Collected (o.set f v) := by
  refine ⟨settable_set h.settable hv, ?_⟩
  rw [Overrides.set_of_ne _ _ hhtml.symm, Overrides.set_of_ne _ _ hpath.symm]
  exact h.status

theorem Collected.set_status (h : Collected o) (html : Bool) {path : Text} (hp : OneLine path) :
    Collected (setStatus o html path) := by
  have hhtml : Settable (.bool .statusHtml) html := trivial
  have hself : setStatus o html path (.str .statusPath) = some path := Overrides.set_self ..
  have hother : setStatus o html path (.bool .statusHtml) = some html :=
    (Overrides.set_of_ne _ _ (by decide)).trans (Overrides.set_self ..)
  exact ⟨settable_set (settable_set h.settable hhtml) hp,
    (congrArg Option.isSome hother).trans (congrArg Option.isSome hself).symm⟩

theorem oneLine_pathValue {values : List Text} (hv : ∀ v ∈ values, IsField v) : OneLine (pathValue values) :=
  fun c hc => oneLine_joinSpaces hv c (mem_stripBy (mem_stripBy hc))

theorem collected_setSavestate {line : ℕ} {st : State} (h : Collected st.overrides) {values : List Text}
    (hv : ∀ v ∈ values, IsField v) : Collected (setSavestate line values st).overrides := by
  unfold setSavestate
  split
  · exact h
  · exact h.set (f := .str .statePath) (oneLine_pathValue hv) (fun h => nomatch h) (by decide)

theorem collected_setGlobalStr {line : ℕ} {st : State} (h : Collected st.overrides) {f : StrField}
    (hf : f ≠ .statusPath) (name : Text) {values : List Text} (hv : ∀ v ∈ values, IsField v) :
    Collected (setGlobalStr line f name values st).overrides := by
  have hone : (if name ∈ pathStrGlobals then st else oneValue line name values st).overrides = st.overrides := by
    unfold oneValue
    split
    · rfl
    · split <;> rfl
  have hvalue : OneLine (if name ∈ pathStrGlobals then pathValue values else stripQuotes (values.headD [])) := by
    split
    · exact oneLine_pathValue hv
    · cases values with
      | nil => exact fun c hc => (nomatch hc)
      | cons v values => exact fun c hc => (hv v (by simp)).oneLine c (mem_stripBy hc)
  unfold setGlobalStr
  dsimp only
  generalize (if name ∈ pathStrGlobals then st else oneValue line name values st) = st₁ at hone ⊢
  generalize (if name ∈ pathStrGlobals then pathValue values else stripQuotes (values.headD [])) = value at hvalue ⊢
  have h₁ : Collected st₁.overrides := hone ▸ h
  split
  · exact h₁
  · exact h₁.set (f := .str f) hvalue (fun h => nomatch h) (by simpa using hf)

end Collected

section Directives

variable [Python] {line : ℕ} {st : State} (h : Collected st.overrides)

include h

theorem collected_withInt {token : Text} {k : ℤ → State} (hk : ∀ v, Collected (k v).overrides) :
    Collected (withInt line token st k).overrides := by
  unfold withInt
  cases int token with
  | none => exact h
  | some v => exact hk v

theorem collected_setInt (f : IntField) (token : Text) : Collected (setInt line f token st).overrides :=
  collected_withInt h fun v => h.set (f := .int f) (v := v) trivial (fun h => nomatch h) (fun h => nomatch h)

theorem collected_setLogging (facility : Text) : Collected (setLogging line facility st).overrides := by
  have hdaemon : "daemon".toList ∈ facilities := by decide
  have hfac : Settable .syslogFacility (facilityOf facility) := by
    intro name hname
    unfold facilityOf at hname
    split at hname
    · cases hname
    split at hname
    · exact Option.some.inj hname ▸ ‹_›
    · exact Option.some.inj hname ▸ hdaemon
  rw [overrides_setLogging]
  exact h.set hfac (fun h => nomatch h) (fun h => nomatch h)

theorem collected_setLoglevel (level : Text) : Collected (setLoglevel line level st).overrides := by
  have hset (l : LogLevel) : Collected (st.overrides.set .logLevel l) :=
    h.set (f := .logLevel) trivial (fun h => nomatch h) (fun h => nomatch h)
  unfold setLoglevel
  cases logLevelOf (Python.lower level) with
  | none => exact hset .info
  | some l => exact hset l

theorem collected_setStatusfile {values : List Text} (hv : ∀ v ∈ values, IsField v) :
    Collected (setStatusfile line values st).overrides := by
  unfold setStatusfile
  match values with
  | [] | [_] | _ :: _ :: _ :: _ => exact h
  | [fmt, path] =>
    have hpath : OneLine path := (hv path (by simp)).oneLine
    dsimp only
    split
    · exact h.set_status true hpath
    split
    · exact h.set_status false hpath
    · exact h

theorem collected_setTable {directive : Text} (hd : directive ≠ "queuetime".toList) {values : List Text}
    (hv : ∀ v ∈ values, IsField v) : Collected (setTable line directive values st).overrides := by
  have hone : (oneValue line directive values st).overrides = st.overrides := by
    unfold oneValue
    split <;> rfl
  have hfloat : ∀ x ∈ floatDirectives, x.1 = "queuetime".toList := by decide
  have hstr : ∀ x ∈ strDirectives, x.2 ≠ .statusPath := by decide
  unfold setTable
  split
  · exact collected_setInt (hone ▸ h) _ _
  · rename_i f hf
    exact absurd (hfloat _ (mem_of_lookup hf)) hd
  · rename_i f hf
    exact collected_setGlobalStr h (hstr _ (mem_of_lookup hf)) _ hv
  · rename_i f v hf
    have hst : Collected (if values = [] then st
        else st.warn line ("config ".toList ++ directive ++ " takes no value; ignoring the rest".toList)).overrides := by
      split <;> exact h
    have hx := mem_of_lookup hf
    simp only [flagDirectives, List.mem_cons, List.not_mem_nil, or_false, Prod.mk.injEq] at hx
    rcases hx with ⟨-, hx⟩ | ⟨-, hx⟩ | ⟨-, hx⟩
    · cases hx
      exact hst.set (f := .bool .pageOnDegraded) rfl (by decide) (fun h => nomatch h)
    · cases hx
      exact hst.set (f := .int .heartbeatS) trivial (fun h => nomatch h) (fun h => nomatch h)
    · cases hx
      exact hst.set (f := .bool .controlEnabled) trivial (by decide) (fun h => nomatch h)
  · exact h

/-- **One directive.** -/
theorem collected_handleConfig {tokens : List Text} (hf : ∀ t ∈ tokens, IsField t) :
    Collected (handleConfig line tokens st).overrides := by
  match tokens with
  | [] | [_] => exact h
  | word :: directive :: values =>
    have hv : ∀ v ∈ values, IsField v := fun v hv => hf v (by simp [hv])
    have hone : (oneValue line directive values st).overrides = st.overrides := by
      unfold oneValue
      split <;> rfl
    by_cases hempty : values = [] ∧ (flagDirectives.lookup directive).isNone
    · rw [handleConfig, if_pos hempty]
      exact h
    have hflag (hn : values = []) : (flagDirectives.lookup directive).isSome := by
      simpa [hn, Option.isSome_iff_ne_none] using hempty
    rw [handleConfig_eq hflag]
    cases hs : setterOf directive with
    | int f => exact collected_setInt h f _
    | logging => exact collected_setLogging h _
    | loglevel => exact collected_setLoglevel h _
    | savestate => exact collected_setSavestate h hv
    | statusfile => exact collected_setStatusfile h hv
    | numfailures =>
      exact collected_withInt h fun v =>
        h.set (f := .int .numfailures) (v := v) trivial (fun h => nomatch h) (fun h => nomatch h)
    | sleeptime => exact h
    -- the sticky directives leave the overrides alone
    | contactOn =>
      dsimp only [Setter.run, setContactOn]
      split <;> exact hone ▸ h
    | source =>
      dsimp only [Setter.run, setStickySource]
      split
      · exact hone ▸ h
      · split <;> exact hone ▸ h
    | queuetime =>
      dsimp only [Setter.run, setQueuetime, withFloat]
      split
      · split
        · split <;> exact hone ▸ h
        · exact hone ▸ h
      · exact hone ▸ h
    | sendPings =>
      refine collected_withInt (hone ▸ h) fun v => ?_
      split <;> exact hone ▸ h
    | minPings =>
      refine collected_withInt (hone ▸ h) fun v => ?_
      split <;> exact hone ▸ h
    | table =>
      refine collected_setTable h ?_ hv
      rintro rfl
      cases hs

theorem collected_parseHost (tokens : List Text) : Collected (parseHost line tokens st).2.overrides := by
  have hsource (ctype : CheckType) : (sourceFor ctype line st).2.overrides = st.overrides := by
    unfold sourceFor
    cases st.source with
    | none => rfl
    | some src =>
      generalize some (if ctype = .ping6 then 6 else 4) = version
      dsimp only
      split
      · rfl
      · split <;> rfl
  unfold parseHost
  cases matchType (tokens.getD 1 []) with
  | none => exact h
  | some k =>
    obtain ⟨keyword, ctype⟩ := k
    cases ctype with
    | none => exact h
    | some ctype =>
      dsimp only
      split <;> exact hsource ctype ▸ h

theorem collected_parseLine (raw : Text) : Collected (parseLine line raw st).2.overrides := by
  have hf : ∀ t ∈ (stanzaTokens (split raw)).take 7, IsField t := fun t ht => mem_split (mem_stanzaTokens ht)
  unfold parseLine
  cases hsplit : split raw with
  | nil => exact h
  | cons first tokens =>
    rw [hsplit] at hf
    dsimp only
    have hst : Collected (if 7 < (stanzaTokens (first :: tokens)).length then
        st.warn line "too many fields; using the first 7".toList else st).overrides := by
      split <;> exact h
    split
    · exact h
    split
    · exact h
    split
    · exact hst
    split
    · split <;> exact collected_handleConfig hst hf
    split
    · exact hst
    · exact collected_parseHost hst _

end Directives

variable [Python]

theorem collected_parseBlock {lines : List (Text × ℕ)} {outer : List Outer} {cur t : Siblings} {st st' : State}
    (hst : Collected st.overrides) (h : parseBlock lines outer cur st = .ok (t, st')) : Collected st'.overrides := by
  induction lines generalizing outer cur st with
  | nil =>
    obtain ⟨-, rfl⟩ := Prod.mk.inj (Except.ok.inj h)
    exact hst
  | cons x lines ih =>
    obtain ⟨raw, line⟩ := x
    rw [parseBlock_cons] at h
    cases hb : blockStep line outer cur (parseLine line raw st) with
    | error e => rw [hb] at h; cases h
    | ok b =>
      rw [hb] at h
      have hstate (a : Action) (st : State) : (a.state line (keeps outer) st).overrides = st.overrides := by
        unfold Action.state
        split
        · rfl
        · split <;> rfl
        · rfl
      refine ih ?_ h
      rw [(blockStep_spec hb).2.1, hstate]
      exact collected_parseLine hst raw

/-- **The overrides of a file.** -/
theorem collected_of_parse {text : Text} {z : ℤ} {res : ParseResult Siblings} (h : parse text z = .ok res) :
    Collected res.overrides := by
  unfold parse at h
  cases hb : parseBlock ((splitlines text).zipIdx 1) [] .nil { numfailures := z } with
  | error e => rw [hb] at h; cases h
  | ok r =>
    rw [hb] at h
    obtain rfl := Except.ok.inj h
    exact collected_parseBlock collected_empty hb

end Psysmon.Legacy
