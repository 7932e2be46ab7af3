import Psysmon.Checks.Base
import Psysmon.Config.Legacy
import Psysmon.Config.Modern

/-!
# Psysmon.Checks.Imap — the IMAP check (`checks/imap.py`)

After a ready greeting a node with credentials is checked by a tagged `LOGIN` with two quoted arguments.  The check puts
quotes around the credentials and nothing else; a server reads the arguments by the rule of quoted strings, in which a
backslash escapes a quote or a backslash.

* `unquote_spec`: what a quoted string decodes to is never longer than its text, and as long only if it is its text.
* `login_quoted_iff`: the credentials arrive exactly if neither contains a quote or a backslash.
-/

namespace Psysmon.Checks.Imap

open Lib Session

def tag : Bytes := bytes "a1"

/-- `_read_tagged`, over the outcomes of the reads. -/
def readTaggedFrom (tag : Bytes) : List (Except Exn Bytes) → Except Exn Bytes × List (Except Exn Bytes)
  | [] => (.ok [], [])
  | .error e :: rs => (.error e, rs)
  | .ok line :: rs =>
    if line = [] then (.ok [], rs)
    else if (tag ++ bytes " ").isPrefixOf line then (.ok line, rs)
    else readTaggedFrom tag rs

def readTagged (tag : Bytes) : Session Bytes := fun w =>
  let r := readTaggedFrom tag w.reads
  (r.1, { w with reads := r.2 })

/-- The `LOGIN` command. -/
def loginLine (username password : Text) : Bytes :=
  tag ++ bytes " LOGIN \"" ++ utf8 username ++ bytes "\" \"" ++ utf8 password ++ bytes "\"\r\n"

/-- `_logout`. -/
def logout : Session Unit := send (bytes "a2 LOGOUT\r\n")

/-- `check`, on an open connection. -/
def check (node : Node) : Session Status := do
  let greeting ← readline
  if greeting = [] then return .noResponse
  else if (bytes "* PREAUTH").isPrefixOf greeting then return .ok
  else if !(bytes "* OK").isPrefixOf greeting then return .badResponse
  else if node.username = [] ∨ node.password = [] then return .ok
  else
    send (loginLine node.username node.password)
    let reply ← readTagged tag
    if reply = [] then return .noResponse
    else
      let result := Bytes.lstrip (reply.drop (tag.length + 1))
      if (bytes "OK").isPrefixOf result then
        logout
        return .ok
      else if (bytes "NO").isPrefixOf result then return .badAuth
      else return .badResponse

/-! ### Quoted strings -/

/-- The rest of a quoted string after its opening quote: its value, and what follows its closing quote. -/
def unquote : Bytes → Option (Bytes × Bytes)
  | [] => none
  | [c] => if c = 0x22 then some ([], []) else none
  | c :: d :: rest =>
    if c = 0x22 then some ([], d :: rest)
    else if c = 0x5c then
      if d = 0x22 ∨ d = 0x5c then (unquote rest).map fun r => (d :: r.1, r.2) else none
    else (unquote (d :: rest)).map fun r => (c :: r.1, r.2)

/-- A quoted string at the start. -/
def quotedString : Bytes → Option (Bytes × Bytes)
  | c :: rest => if c = 0x22 then unquote rest else none
  | [] => none

/-- The arguments of a `LOGIN` line: two quoted strings with a space between them, and nothing else. -/
def loginArguments (line : Bytes) : Option (Bytes × Bytes) := do
  let start := tag ++ bytes " LOGIN "
  if !start.isPrefixOf line then none
  else
    let (username, rest) ← quotedString (line.drop start.length)
    if rest.head? ≠ some 0x20 then none
    else
      let (password, rest) ← quotedString rest.tail
      if rest = bytes "\r\n" then some (username, password) else none

theorem unquote_quote (s : Bytes) : unquote (0x22 :: s) = some ([], s) := by
  cases s <;> rfl

theorem unquote_cons {c : UInt8} (s : Bytes) (h1 : c ≠ 0x22) (h2 : c ≠ 0x5c) :
    unquote (c :: s) = (unquote s).map fun r => (c :: r.1, r.2) := by
  cases s with
  | nil => exact if_neg h1
  | cons d rest => rw [unquote, if_neg h1, if_neg h2]

/-- Text without a quote or a backslash stands for itself. -/
theorem unquote_plain {u : Bytes} (rest : Bytes) (h : ∀ b ∈ u, b ≠ 0x22 ∧ b ≠ 0x5c) :
    unquote (u ++ 0x22 :: rest) = some (u, rest) := by
  induction u with
  | nil => exact unquote_quote rest
  | cons c u ih =>
    obtain ⟨h1, h2⟩ := h c (by simp)
    rw [List.cons_append, unquote_cons _ h1 h2, ih fun b hb => h b (by simp [hb])]
    rfl

/-- **Decoding never lengthens**, and a value as long as its text has no quote and no backslash. -/
theorem unquote_spec {s v rest : Bytes} (h : unquote s = some (v, rest)) :
    v.length + 1 + rest.length ≤ s.length ∧
      (s.length = v.length + 1 + rest.length → ∀ b ∈ v, b ≠ 0x22 ∧ b ≠ 0x5c) := by
  fun_induction unquote s generalizing v with
  | case1 => exact (nomatch h)
  | case2 =>
    obtain ⟨rfl, rfl⟩ : [] = v ∧ [] = rest := by simpa using h
    simp
  | case3 => exact (nomatch h)
  | case4 d tail =>
    obtain ⟨rfl, rfl⟩ : [] = v ∧ d :: tail = rest := by simpa using h
    simp [Nat.add_comm]
  | case5 d tail _ _ ih =>
    -- an escape: two bytes for one
    obtain ⟨⟨v', rest'⟩, hr, hv⟩ := Option.map_eq_some_iff.mp h
    simp only [Prod.mk.injEq] at hv
    obtain ⟨rfl, rfl⟩ := hv
    have := (ih hr).1
    refine ⟨by simp only [List.length_cons]; omega, fun hlen => ?_⟩
    simp only [List.length_cons] at hlen
    omega
  | case6 => exact (nomatch h)
  | case7 c d tail h1 h2 ih =>
    obtain ⟨⟨v', rest'⟩, hr, hv⟩ := Option.map_eq_some_iff.mp h
    simp only [Prod.mk.injEq] at hv
    obtain ⟨rfl, rfl⟩ := hv
    obtain ⟨hle, hall⟩ := ih hr
    refine ⟨by simp only [List.length_cons] at hle ⊢; omega, fun hlen b hb => ?_⟩
    simp only [List.length_cons] at hlen hall
    rcases List.mem_cons.mp hb with rfl | hb
    · exact ⟨h1, h2⟩
    · exact hall (by omega) b hb

/-! ### The LOGIN line -/

/-- Neither a quote nor a backslash. -/
def Plain (t : Text) : Prop := ∀ c ∈ t, c ≠ '"' ∧ c ≠ '\\'

theorem plain_iff {t : Text} : Plain t ↔ ∀ b ∈ utf8 t, b ≠ 0x22 ∧ b ≠ 0x5c := by
  have hchar : ∀ (c d : Char), c.val.toNat = d.val.toNat ↔ c = d := by
    intro c d
    rw [UInt32.toNat_inj]
    exact Char.ext_iff.symm
  constructor
  · intro h b hb
    constructor
    · rintro rfl
      obtain ⟨c, hc, hv⟩ := (mem_utf8_iff (by decide)).mp hb
      exact (h c hc).1 ((hchar c '"').mp hv)
    · rintro rfl
      obtain ⟨c, hc, hv⟩ := (mem_utf8_iff (by decide)).mp hb
      exact (h c hc).2 ((hchar c '\\').mp hv)
  · intro h c hc
    constructor
    · rintro rfl
      exact (h 0x22 ((mem_utf8_iff (by decide)).mpr ⟨_, hc, rfl⟩)).1 rfl
    · rintro rfl
      exact (h 0x5c ((mem_utf8_iff (by decide)).mpr ⟨_, hc, rfl⟩)).2 rfl

/-- The arguments that a server reads from the line of the check. -/
theorem loginArguments_loginLine (username password : Text) : loginArguments (loginLine username password) = (do
    let (u, rest) ← unquote (utf8 username ++ 0x22 :: 0x20 :: 0x22 :: (utf8 password ++ [0x22, 0x0d, 0x0a]))
    if rest.head? ≠ some 0x20 then none
    else
      let (p, rest) ← quotedString rest.tail
      if rest = [0x0d, 0x0a] then some (u, p) else none) := by
  have hline : loginLine username password = (tag ++ bytes " LOGIN ") ++
      0x22 :: (utf8 username ++ 0x22 :: 0x20 :: 0x22 :: (utf8 password ++ [0x22, 0x0d, 0x0a])) := by
    have h1 : bytes " LOGIN \"" = bytes " LOGIN " ++ [0x22] := by decide
    have h2 : bytes "\" \"" = [0x22, 0x20, 0x22] := by decide
    have h3 : bytes "\"\r\n" = [0x22, 0x0d, 0x0a] := by decide
    simp only [loginLine, h1, h2, h3, List.append_assoc, List.cons_append, List.nil_append]
  unfold loginArguments
  dsimp only
  rw [hline, List.isPrefixOf_iff_prefix.mpr (List.prefix_append _ _), List.drop_left]
  rfl

/-- **The credentials arrive** exactly if they are plain. -/
theorem loginArguments_iff (username password : Text) :
    loginArguments (loginLine username password) = some (utf8 username, utf8 password) ↔
      Plain username ∧ Plain password := by
  rw [loginArguments_loginLine, plain_iff, plain_iff]
  generalize utf8 username = u
  generalize utf8 password = p
  constructor
  · intro h
    obtain ⟨⟨u', rest⟩, hu, h⟩ := Option.bind_eq_some_iff.mp h
    dsimp only at h
    split at h
    · exact (nomatch h)
    rename_i hhead
    obtain ⟨⟨p', rest'⟩, hp, h⟩ := Option.bind_eq_some_iff.mp h
    dsimp only at h
    split at h
    · rename_i hrest
      obtain ⟨rfl, rfl⟩ : u' = u ∧ p' = p := by simpa using h
      obtain ⟨c, tail, rfl⟩ : ∃ c tail, rest = c :: tail := by
        cases rest with
        | nil => simp at hhead
        | cons c tail => exact ⟨c, tail, rfl⟩
      obtain ⟨d, tail, rfl⟩ : ∃ d tail', tail = d :: tail' := by
        cases tail with
        | nil => simp [quotedString] at hp
        | cons d tail => exact ⟨d, tail, rfl⟩
      simp only [List.tail_cons, quotedString] at hp
      split at hp
      · -- every byte of the line is accounted for, so no value is shorter than its text
        obtain ⟨hle, hplain⟩ := unquote_spec hu
        obtain ⟨hle', hplain'⟩ := unquote_spec hp
        rw [hrest] at hle' hplain'
        simp only [List.length_append, List.length_cons, List.length_nil] at hle hplain hle' hplain'
        exact ⟨hplain (by omega), hplain' (by omega)⟩
      · exact (nomatch hp)
    · exact (nomatch h)
  · rintro ⟨hu, hp⟩
    rw [unquote_plain _ hu]
    show (do
      let (p, rest) ← unquote (p ++ [0x22, 0x0d, 0x0a])
      if rest = [0x0d, 0x0a] then some (u, p) else none) = some (u, p)
    rw [unquote_plain _ hp]
    rfl

theorem readTagged_appends (tag : Bytes) : (readTagged tag).Appends := fun _ => ⟨[], (List.append_nil _).symm⟩

/-- After a ready greeting a node with credentials is sent the `LOGIN` line first. -/
theorem sent_check {node : Node} (hu : node.username ≠ []) (hp : node.password ≠ []) {w : Wire} {greeting : Bytes}
    {reads : List (Except Exn Bytes)} (hw : w.reads = .ok greeting :: reads) (hg : bytes "* OK" <+: greeting) :
    ∃ rest, (check node w).2.sent = w.sent ++ loginLine node.username node.password :: rest := by
  have hread : readline w = (.ok greeting, { w with reads := reads }) := by
    unfold readline
    rw [hw]
  have hne : greeting ≠ [] := by
    rintro rfl
    exact absurd (List.prefix_nil.mp hg) (by decide)
  have hpre : (bytes "* PREAUTH").isPrefixOf greeting = false := by
    rw [← Bool.not_eq_true, List.isPrefixOf_iff_prefix]
    intro h
    -- the two greetings differ in their third byte
    have := List.prefix_of_prefix_length_le hg h (by decide)
    exact absurd this (by decide)
  unfold check
  rw [bind_ok hread, if_neg hne, hpre, List.isPrefixOf_iff_prefix.mpr hg]
  rw [if_neg (by decide), if_neg (by decide), if_neg (by simp [hu, hp])]
  have htail : ∀ {α : Type} {f : Unit → Session α}, (f ()).Appends →
      ∃ rest, ((send (loginLine node.username node.password) >>= f) { w with reads := reads }).2.sent =
        w.sent ++ loginLine node.username node.password :: rest := by
    intro α f hf
    have hsent := sent_send (loginLine node.username node.password) { w with reads := reads }
    rcases hs : send (loginLine node.username node.password) { w with reads := reads } with ⟨e | x, w'⟩
    · rw [bind_error hs]
      rw [hs] at hsent
      exact ⟨[], hsent⟩
    · rw [bind_ok hs]
      rw [hs] at hsent
      obtain ⟨rest, hrest⟩ := hf w'
      exact ⟨rest, by rw [hrest, show w'.sent = _ from hsent, List.append_assoc]; rfl⟩
  refine htail ((readTagged_appends tag).bind fun reply => ?_)
  dsimp only
  split_ifs
  · exact appends_pure _
  · exact (appends_send _).bind fun _ => appends_pure _
  · exact appends_pure _
  · exact appends_pure _

/-- **Quoting**: what the check logs in with after a ready greeting is read back by the server exactly if neither
credential contains a quote or a backslash. -/
theorem login_quoted_iff (node : Node) (hu : node.username ≠ []) (hp : node.password ≠ []) (w : Wire)
    (greeting : Bytes) (reads : List (Except Exn Bytes)) (hw : w.reads = .ok greeting :: reads)
    (hg : bytes "* OK" <+: greeting) :
    ∃ line rest, (check node w).2.sent = w.sent ++ line :: rest ∧
      (loginArguments line = some (utf8 node.username, utf8 node.password) ↔
        Plain node.username ∧ Plain node.password) := by
  obtain ⟨rest, hsent⟩ := sent_check hu hp hw hg
  exact ⟨_, rest, hsent, loginArguments_iff node.username node.password⟩

/-- A server that greets and closes the connection. -/
def greeter : Wire := ⟨[.ok (bytes "* OK ready\r\n")], [], []⟩

/-- The credentials that the server reads, beside those of the node. -/
def loginAt (node : Node) : Option (Bytes × Bytes) × Bytes × Bytes :=
  (loginArguments ((check node greeter).2.sent.headD []), utf8 node.username, utf8 node.password)

/-- A user name with a space arrives. -/
theorem login_quoted_space : ∃ line rest,
    (check { hostname := "m".toList, checkType := .imap, username := "a b".toList, password := "c".toList }
      greeter).2.sent = line :: rest ∧ loginArguments line = some (bytes "a b", bytes "c") := by
  obtain ⟨line, rest, hsent, hiff⟩ := login_quoted_iff
    { hostname := "m".toList, checkType := .imap, username := "a b".toList, password := "c".toList }
    (by decide) (by decide) greeter _ _ rfl (by decide)
  exact ⟨line, rest, hsent, hiff.mpr ⟨by simp [Plain], by simp [Plain]⟩⟩

/-- A quote in a legacy configuration and a backslash in a modern one: both parse, and neither login arrives. -/
theorem login_misread :
    (@Legacy.parse Python.ascii "m imap a\"b c label".toList 2).toOption.map
        (fun r => ((r.roots.toForest.node 0).checkType, loginAt (r.roots.toForest.node 0))) =
      some (.imap, none, bytes "a\"b", bytes "c") ∧
    (@Modern.parse Python.ascii "object m \x7b host m; type imap; username \"a\\\"; password b; \x7d;".toList 2).toOption.map
        (fun r => ((r.roots.node 0).checkType, loginAt (r.roots.node 0))) =
      some (.imap, none, bytes "a\\", bytes "b") :=
  ⟨by decide +kernel, by decide +kernel⟩

end Psysmon.Checks.Imap
