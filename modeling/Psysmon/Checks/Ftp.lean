import Psysmon.Checks.Base

/-!
# Psysmon.Checks.Ftp — the FTP check (`checks/ftp.py`)

The control channel is a stream of replies of one or more lines, which the peer may cut off anywhere.  `_read_reply` takes
the lines of one reply and returns the first; the check goes by the codes at the start of three of them.

* `readline_line`, `finishReply_lines`: one line, and the lines after the first of a reply.
* `readReply_reply`, `readReplies_stream`: one reply, and the replies of a stream one after the other.
* `check_stream`: the check goes by the first lines of three replies.
* `check_replies`: the framing and the verdict.
-/

namespace Psysmon.Checks.Ftp

open Lib Session

/-! ### The check -/

/-- The loop of `_read_reply`, over the outcomes of the reads. -/
def finishFrom (code : Bytes) : List (Except Exn Bytes) → Except Exn Unit × List (Except Exn Bytes)
  | [] => (.ok (), [])
  | .error e :: rs => (.error e, rs)
  | .ok cont :: rs =>
    if cont = [] ∨ (code ++ bytes " ").isPrefixOf cont then (.ok (), rs) else finishFrom code rs

def finishReply (code : Bytes) : Session Unit := fun w =>
  let r := finishFrom code w.reads
  (r.1, { w with reads := r.2 })

/-- `_read_reply`. -/
def readReply : Session Bytes := do
  let line ← readline
  if line = [] then return []
  else if 4 ≤ line.length ∧ (line.drop 3).take 1 = bytes "-" then
    finishReply (line.take 3)
    return line
  else return line

/-- `check`, on an open connection. -/
def check (node : Node) : Session Status := do
  let greeting ← readReply
  if greeting = [] then return .noResponse
  else if !(bytes "220").isPrefixOf greeting then return .badResponse
  else if node.username = [] ∨ node.password = [] then
    gracefulQuit
    return .ok
  else
    send (bytes "USER " ++ utf8 node.username ++ bytes "\r\n")
    let userReply ← readReply
    if userReply = [] then return .noResponse
    else if (bytes "230").isPrefixOf userReply then
      gracefulQuit
      return .ok
    else if (bytes "530").isPrefixOf userReply then return .badAuth
    else if !(bytes "331").isPrefixOf userReply then return .badResponse
    else
      send (bytes "PASS " ++ utf8 node.password ++ bytes "\r\n")
      let passReply ← readReply
      if passReply = [] then return .noResponse
      else if (bytes "230").isPrefixOf passReply then
        gracefulQuit
        return .ok
      else if (bytes "530").isPrefixOf passReply then return .badAuth
      else return .badResponse

/-! ### Replies -/

/-- A line of the stream. -/
structure Line where
  body : Bytes
  noNewline : 0x0a ∉ body

def Line.bytes (l : Line) : Bytes := l.body ++ [0x0a]

/-- The first three bytes. -/
def code (line : Bytes) : Bytes := line.take 3

/-- The line begins with the code and a space. -/
def Ends (c : Bytes) (l : Line) : Prop := c ++ Lib.bytes " " <+: l.bytes

instance (c : Bytes) (l : Line) : Decidable (Ends c l) := inferInstanceAs (Decidable (_ <+: _))

/-- A well-formed reply. -/
inductive Reply
  | single (line : Line) (h : line.bytes[3]? ≠ some 0x2d)
  | multi (first : Line) (h : first.bytes[3]? = some 0x2d) (middle : List Line)
    (hmiddle : ∀ l ∈ middle, ¬ Ends (code first.bytes) l) (last : Line) (hlast : Ends (code first.bytes) last)

def Reply.first : Reply → Bytes
  | .single line _ => line.bytes
  | .multi first _ _ _ _ _ => first.bytes

def Reply.bytes : Reply → Bytes
  | .single line _ => line.bytes
  | .multi first _ middle _ last _ => first.bytes ++ (middle.flatMap Line.bytes ++ last.bytes)

/-- The bytes of a stream of replies. -/
def stream (rs : List Reply) : Bytes := rs.flatMap Reply.bytes

/-- The number of bytes before the reply `i`. -/
def before (rs : List Reply) (i : ℕ) : ℕ := (stream (rs.take i)).length

/-- What the bytes `s` have of the first line of the reply `i`. -/
def firstLine (rs : List Reply) (s : Bytes) (i : ℕ) : Bytes :=
  ((rs[i]?.map Reply.first).getD []).take (s.length - before rs i)

/-! ### Reading a stream -/

/-- The connection with the bytes `s` still to be read, and then its end. -/
def reading (s : Bytes) (w : Wire) : Wire := { w with reads := (Bytes.lines s).map .ok }

theorem Line.length_bytes (l : Line) : l.bytes.length = l.body.length + 1 := by
  rw [Line.bytes, List.length_append, List.length_singleton]

/-- A prefix ends inside a line or reaches beyond it. -/
theorem prefix_line {s rest : Bytes} {l : Line} (h : s <+: l.bytes ++ rest) :
    s <+: l.body ∨ ∃ s', s = l.bytes ++ s' ∧ s' <+: rest := by
  by_cases hlen : l.bytes.length ≤ s.length
  · obtain ⟨s', rfl⟩ := List.prefix_of_prefix_length_le (List.prefix_append l.bytes rest) h hlen
    exact .inr ⟨s', rfl, (List.prefix_append_right_inj _).mp h⟩
  · have hs : s <+: l.bytes := List.prefix_of_prefix_length_le h (List.prefix_append l.bytes rest) (by omega)
    rw [l.length_bytes] at hlen
    exact .inl (List.prefix_of_prefix_length_le hs (List.prefix_append l.body _) (by omega))

/-- **One line**, or what has arrived of it. -/
theorem readline_line {s rest : Bytes} {l : Line} (h : s <+: l.bytes ++ rest) (w : Wire) :
    readline (reading s w) = (.ok (l.bytes.take s.length), reading (s.drop l.bytes.length) w) := by
  rcases prefix_line h with hs | ⟨s', rfl, -⟩
  · have hno : 0x0a ∉ s := fun hmem => l.noNewline (hs.subset hmem)
    have hdrop : s.drop l.bytes.length = [] := by
      rw [List.drop_eq_nil_iff, l.length_bytes]
      exact hs.length_le.trans (Nat.le_succ _)
    have htake : l.bytes.take s.length = s :=
      (List.prefix_iff_eq_take.mp (hs.trans (List.prefix_append l.body _))).symm
    rw [hdrop, htake]
    by_cases hne : s = []
    · subst hne
      rfl
    · unfold readline reading
      rw [Bytes.lines_torn hno hne]
      rfl
  · have hlines : Bytes.lines (l.bytes ++ s') = l.bytes :: Bytes.lines s' := by
      rw [Line.bytes, List.append_assoc]
      exact Bytes.lines_line l.noNewline s'
    rw [List.drop_left, List.length_append, List.take_of_length_le (Nat.le_add_right _ _)]
    unfold readline reading
    rw [hlines]
    rfl

theorem finishReply_readline {w w' : Wire} {cont : Bytes} (c : Bytes) (h : readline w = (.ok cont, w')) :
    finishReply c w =
      if cont = [] ∨ (c ++ bytes " ").isPrefixOf cont then (.ok (), w') else finishReply c w' := by
  obtain ⟨reads, drains, sent⟩ := w
  rcases reads with _ | ⟨e | line, reads⟩
  · cases h
    rw [if_pos (.inl rfl)]
    rfl
  · cases h
  · cases h
    unfold finishReply
    simp only [finishFrom]
    split_ifs <;> rfl

theorem finishReply_end (c : Bytes) (w : Wire) : finishReply c (reading [] w) = (.ok (), reading [] w) := rfl

/-- **The lines after the first** of a reply, up to the one that ends it. -/
theorem finishReply_lines {c : Bytes} {middle : List Line} (hmiddle : ∀ l ∈ middle, ¬ Ends c l) {last : Line}
    (hlast : Ends c last) {s rest : Bytes} (h : s <+: middle.flatMap Line.bytes ++ last.bytes ++ rest) (w : Wire) :
    finishReply c (reading s w) =
      (.ok (), reading (s.drop (middle.flatMap Line.bytes ++ last.bytes).length) w) := by
  induction middle generalizing s with
  | nil =>
    rw [List.flatMap_nil, List.nil_append] at h ⊢
    rw [finishReply_readline c (readline_line h w)]
    rcases prefix_line h with hs | ⟨s', rfl, -⟩
    · -- The line that would end the reply is cut: either way the end of the stream ends it.
      have hdrop : s.drop last.bytes.length = [] := by
        rw [List.drop_eq_nil_iff, last.length_bytes]
        exact hs.length_le.trans (Nat.le_succ _)
      rw [hdrop, finishReply_end, ite_self]
    · rw [List.length_append, List.take_of_length_le (Nat.le_add_right _ _),
        if_pos (.inr (List.isPrefixOf_iff_prefix.mpr hlast))]
  | cons l middle ih =>
    rw [List.flatMap_cons, List.append_assoc, List.append_assoc] at h
    rw [List.flatMap_cons, List.append_assoc, List.length_append, ← List.drop_drop,
      finishReply_readline c (readline_line h w)]
    have hrest : s.drop l.bytes.length <+: middle.flatMap Line.bytes ++ last.bytes ++ rest := by
      have hd := h.drop l.bytes.length
      rwa [List.drop_left, ← List.append_assoc] at hd
    have hnot : ¬ (c ++ bytes " ").isPrefixOf (l.bytes.take s.length) := fun hp =>
      hmiddle l List.mem_cons_self ((List.isPrefixOf_iff_prefix.mp hp).trans (List.take_prefix _ _))
    by_cases hne : l.bytes.take s.length = []
    · rcases List.take_eq_nil_iff.mp hne with hlen | hnil
      · rw [List.length_eq_zero_iff.mp hlen, if_pos (.inl (List.take_zero)), List.drop_nil, List.drop_nil]
      · have hlen := l.length_bytes
        rw [hnil] at hlen
        cases hlen
    · rw [if_neg (not_or.mpr ⟨hne, hnot⟩)]
      exact ih (fun l hl => hmiddle l (List.mem_cons_of_mem _ hl)) hrest

theorem fourth_iff (got : Bytes) :
    (4 ≤ got.length ∧ (got.drop 3).take 1 = bytes "-") ↔ got[3]? = some 0x2d := by
  rw [show bytes "-" = [0x2d] from by decide]
  match got with
  | [] | [_] | [_, _] | [_, _, _] => simp
  | _ :: _ :: _ :: d :: rest => simp

theorem readReply_single {w w' : Wire} {got : Bytes} (h : readline w = (.ok got, w'))
    (hgot : got[3]? ≠ some 0x2d) : readReply w = (.ok got, w') := by
  unfold readReply
  rw [bind_ok h]
  split_ifs with hnil hmulti
  · rw [hnil]
    rfl
  · exact absurd ((fourth_iff got).mp hmulti) hgot
  · rfl

theorem readReply_multi {w w' w'' : Wire} {got : Bytes} (h : readline w = (.ok got, w'))
    (hgot : got[3]? = some 0x2d) (hrest : finishReply (code got) w' = (.ok (), w'')) :
    readReply w = (.ok got, w'') := by
  unfold readReply
  rw [bind_ok h]
  split_ifs with hnil hmulti
  · rw [hnil] at hgot
    cases hgot
  · exact bind_ok hrest
  · exact absurd ((fourth_iff got).mpr hgot) hmulti

/-- **One reply**, or what has arrived of it: its first line is returned and all its lines are read. -/
theorem readReply_reply {s rest : Bytes} {r : Reply} (h : s <+: r.bytes ++ rest) (w : Wire) :
    readReply (reading s w) = (.ok (r.first.take s.length), reading (s.drop r.bytes.length) w) := by
  cases r with
  | single line hline =>
    apply readReply_single (readline_line h w)
    rw [List.getElem?_take]
    split_ifs
    · exact hline
    · simp
  | multi first hfirst middle hmiddle last hlast =>
    rw [Reply.bytes, List.append_assoc] at h
    have hrest : s.drop first.bytes.length <+: middle.flatMap Line.bytes ++ last.bytes ++ rest := by
      have hd := h.drop first.bytes.length
      rwa [List.drop_left] at hd
    rw [Reply.bytes, List.length_append, ← List.drop_drop]
    by_cases hcut : 3 < s.length
    · apply readReply_multi (readline_line h w)
      · rw [List.getElem?_take_of_lt hcut]
        exact hfirst
      · rw [code, List.take_take, Nat.min_eq_left hcut.le]
        exact finishReply_lines hmiddle hlast hrest w
    · -- The cut leaves nothing of the fourth byte, nor of the lines after the first.
      have hlen : 3 < first.bytes.length := (List.getElem?_eq_some_iff.mp hfirst).1
      rw [List.drop_eq_nil_of_le (by omega : s.length ≤ first.bytes.length), List.drop_nil]
      have hread := readline_line h w
      rw [List.drop_eq_nil_of_le (by omega : s.length ≤ first.bytes.length)] at hread
      apply readReply_single hread
      rw [List.getElem?_take, if_neg hcut]
      simp

/-- The next reply of a stream. -/
theorem readReply_stream {rs : List Reply} {s : Bytes} (h : s <+: stream rs) (i : ℕ) (w : Wire) :
    readReply (reading (s.drop (before rs i)) w) =
      (.ok (firstLine rs s i), reading (s.drop (before rs (i + 1))) w) := by
  unfold firstLine before
  rcases hr : rs[i]? with _ | r
  · have hi : rs.length ≤ i := List.getElem?_eq_none_iff.mp hr
    rw [List.take_of_length_le hi, List.take_of_length_le (by omega : rs.length ≤ i + 1),
      List.drop_eq_nil_of_le h.length_le, Option.map_none, Option.getD_none, List.take_nil]
    rfl
  · obtain ⟨hi, rfl⟩ := List.getElem?_eq_some_iff.mp hr
    have hsplit : stream rs = stream (rs.take i) ++ (rs[i].bytes ++ stream (rs.drop (i + 1))) := by
      have hrs : rs = rs.take i ++ rs[i] :: rs.drop (i + 1) := by simp
      calc stream rs = stream (rs.take i ++ rs[i] :: rs.drop (i + 1)) := by rw [← hrs]
        _ = _ := by rw [stream, List.flatMap_append, List.flatMap_cons]; rfl
    have hrest : s.drop (stream (rs.take i)).length <+: rs[i].bytes ++ stream (rs.drop (i + 1)) := by
      have hd := h.drop (stream (rs.take i)).length
      rwa [hsplit, List.drop_left] at hd
    have hnext : (stream (rs.take (i + 1))).length = (stream (rs.take i)).length + rs[i].bytes.length := by
      rw [List.take_add_one, hr, stream, List.flatMap_append, List.length_append]
      simp [stream]
    rw [readReply_reply hrest w, List.length_drop, List.drop_drop, hnext]
    rfl

/-- `n` calls of `_read_reply`. -/
def readReplies : ℕ → Session (List Bytes)
  | 0 => pure []
  | n + 1 => do
    let lines ← readReplies n
    let got ← readReply
    return lines ++ [got]

/-- **Framing**: the calls return the first lines of the replies, one after the other, and read what they return. -/
theorem readReplies_stream {rs : List Reply} {s : Bytes} (h : s <+: stream rs) (n : ℕ) (w : Wire) :
    readReplies n (reading s w) =
      (.ok ((List.range n).map (firstLine rs s)), reading (s.drop (before rs n)) w) := by
  induction n with
  | zero => rfl
  | succ n ih =>
    rw [readReplies, bind_ok ih, bind_ok (readReply_stream h n w), List.range_succ, List.map_append]
    rfl

theorem firstLine_eq_nil_iff {rs : List Reply} {s : Bytes} (h : s <+: stream rs) (i : ℕ) :
    firstLine rs s i = [] ↔ s.length ≤ before rs i := by
  unfold firstLine
  rcases hr : rs[i]? with _ | r
  · have hi : rs.length ≤ i := List.getElem?_eq_none_iff.mp hr
    rw [before, List.take_of_length_le hi]
    exact iff_of_true List.take_nil h.length_le
  · have hne : r.first ≠ [] := by
      cases r <;> exact List.append_ne_nil_of_right_ne_nil _ (List.cons_ne_nil _ _)
    rw [Option.map_some, Option.getD_some, List.take_eq_nil_iff]
    simp only [hne, or_false]
    omega

/-! ### The verdict -/

/-- The verdict on the reply to `PASS`. -/
def passVerdict (pass : Bytes) : Status :=
  if pass = [] then .noResponse
  else if (bytes "230").isPrefixOf pass then .ok
  else if (bytes "530").isPrefixOf pass then .badAuth
  else .badResponse

/-- The verdict on the replies to `USER` and `PASS`. -/
def userVerdict (user pass : Bytes) : Status :=
  if user = [] then .noResponse
  else if (bytes "230").isPrefixOf user then .ok
  else if (bytes "530").isPrefixOf user then .badAuth
  else if !(bytes "331").isPrefixOf user then .badResponse
  else passVerdict pass

/-- The verdict on three replies, by their first lines. -/
def verdict (login : Prop) [Decidable login] (greeting user pass : Bytes) : Status :=
  if greeting = [] then .noResponse
  else if !(bytes "220").isPrefixOf greeting then .badResponse
  else if ¬ login then .ok
  else userVerdict user pass

theorem isPrefixOf_iff_code {c got : Bytes} (hc : c.length = 3) : c.isPrefixOf got = true ↔ code got = c := by
  rw [List.isPrefixOf_iff_prefix, List.prefix_iff_eq_take, hc, code, eq_comm]

theorem send_reading {w : Wire} (hw : ∀ d ∈ w.drains, d = .ok ()) (data s : Bytes) :
    ∃ w', send data (reading s w) = (.ok (), reading s w') ∧ ∀ d ∈ w'.drains, d = .ok () := by
  obtain ⟨reads, drains, sent⟩ := w
  cases drains with
  | nil => exact ⟨⟨reads, [], sent ++ [data]⟩, rfl, hw⟩
  | cons d drains =>
    refine ⟨⟨reads, drains, sent ++ [data]⟩, ?_, fun d' hd' => hw d' (List.mem_cons_of_mem _ hd')⟩
    rw [← hw d List.mem_cons_self]
    rfl

/-- The node has credentials. -/
def Login (node : Node) : Prop := ¬ (node.username = [] ∨ node.password = [])

instance (node : Node) : Decidable (Login node) := inferInstanceAs (Decidable (¬ _))

theorem quit_reading (s : Bytes) {w : Wire} (hw : ∀ d ∈ w.drains, d = .ok ()) :
    ((do gracefulQuit; return .ok : Session Status) (reading s w)).1 = .ok .ok := by
  obtain ⟨w', hsend, -⟩ := send_reading hw (bytes "QUIT\r\n") s
  exact congrArg Prod.fst (bind_ok hsend)

/-- **The dialogue** goes by the first lines of the replies. -/
theorem check_stream {rs : List Reply} {s : Bytes} (h : s <+: stream rs) (node : Node) {w : Wire}
    (hw : ∀ d ∈ w.drains, d = .ok ()) :
    (check node (reading s w)).1 =
      .ok (verdict (Login node) (firstLine rs s 0) (firstLine rs s 1) (firstLine rs s 2)) := by
  have h0 := readReply_stream h 0 w
  rw [show s.drop (before rs 0) = s from rfl] at h0
  obtain ⟨w1, hsend1, hw1⟩ := send_reading hw (bytes "USER " ++ utf8 node.username ++ bytes "\r\n") (s.drop (before rs 1))
  obtain ⟨w2, hsend2, hw2⟩ := send_reading hw1 (bytes "PASS " ++ utf8 node.password ++ bytes "\r\n") (s.drop (before rs 2))
  unfold check verdict userVerdict passVerdict
  rw [bind_ok h0]
  -- every test is made on both sides
  by_cases hdropped : firstLine rs s 0 = []
  · rw [if_pos hdropped, if_pos hdropped]
    rfl
  rw [if_neg hdropped, if_neg hdropped]
  by_cases hready : (!(bytes "220").isPrefixOf (firstLine rs s 0)) = true
  · rw [if_pos hready, if_pos hready]
    rfl
  rw [if_neg hready, if_neg hready]
  by_cases hlogin : Login node
  · rw [if_neg hlogin, if_neg (not_not.mpr hlogin), bind_ok hsend1, bind_ok (readReply_stream h 1 w1)]
    by_cases hdropped : firstLine rs s 1 = []
    · rw [if_pos hdropped, if_pos hdropped]
      rfl
    rw [if_neg hdropped, if_neg hdropped]
    by_cases hin : (bytes "230").isPrefixOf (firstLine rs s 1) = true
    · rw [if_pos hin, if_pos hin]
      exact quit_reading _ hw1
    rw [if_neg hin, if_neg hin]
    by_cases hrefused : (bytes "530").isPrefixOf (firstLine rs s 1) = true
    · rw [if_pos hrefused, if_pos hrefused]
      rfl
    rw [if_neg hrefused, if_neg hrefused]
    by_cases hasked : (!(bytes "331").isPrefixOf (firstLine rs s 1)) = true
    · rw [if_pos hasked, if_pos hasked]
      rfl
    rw [if_neg hasked, if_neg hasked, bind_ok hsend2, bind_ok (readReply_stream h 2 w2)]
    by_cases hdropped : firstLine rs s 2 = []
    · rw [if_pos hdropped, if_pos hdropped]
      rfl
    rw [if_neg hdropped, if_neg hdropped]
    by_cases hin : (bytes "230").isPrefixOf (firstLine rs s 2) = true
    · rw [if_pos hin, if_pos hin]
      exact quit_reading _ hw2
    rw [if_neg hin, if_neg hin]
    split <;> rfl
  · rw [if_pos (not_not.mp hlogin), if_pos hlogin]
    exact quit_reading _ hw

/-- When a verdict is one of four. -/
structure Decides (v : Status) (ok badAuth noResponse : Prop) : Prop where
  ok_iff : v = .ok ↔ ok
  badAuth_iff : v = .badAuth ↔ badAuth
  noResponse_iff : v = .noResponse ↔ noResponse
  other : v = .ok ∨ v = .badAuth ∨ v = .noResponse ∨ v = .badResponse

theorem decides_pass (pass : Bytes) :
    Decides (passVerdict pass) (code pass = bytes "230") (code pass = bytes "530") (pass = []) := by
  have hne : bytes "230" ≠ bytes "530" := by decide
  have hnil : code [] ≠ bytes "230" ∧ code [] ≠ bytes "530" := by decide
  unfold passVerdict
  simp only [isPrefixOf_iff_code (c := bytes "230") (by decide), isPrefixOf_iff_code (c := bytes "530") (by decide)]
  generalize bytes "230" = b at *
  generalize bytes "530" = d at *
  obtain ⟨hnb, hnd⟩ := hnil
  constructor <;> split_ifs <;> simp_all

theorem decides_user {pass : Bytes} {ok badAuth noResponse : Prop} (hpass : Decides (passVerdict pass) ok badAuth noResponse)
    (user : Bytes) :
    Decides (userVerdict user pass) (code user = bytes "230" ∨ (code user = bytes "331" ∧ ok))
      (code user = bytes "530" ∨ (code user = bytes "331" ∧ badAuth))
      (user = [] ∨ (code user = bytes "331" ∧ noResponse)) := by
  have hne : bytes "230" ≠ bytes "331" ∧ bytes "230" ≠ bytes "530" ∧ bytes "530" ≠ bytes "331" := by decide
  have hnil : code [] ≠ bytes "230" ∧ code [] ≠ bytes "331" ∧ code [] ≠ bytes "530" := by decide
  obtain ⟨hok, hauth, hnone, hother⟩ := hpass
  unfold userVerdict
  simp only [Bool.not_eq_true', ← Bool.not_eq_true, isPrefixOf_iff_code (c := bytes "331") (by decide),
    isPrefixOf_iff_code (c := bytes "230") (by decide), isPrefixOf_iff_code (c := bytes "530") (by decide)]
  generalize bytes "230" = b at *
  generalize bytes "331" = c at *
  generalize bytes "530" = d at *
  obtain ⟨hbc, hbd, hdc⟩ := hne
  obtain ⟨hnb, hnc, hnd⟩ := hnil
  constructor <;> split_ifs <;> simp_all

theorem decides_verdict (login : Prop) [Decidable login] (greeting : Bytes) {user pass : Bytes}
    {ok badAuth noResponse : Prop} (huser : Decides (userVerdict user pass) ok badAuth noResponse) :
    Decides (verdict login greeting user pass) (code greeting = bytes "220" ∧ (¬ login ∨ ok))
      (code greeting = bytes "220" ∧ login ∧ badAuth)
      (greeting = [] ∨ (code greeting = bytes "220" ∧ login ∧ noResponse)) := by
  have hnil : code [] ≠ bytes "220" := by decide
  obtain ⟨hok, hauth, hnone, hother⟩ := huser
  unfold verdict
  simp only [Bool.not_eq_true', ← Bool.not_eq_true, isPrefixOf_iff_code (c := bytes "220") (by decide)]
  generalize bytes "220" = a at *
  constructor <;> split_ifs <;> simp_all

/-- The code of the reply `i`. -/
def codeAt (rs : List Reply) (s : Bytes) (i : ℕ) : Bytes := code (firstLine rs s i)

/-- The stream ends before the first byte of the reply `i`. -/
def EndsBefore (rs : List Reply) (s : Bytes) (i : ℕ) : Prop := s.length ≤ before rs i

/-- The check sends `USER`. -/
def SendsUser (node : Node) (rs : List Reply) (s : Bytes) : Prop := codeAt rs s 0 = bytes "220" ∧ Login node

/-- The check sends `PASS`. -/
def SendsPass (node : Node) (rs : List Reply) (s : Bytes) : Prop := SendsUser node rs s ∧ codeAt rs s 1 = bytes "331"

/-- **FTP**: on every stream of replies, cut off anywhere, the calls of `_read_reply` take the replies one by one, and the
check returns the verdict that their codes and the cut decide. -/
theorem check_replies (rs : List Reply) (s : Bytes) (h : s <+: stream rs) (node : Node) (w : Wire)
    (hw : ∀ d ∈ w.drains, d = .ok ()) :
    (∀ n, readReplies n (reading s w) =
      (.ok ((List.range n).map (firstLine rs s)), reading (s.drop (before rs n)) w)) ∧
    ∃ v, (check node (reading s w)).1 = .ok v ∧
      (v = .ok ↔ codeAt rs s 0 = bytes "220" ∧ (¬ Login node ∨ codeAt rs s 1 = bytes "230" ∨
        (codeAt rs s 1 = bytes "331" ∧ codeAt rs s 2 = bytes "230"))) ∧
      (v = .badAuth ↔ (SendsUser node rs s ∧ codeAt rs s 1 = bytes "530") ∨
        (SendsPass node rs s ∧ codeAt rs s 2 = bytes "530")) ∧
      (v = .noResponse ↔ EndsBefore rs s 0 ∨ (SendsUser node rs s ∧ EndsBefore rs s 1) ∨
        (SendsPass node rs s ∧ EndsBefore rs s 2)) ∧
      (v = .ok ∨ v = .badAuth ∨ v = .noResponse ∨ v = .badResponse) := by
  refine ⟨fun n => readReplies_stream h n w, _, check_stream h node hw, ?_⟩
  obtain ⟨hok, hauth, hnone, hother⟩ := decides_verdict (Login node) (firstLine rs s 0)
    (decides_user (decides_pass (firstLine rs s 2)) (firstLine rs s 1))
  simp only [firstLine_eq_nil_iff h] at hnone
  refine ⟨hok, hauth.trans ?_, hnone.trans ?_, hother⟩
  · simp only [SendsUser, SendsPass, codeAt, and_or_left, and_assoc]
  · simp only [SendsUser, SendsPass, codeAt, EndsBefore, and_or_left, and_assoc]

def lineOf (text : String) (h : 0x0a ∉ bytes text) : Line := ⟨bytes text, h⟩

/-- A banner of three lines, of which the second begins with the code of another reply. -/
def banner : Reply :=
  .multi (lineOf "220-welcome\r" (by decide)) (by decide) [lineOf "230 users\r" (by decide)] (by decide)
    (lineOf "220 ready\r" (by decide)) (by decide)

def needPassword : Reply := .single (lineOf "331 password\r" (by decide)) (by decide)

def rejected : Reply := .single (lineOf "530 no\r" (by decide)) (by decide)

/-- A rejected password behind a banner of several lines. -/
theorem check_replies_rejected : ∃ v,
    (check { hostname := "f".toList, checkType := .ftp, username := "u".toList, password := "p".toList }
      (reading (stream [banner, needPassword, rejected]) ⟨[], [], []⟩)).1 = .ok v ∧ v = .badAuth := by
  obtain ⟨-, v, hv, -, hauth, -⟩ := check_replies [banner, needPassword, rejected] _ List.prefix_rfl
    { hostname := "f".toList, checkType := .ftp, username := "u".toList, password := "p".toList } ⟨[], [], []⟩ (by decide)
  exact ⟨v, hv, hauth.mpr (.inr ⟨⟨⟨by decide, by decide⟩, by decide⟩, by decide⟩)⟩

end Psysmon.Checks.Ftp
