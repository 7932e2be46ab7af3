import Psysmon.Lib.Bytes
import Psysmon.Lib.FileProg
import Psysmon.Control.Server

/-!
# Psysmon.Control.Token — token files (`control/token.py`, `control/auth.py`, `control/client.py`)

`psysmon-token` writes a token file, the daemon loads it at its start, and `psysmonctl` reads it for each request.  The
daemon reads bytes and the client reads text, with the line ends translated; both strip white space.

* `loadToken_generate`, `clientToken_generate`: both read a generated token back.
* `token_file_works_iff`: the files with which the client is authorised, among all that the daemon accepts.
-/

namespace Psysmon.Control

open Lib Text

/-- `bytes.decode("utf-8")`; `none` is `UnicodeDecodeError`. -/
def decodeUtf8 (b : Bytes) : Option Text := b.toByteArray.utf8Decode?.map Array.toList

theorem decodeUtf8_utf8 (t : Text) : decodeUtf8 (utf8 t) = some t := by
  have h : (utf8 t).toByteArray.utf8Decode? = some t.toArray := List.utf8Decode?_utf8Encode
  rw [decodeUtf8, h]
  rfl

/-- The translation of line ends in text mode, after a carriage return if `cr`. -/
def translate (cr : Bool) : Text → Text
  | [] => []
  | c :: t =>
    if c = '\r' then '\n' :: translate true t
    else if c = '\n' ∧ cr = true then translate false t
    else c :: translate false t

/-- The errors of `load_token`. -/
inductive TokenError
  | cannotOpen | accessible | tooLarge | notUtf8 | empty
  deriving DecidableEq

/-- `load_token`, on POSIX. -/
def loadToken (file : Option (File Bytes)) : Except TokenError Text :=
  match file with
  | none => .error .cannotOpen
  | some f =>
    if f.mode &&& 0o077 ≠ 0 then .error .accessible
    else if f.bytes.length > maxTokenLen then .error .tooLarge
    else
      match decodeUtf8 f.bytes with
      | none => .error .notUtf8
      | some text => if strip text = [] then .error .empty else .ok (strip text)

/-- The token that `psysmonctl` sends; `none` where it gives up. -/
def clientToken (file : Option (File Bytes)) : Option Text :=
  file.bind fun f => (decodeUtf8 f.bytes).map fun text => strip (translate false text)

/-- A character of the URL-safe Base64 alphabet. -/
def base64Char (n : ℕ) : Char :=
  Char.ofNat (if n < 26 then 65 + n else if n < 52 then 71 + n else if n < 62 then n - 4 else if n = 62 then 45 else 95)

/-- `secrets.token_urlsafe`, of random bytes. -/
def tokenUrlsafe : Bytes → Text
  | [] => []
  | [a] => [base64Char (a.toNat / 4), base64Char (a.toNat % 4 * 16)]
  | [a, b] => [base64Char (a.toNat / 4), base64Char (a.toNat % 4 * 16 + b.toNat / 16), base64Char (b.toNat % 16 * 4)]
  | a :: b :: c :: rest =>
    base64Char (a.toNat / 4) :: base64Char (a.toNat % 4 * 16 + b.toNat / 16) ::
      base64Char (b.toNat % 16 * 4 + c.toNat / 64) :: base64Char (c.toNat % 64) :: tokenUrlsafe rest

/-- `_TOKEN_BYTES`. -/
def tokenBytes : ℕ := 32

/-- `generate`, over what is at the path; `none` is `FileExistsError`. -/
def generate (existing : Option (File Bytes)) (force : Bool) (random : Bytes) : Option (File Bytes) :=
  if existing.isSome ∧ force = false then none else some ⟨utf8 (tokenUrlsafe random ++ ['\n']), 0o600⟩

/-! ### Line ends -/

theorem return_not_mem_translate : ∀ (t : Text) (cr : Bool), '\r' ∉ translate cr t
  | [], _ => List.not_mem_nil
  | c :: t, cr => by
    rw [translate]
    split
    · exact List.not_mem_cons_of_ne_of_not_mem (by decide) (return_not_mem_translate t true)
    · rename_i hc
      split
      · exact return_not_mem_translate t false
      · exact List.not_mem_cons_of_ne_of_not_mem (Ne.symm hc) (return_not_mem_translate t false)

/-- White space stays white space. -/
theorem isSpace_translate : ∀ {t : Text} (cr : Bool), (∀ c ∈ t, isSpace c = true) → ∀ c ∈ translate cr t, isSpace c = true
  | [], _, _ => fun c hc => absurd hc List.not_mem_nil
  | d :: t, cr, h => by
    obtain ⟨hd, ht⟩ := List.forall_mem_cons.mp h
    rw [translate]
    split
    · exact List.forall_mem_cons.mpr ⟨by decide, isSpace_translate true ht⟩
    · split
      · exact isSpace_translate false ht
      · exact List.forall_mem_cons.mpr ⟨hd, isSpace_translate false ht⟩

/-- Without a carriage return nothing is translated. -/
theorem translate_append_of_not_mem : ∀ {t : Text} (_ : '\r' ∉ t) (rest : Text),
    translate false (t ++ rest) = t ++ translate false rest
  | [], _, _ => rfl
  | c :: t, h, rest => by
    obtain ⟨hc, ht⟩ := not_or.mp (List.mem_cons.not.mp h)
    rw [List.cons_append, translate, if_neg (Ne.symm hc), if_neg (by simp), translate_append_of_not_mem ht rest,
      List.cons_append]

/-- Leading white space is translated on its own. -/
theorem translate_append : ∀ (s rest : Text) (cr : Bool), ∃ cr', translate cr (s ++ rest) = translate cr s ++ translate cr' rest
  | [], rest, cr => ⟨cr, rfl⟩
  | c :: s, rest, cr => by
    rw [List.cons_append, translate, translate]
    split
    · obtain ⟨cr', h⟩ := translate_append s rest true
      exact ⟨cr', by rw [h, List.cons_append]⟩
    · split
      · exact translate_append s rest false
      · obtain ⟨cr', h⟩ := translate_append s rest false
        exact ⟨cr', by rw [h, List.cons_append]⟩

/-! ### Stripped texts -/

theorem rdropWhile_append_space {e : Text} (he : ∀ c ∈ e, isSpace c = true) (t : Text) :
    (t ++ e).rdropWhile isSpace = t.rdropWhile isSpace := by
  induction e using List.reverseRecOn with
  | nil => rw [List.append_nil]
  | append_singleton e c ih =>
    obtain ⟨he, hc⟩ := List.forall_mem_append.mp he
    rw [← List.append_assoc, List.rdropWhile_concat_pos _ _ _ (hc c (List.mem_singleton_self c)), ih he]

/-- What `strip` leaves between white space. -/
theorem strip_append {s t e : Text} (hs : ∀ c ∈ s, isSpace c = true) (he : ∀ c ∈ e, isSpace c = true)
    (hhead : ∀ c ∈ t.head?, isSpace c = false) (hlast : ∀ c ∈ t.getLast?, isSpace c = false) :
    strip (s ++ (t ++ e)) = t := by
  rw [strip, stripBy, List.dropWhile_append_of_pos hs]
  cases t with
  | nil => simp [List.dropWhile_eq_nil_iff.mpr he]
  | cons c t =>
    have hc : isSpace c = false := hhead c rfl
    rw [List.cons_append, List.dropWhile_cons_of_neg (by rw [hc]; exact Bool.false_ne_true), ← List.cons_append,
      rdropWhile_append_space he, List.rdropWhile_eq_self_iff]
    intro hl
    rw [hlast _ (List.getLast?_eq_getLast_of_ne_nil hl)]
    exact Bool.false_ne_true

/-- A text is its stripped part between white space. -/
theorem exists_strip (t : Text) : ∃ s e, t = s ++ (strip t ++ e) ∧ (∀ c ∈ s, isSpace c = true) ∧
    (∀ c ∈ e, isSpace c = true) ∧ (∀ c ∈ (strip t).head?, isSpace c = false) ∧
    ∀ c ∈ (strip t).getLast?, isSpace c = false := by
  have hsplit : strip t ++ (t.dropWhile isSpace).rtakeWhile isSpace = t.dropWhile isSpace :=
    List.rdropWhile_append_rtakeWhile
  refine ⟨t.takeWhile isSpace, (t.dropWhile isSpace).rtakeWhile isSpace, ?_, fun c hc => List.mem_takeWhile_imp hc,
    fun c hc => List.mem_rtakeWhile_imp hc, fun c hc => ?_, fun c hc => ?_⟩
  · rw [hsplit, List.takeWhile_append_dropWhile]
  · have hhead : (t.dropWhile isSpace).head? = some c := by
      rw [← hsplit, List.head?_append, hc]
      rfl
    have hnot := List.head?_dropWhile_not isSpace t
    rw [hhead] at hnot
    exact hnot
  · have hne : strip t ≠ [] := fun h => by
      rw [h] at hc
      cases hc
    have hlast := List.rdropWhile_last_not isSpace (t.dropWhile isSpace) hne
    rw [Bool.not_eq_true] at hlast
    obtain rfl : (strip t).getLast hne = c := Option.some.inj ((List.getLast?_eq_getLast_of_ne_nil hne).symm.trans hc)
    exact hlast

/-- Both sides see the same token, unless it has a carriage return in it. -/
theorem strip_translate {text : Text} (hne : strip text ≠ []) (hret : '\r' ∉ strip text) :
    strip (translate false text) = strip text := by
  obtain ⟨s, e, heq, hs, he, hhead, hlast⟩ := exists_strip text
  generalize strip text = t at *
  subst heq
  obtain ⟨cr, h⟩ := translate_append s (t ++ e) false
  have ht : translate cr (t ++ e) = t ++ translate false e := by
    cases t with
    | nil => exact absurd rfl hne
    | cons c t =>
      obtain ⟨hc, hret⟩ := not_or.mp (List.mem_cons.not.mp hret)
      have hspace : isSpace c = false := hhead c rfl
      have hnl : ¬ (c = '\n' ∧ cr = true) := fun h => absurd (h.1 ▸ hspace) (by decide)
      rw [List.cons_append, translate, if_neg (Ne.symm hc), if_neg hnl, translate_append_of_not_mem hret, List.cons_append]
  rw [h, ht]
  exact strip_append (isSpace_translate false hs) (isSpace_translate false he) hhead hlast

/-! ### Files that the daemon accepts -/

theorem utf8_of_decodeUtf8 {b : Bytes} {t : Text} (h : decodeUtf8 b = some t) : utf8 t = b := by
  obtain ⟨cs, hcs, rfl⟩ := Option.map_eq_some_iff.mp h
  have hback : (b.toByteArray.utf8Decode?.get (by rw [hcs]; rfl)).toList.utf8Encode = b.toByteArray :=
    ByteArray.utf8Encode_get_utf8Decode?
  simp only [hcs, Option.get_some] at hback
  exact List.toByteArray_inj.mp hback

theorem length_utf8_cons (c : Char) (t : Text) : (utf8 (c :: t)).length = c.utf8Size + (utf8 t).length := by
  rw [utf8, List.flatMap_cons, List.length_append, String.length_utf8EncodeChar]
  rfl

/-- A character takes one to four bytes. -/
theorem length_utf8_bounds (t : Text) : t.length ≤ (utf8 t).length ∧ (utf8 t).length ≤ 4 * t.length := by
  induction t with
  | nil => exact ⟨le_rfl, le_rfl⟩
  | cons c t ih =>
    have hpos := Char.utf8Size_pos c
    have hle := Char.utf8Size_le_four c
    rw [length_utf8_cons, List.length_cons]
    omega

theorem length_strip_le (t : Text) : (strip t).length ≤ t.length :=
  (List.rdropWhile_prefix ..).length_le.trans (List.dropWhile_sublist _).length_le

theorem ascii_of_tokenMatches {sent token : Text} (h : tokenMatches (.str sent) token = .ok true) :
    isAscii token = true := by
  rw [tokenMatches] at h
  split at h
  · cases h
  · unfold compareDigest at h
    split at h
    · rename_i hascii
      exact (Bool.and_eq_true_iff.mp hascii).2
    · cases h

theorem tokenMatches_self {token : Text} (hascii : isAscii token = true) (hlen : token.length ≤ maxTokenLen) :
    tokenMatches (.str token) token = .ok true := by
  rw [tokenMatches, if_neg (not_lt.mpr hlen), compareDigest, hascii]
  simp

/-- **Which token files work.**  Of the files that the daemon accepts, those whose token is ASCII and has no carriage
return in it let the client in; with any other one no client that reads the file is authorised. -/
theorem token_file_works_iff {file : File Bytes} {token : Text} (h : loadToken (some file) = .ok token) :
    ∃ sent, clientToken (some file) = some sent ∧
      (tokenMatches (.str sent) token = .ok true ↔ isAscii token = true ∧ '\r' ∉ token) := by
  unfold loadToken at h
  dsimp only at h
  split at h
  · cases h
  split at h
  · cases h
  rename_i hsize
  cases hd : decodeUtf8 file.bytes with
  | none =>
    rw [hd] at h
    cases h
  | some text =>
    rw [hd] at h
    dsimp only at h
    split at h
    · cases h
    rename_i hne
    obtain rfl := Except.ok.inj h
    refine ⟨strip (translate false text), by rw [clientToken, Option.bind_some, hd]; rfl, fun hm => ?_, fun hok => ?_⟩
    · -- the client sends the token itself, in which every line end is translated
      have heq : strip (translate false text) = strip text := Json.str.inj (eq_of_tokenMatches hm)
      rw [heq] at hm
      refine ⟨ascii_of_tokenMatches hm, fun hret => ?_⟩
      rw [← heq] at hret
      exact return_not_mem_translate text false (mem_stripBy hret)
    · obtain ⟨hascii, hret⟩ := hok
      have hlen : (strip text).length ≤ maxTokenLen := by
        have hstrip := length_strip_le text
        have hbytes := (length_utf8_bounds text).1
        rw [utf8_of_decodeUtf8 hd] at hbytes
        omega
      rw [strip_translate hne hret]
      exact tokenMatches_self hascii hlen

/-- A token between blanks works; one that is not ASCII is accepted by the daemon, and refused to everybody. -/
theorem token_file_works_blanks : ∃ sent sent', clientToken (some ⟨bytes " ab\r\n", 0o600⟩) = some sent ∧
    tokenMatches (.str sent) "ab".toList = .ok true ∧
    loadToken (some ⟨bytes "é", 0o600⟩) = .ok "é".toList ∧ clientToken (some ⟨bytes "é", 0o600⟩) = some sent' ∧
    tokenMatches (.str sent') "é".toList ≠ .ok true := by
  have hload : loadToken (some ⟨bytes " ab\r\n", 0o600⟩) = .ok "ab".toList := by decide
  have hload' : loadToken (some ⟨bytes "é", 0o600⟩) = .ok "é".toList := by decide
  obtain ⟨sent, hsent, hiff⟩ := token_file_works_iff hload
  obtain ⟨sent', hsent', hiff'⟩ := token_file_works_iff hload'
  exact ⟨sent, sent', hsent, hiff.mpr (by decide), hload', hsent', hiff'.not.mpr (by decide)⟩

/-! ### Generated tokens -/

theorem base64Char_spec (n : ℕ) : isSpace (base64Char n) = false ∧ (base64Char n).toNat < 128 := by
  by_cases h : n < 64
  · have hall : ∀ n : Fin 64, isSpace (base64Char n) = false ∧ (base64Char n).toNat < 128 := by decide
    exact hall ⟨n, h⟩
  · rw [base64Char, if_neg (by omega), if_neg (by omega), if_neg (by omega), if_neg (by omega)]
    decide

theorem mem_tokenUrlsafe (random : Bytes) : ∀ c ∈ tokenUrlsafe random, isSpace c = false ∧ c.toNat < 128 := by
  fun_induction tokenUrlsafe random with
  | case1 => simp
  | case2 | case3 => simp [base64Char_spec]
  | case4 a b c rest ih => simpa [base64Char_spec] using ih

theorem length_tokenUrlsafe (random : Bytes) :
    random.length ≤ (tokenUrlsafe random).length ∧ (tokenUrlsafe random).length ≤ 2 * random.length := by
  fun_induction tokenUrlsafe random with
  | case1 => simp
  | case2 | case3 => simp
  | case4 a b c rest ih =>
    simp only [List.length_cons]
    omega

/-- A generated token is a field: nothing of it is stripped. -/
theorem isField_tokenUrlsafe {random : Bytes} (h : random.length = tokenBytes) : IsField (tokenUrlsafe random) := by
  refine ⟨fun hnil => ?_, fun c hc => (mem_tokenUrlsafe random c hc).1⟩
  have hlen := (length_tokenUrlsafe random).1
  rw [hnil, h] at hlen
  exact absurd hlen (by decide)

theorem isAscii_tokenUrlsafe (random : Bytes) : isAscii (tokenUrlsafe random) = true :=
  List.all_eq_true.mpr fun c hc => decide_eq_true (mem_tokenUrlsafe random c hc).2

theorem strip_newline {t : Text} (h : IsField t) : strip (t ++ ['\n']) = t :=
  strip_append (s := []) (e := ['\n']) (fun c hc => absurd hc List.not_mem_nil)
    (List.forall_mem_singleton.mpr (by decide)) (fun c hc => h.2 c (List.mem_of_mem_head? hc)) fun c hc => h.2 c (List.mem_of_getLast? hc)

/-- The daemon reads the token back that `psysmon-token` has written. -/
theorem loadToken_generate {existing : Option (File Bytes)} {force : Bool} {random : Bytes} {file : File Bytes}
    (hrandom : random.length = tokenBytes) (h : generate existing force random = some file) :
    loadToken (some file) = .ok (tokenUrlsafe random) := by
  unfold generate at h
  split at h
  · cases h
  obtain rfl := Option.some.inj h
  have hfield := isField_tokenUrlsafe hrandom
  have hlen : (utf8 (tokenUrlsafe random ++ ['\n'])).length ≤ maxTokenLen := by
    have h1 := (length_utf8_bounds (tokenUrlsafe random ++ ['\n'])).2
    have h2 := (length_tokenUrlsafe random).2
    rw [List.length_append, List.length_singleton] at h1
    unfold maxTokenLen
    unfold tokenBytes at hrandom
    omega
  rw [loadToken]
  dsimp only
  rw [if_neg (by decide), if_neg (not_lt.mpr hlen), decodeUtf8_utf8]
  dsimp only
  rw [strip_newline hfield, if_neg hfield.1]

/-- The client reads it back as well. -/
theorem clientToken_generate {existing : Option (File Bytes)} {force : Bool} {random : Bytes} {file : File Bytes}
    (hrandom : random.length = tokenBytes) (h : generate existing force random = some file) :
    clientToken (some file) = some (tokenUrlsafe random) := by
  unfold generate at h
  split at h
  · cases h
  obtain rfl := Option.some.inj h
  have hfield := isField_tokenUrlsafe hrandom
  have hstrip := strip_newline hfield
  have hret : '\r' ∉ strip (tokenUrlsafe random ++ ['\n']) := by
    rw [hstrip]
    exact fun hc => absurd (hfield.2 _ hc) (by decide)
  rw [clientToken, Option.bind_some, decodeUtf8_utf8, Option.map_some,
    strip_translate (by rw [hstrip]; exact hfield.1) hret, hstrip]

/-- A generated token matches itself. -/
theorem tokenMatches_tokenUrlsafe {random : Bytes} (hrandom : random.length = tokenBytes) :
    tokenMatches (.str (tokenUrlsafe random)) (tokenUrlsafe random) = .ok true := by
  refine tokenMatches_self (isAscii_tokenUrlsafe random) ?_
  have hlen := (length_tokenUrlsafe random).2
  unfold tokenBytes at hrandom
  unfold maxTokenLen
  omega

end Psysmon.Control
