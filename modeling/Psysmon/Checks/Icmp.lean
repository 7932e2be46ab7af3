import Psysmon.Lib.OnesComplement
import Psysmon.Lib.Bytes

/-!
# Psysmon.Checks.Icmp — echo framing (`checks/ping.py`)

The pure helpers of the ping check: the Internet checksum, the echo requests of both families and the parsers of their
replies.  An IPv4 reply comes with its IP header, whose length stands in its first byte; an ICMPv6 reply comes bare.

* `foldCarries_eq`: the carry loop ends in the word that stands for the sum.
* `parseEchoReply_eq_some_iff`, `parseEchoReply6_eq_some_iff`: what the parsers accept, and what they return.
* `echo_framing`: requests that are sent back are read back, and no datagram is a reply of both families.
* `icmp_checksum_spec`: the checksum is the complement of the one's-complement sum, and a request verifies.
-/

namespace Psysmon.Icmp

open Lib OnesComplement

def echoRequest : UInt8 := 8
def echoReply : UInt8 := 0
def echoRequest6 : UInt8 := 128
def echoReply6 : UInt8 := 129

/-- `n & 0xFFFF`. -/
def low16 (n : ℤ) : ℕ := (n % 65536).toNat

/-- A `!H` field. -/
def packH (n : ℕ) : Bytes := [UInt8.ofNat (n / 256), UInt8.ofNat n]

def unpackH (hi lo : UInt8) : ℕ := hi.toNat * 256 + lo.toNat

/-- `_ECHO_HEADER.pack`. -/
def packHeader (type code : UInt8) (checksum ident seq : ℕ) : Bytes :=
  type :: code :: (packH checksum ++ packH ident ++ packH seq)

/-- The summing loop of `icmp_checksum`. -/
def sumWords (total : ℕ) : Bytes → ℕ
  | hi :: lo :: rest => sumWords (total + ((hi.toNat <<< 8) + lo.toNat)) rest
  | _ => total

/-- The carry loop of `icmp_checksum`. -/
def foldCarries (total : ℕ) : ℕ :=
  if total >>> 16 = 0 then total else foldCarries ((total &&& 0xFFFF) + (total >>> 16))
termination_by total
decreasing_by
  rename_i h
  rw [Nat.shiftRight_eq_div_pow] at h ⊢
  rw [show (0xFFFF : ℕ) = 2 ^ 16 - 1 from rfl, Nat.and_two_pow_sub_one_eq_mod]
  omega

/-- `icmp_checksum`. -/
def icmpChecksum (data : Bytes) : ℕ :=
  let data := if data.length % 2 ≠ 0 then data ++ [0] else data
  low16 (~~~(foldCarries (sumWords 0 data) : ℤ))

/-- `build_echo_request`. -/
def buildEchoRequest (ident seq : ℤ) (payload : Bytes) : Bytes :=
  let checksum := icmpChecksum (packHeader echoRequest 0 0 (low16 ident) (low16 seq) ++ payload)
  packHeader echoRequest 0 checksum (low16 ident) (low16 seq) ++ payload

/-- `build_echo_request6`: the kernel fills the checksum in. -/
def buildEchoRequest6 (ident seq : ℤ) (payload : Bytes) : Bytes :=
  packHeader echoRequest6 0 0 (low16 ident) (low16 seq) ++ payload

/-- The end of both parsers: unpack the header, compare the type, and return identifier, sequence and payload. -/
def unpackReply (replyType : UInt8) : Bytes → Option (ℕ × ℕ × Bytes)
  | type :: _ :: _ :: _ :: i1 :: i2 :: s1 :: s2 :: payload =>
    if type ≠ replyType then none else some (unpackH i1 i2, unpackH s1 s2, payload)
  | _ => none

/-- `parse_echo_reply`. -/
def parseEchoReply (packet : Bytes) : Option (ℕ × ℕ × Bytes) :=
  if packet.length < 20 then none
  else
    let versionIhl := packet.headD 0
    if versionIhl >>> 4 ≠ 4 then none
    else
      let ihl := (versionIhl &&& 0x0F).toNat * 4
      if ihl < 20 ∨ packet.length < ihl + 8 then none else unpackReply echoReply (packet.drop ihl)

/-- `parse_echo_reply6`. -/
def parseEchoReply6 (packet : Bytes) : Option (ℕ × ℕ × Bytes) :=
  if packet.length < 8 then none else unpackReply echoReply6 packet

/-! ### Fields -/

theorem low16_lt (n : ℤ) : low16 n < 65536 := by
  unfold low16
  omega

theorem unpackH_packH {n : ℕ} (h : n < 65536) : unpackH (UInt8.ofNat (n / 256)) (UInt8.ofNat n) = n := by
  simp only [unpackH, UInt8.toNat_ofNat']
  omega

theorem toNat_shiftRight_four (v : UInt8) : (v >>> 4).toNat = v.toNat / 16 := by
  rw [UInt8.toNat_shiftRight, Nat.shiftRight_eq_div_pow]
  rfl

theorem toNat_and_fifteen (v : UInt8) : (v &&& 0x0F).toNat = v.toNat % 16 := by
  rw [UInt8.toNat_and]
  exact Nat.and_two_pow_sub_one_eq_mod _ 4

/-! ### Replies -/

theorem unpackReply_eq_some_iff {type : UInt8} {icmp : Bytes} {i s : ℕ} {payload : Bytes} :
    unpackReply type icmp = some (i, s, payload) ↔ ∃ code c1 c2 i1 i2 s1 s2,
      icmp = type :: code :: c1 :: c2 :: i1 :: i2 :: s1 :: s2 :: payload ∧ i = unpackH i1 i2 ∧ s = unpackH s1 s2 := by
  constructor
  · intro h
    unfold unpackReply at h
    split at h
    · rename_i t code c1 c2 i1 i2 s1 s2 rest
      split at h
      · exact (nomatch h)
      · rename_i ht
        obtain ⟨rfl, rfl, rfl⟩ : unpackH i1 i2 = i ∧ unpackH s1 s2 = s ∧ rest = payload := by simpa using h
        exact ⟨code, c1, c2, i1, i2, s1, s2, by rw [not_not.mp ht], rfl, rfl⟩
    · exact (nomatch h)
  · rintro ⟨code, c1, c2, i1, i2, s1, s2, rfl, rfl, rfl⟩
    exact if_neg (not_not.mpr rfl)

/-- An IPv4 header of five to fifteen words, whose first byte says so; the rest is arbitrary. -/
def IsHeader (header : Bytes) : Prop :=
  ∃ words, 5 ≤ words ∧ words ≤ 15 ∧ header.length = 4 * words ∧ header.head? = some (UInt8.ofNat (64 + words))

/-- The first byte of a header: version 4 and the number of words. -/
theorem versionIhl_iff {v : UInt8} {words : ℕ} (hw : words ≤ 15) :
    v = UInt8.ofNat (64 + words) ↔ v >>> 4 = 4 ∧ (v &&& 0x0F).toNat = words := by
  rw [← UInt8.toNat_inj, ← UInt8.toNat_inj (a := v >>> 4), toNat_shiftRight_four, toNat_and_fifteen, UInt8.toNat_ofNat']
  show v.toNat = (64 + words) % 256 ↔ v.toNat / 16 = 4 ∧ v.toNat % 16 = words
  omega

/-- **What `parse_echo_reply` accepts**: a header of its declared length, and an echo reply behind it. -/
theorem parseEchoReply_eq_some_iff {packet : Bytes} {i s : ℕ} {payload : Bytes} :
    parseEchoReply packet = some (i, s, payload) ↔
      ∃ header icmp, packet = header ++ icmp ∧ IsHeader header ∧ unpackReply echoReply icmp = some (i, s, payload) := by
  constructor
  · intro h
    unfold parseEchoReply at h
    dsimp only at h
    split_ifs at h with h1 h2 h3
    · set words := (packet.headD 0 &&& 0x0F).toNat with hwords
      have hle : words ≤ 15 := by
        rw [hwords, toNat_and_fifteen]
        omega
      refine ⟨packet.take (words * 4), packet.drop (words * 4), (List.take_append_drop _ _).symm, ?_, h⟩
      refine ⟨words, by omega, hle, by rw [List.length_take]; omega, ?_⟩
      rw [← (versionIhl_iff hle).mpr ⟨not_not.mp h2, hwords.symm⟩]
      cases packet with
      | nil => simp at h1
      | cons v rest =>
        rw [show words * 4 = (words * 4 - 1) + 1 by omega]
        rfl
  · rintro ⟨header, icmp, rfl, ⟨words, h5, h15, hlen, hhead⟩, h⟩
    have hicmp : 8 ≤ icmp.length := by
      obtain ⟨code, c1, c2, i1, i2, s1, s2, rfl, -, -⟩ := unpackReply_eq_some_iff.mp h
      simp
    cases header with
    | nil => simp at hhead
    | cons v rest =>
      obtain ⟨hver, hwords⟩ := (versionIhl_iff h15).mp (Option.some.inj hhead)
      have hdrop : ((v :: rest) ++ icmp).drop (words * 4) = icmp := by
        rw [List.drop_append_of_le_length (by omega), List.drop_of_length_le (by omega), List.nil_append]
      unfold parseEchoReply
      rw [List.length_append, if_neg (by omega)]
      dsimp only [List.cons_append, List.headD_cons]
      rw [hver, if_neg (by simp), hwords, if_neg (by omega)]
      exact (congrArg (unpackReply echoReply) hdrop).trans h

theorem parseEchoReply6_eq_some_iff {packet : Bytes} {i s : ℕ} {payload : Bytes} :
    parseEchoReply6 packet = some (i, s, payload) ↔ unpackReply echoReply6 packet = some (i, s, payload) := by
  unfold parseEchoReply6
  refine ⟨fun h => ?_, fun h => ?_⟩
  · split at h
    · exact (nomatch h)
    · exact h
  · obtain ⟨code, c1, c2, i1, i2, s1, s2, rfl, -, -⟩ := unpackReply_eq_some_iff.mp h
    exact (if_neg (by simp)).trans h

/-- A reply to a request: another type and any checksum. -/
def asReply (type c1 c2 : UInt8) : Bytes → Bytes
  | _ :: code :: _ :: _ :: rest => type :: code :: c1 :: c2 :: rest
  | icmp => icmp

/-- Identifier, sequence and payload of a reply are those of the request. -/
theorem unpackReply_asReply (type c1 c2 requestType code : UInt8) (checksum : ℕ) {i s : ℕ} (hi : i < 65536)
    (hs : s < 65536) (payload : Bytes) :
    unpackReply type (asReply type c1 c2 (packHeader requestType code checksum i s ++ payload)) = some (i, s, payload) :=
  unpackReply_eq_some_iff.mpr ⟨code, c1, c2, _, _, _, _, rfl, (unpackH_packH hi).symm, (unpackH_packH hs).symm⟩

/-- **Echo framing**: replies to both kinds of requests are read back; what a parser accepts has the form it says; and
the two families never accept the same datagram. -/
theorem echo_framing :
    (∀ (ident seq : ℤ) (payload header : Bytes) (c1 c2 : UInt8), IsHeader header →
      parseEchoReply (header ++ asReply echoReply c1 c2 (buildEchoRequest ident seq payload)) =
        some ((ident % 65536).toNat, (seq % 65536).toNat, payload)) ∧
    (∀ (ident seq : ℤ) (payload : Bytes) (c1 c2 : UInt8),
      parseEchoReply6 (asReply echoReply6 c1 c2 (buildEchoRequest6 ident seq payload)) =
        some ((ident % 65536).toNat, (seq % 65536).toNat, payload)) ∧
    (∀ packet, (parseEchoReply packet).isSome → ∃ header icmp, packet = header ++ icmp ∧
      header.length = (packet.headD 0 &&& 0x0F).toNat * 4 ∧ 8 ≤ icmp.length ∧ icmp.head? = some echoReply) ∧
    (∀ packet, (parseEchoReply6 packet).isSome → 8 ≤ packet.length ∧ packet.head? = some echoReply6) ∧
    ∀ packet, ¬ ((parseEchoReply packet).isSome ∧ (parseEchoReply6 packet).isSome) := by
  have h4 : ∀ packet, (parseEchoReply packet).isSome → ∃ header icmp, packet = header ++ icmp ∧ IsHeader header ∧
      8 ≤ icmp.length ∧ icmp.head? = some echoReply := by
    intro packet h
    obtain ⟨⟨i, s, payload⟩, hr⟩ := Option.isSome_iff_exists.mp h
    obtain ⟨header, icmp, rfl, hh, hu⟩ := parseEchoReply_eq_some_iff.mp hr
    obtain ⟨code, c1, c2, i1, i2, s1, s2, rfl, -, -⟩ := unpackReply_eq_some_iff.mp hu
    exact ⟨header, _, rfl, hh, by simp, rfl⟩
  have h6 : ∀ packet, (parseEchoReply6 packet).isSome → 8 ≤ packet.length ∧ packet.head? = some echoReply6 := by
    intro packet h
    obtain ⟨⟨i, s, payload⟩, hr⟩ := Option.isSome_iff_exists.mp h
    obtain ⟨code, c1, c2, i1, i2, s1, s2, rfl, -, -⟩ :=
      unpackReply_eq_some_iff.mp (parseEchoReply6_eq_some_iff.mp hr)
    exact ⟨by simp, rfl⟩
  refine ⟨fun ident seq payload header c1 c2 hh => ?_, fun ident seq payload c1 c2 => ?_, fun packet h => ?_, h6,
    fun packet h => ?_⟩
  · exact parseEchoReply_eq_some_iff.mpr ⟨header, _, rfl, hh,
      unpackReply_asReply _ _ _ _ _ _ (low16_lt ident) (low16_lt seq) payload⟩
  · exact parseEchoReply6_eq_some_iff.mpr
      (unpackReply_asReply _ _ _ _ _ _ (low16_lt ident) (low16_lt seq) payload)
  · obtain ⟨header, icmp, rfl, ⟨words, -, h15, hlen, hhead⟩, hicmp⟩ := h4 packet h
    refine ⟨header, icmp, rfl, ?_, hicmp⟩
    cases header with
    | nil => simp at hhead
    | cons v rest =>
      have hwords := ((versionIhl_iff h15).mp (Option.some.inj hhead)).2
      rw [hlen, List.cons_append, List.headD_cons, hwords, Nat.mul_comm]
  · obtain ⟨header, icmp, rfl, ⟨words, -, h15, -, hhead⟩, -⟩ := h4 packet h.1
    obtain ⟨-, hfirst⟩ := h6 _ h.2
    rw [List.head?_append, hhead] at hfirst
    -- 129 has version 8
    have hver := ((versionIhl_iff h15).mp (Option.some.inj hfirst).symm).1
    exact absurd hver (by decide)

/-! ### The checksum -/

/-- The big-endian 16-bit words of a byte string, the last one padded with a zero byte. -/
def words : Bytes → List ℕ
  | hi :: lo :: rest => unpackH hi lo :: words rest
  | [hi] => [unpackH hi 0]
  | [] => []

theorem unpackH_le (hi lo : UInt8) : unpackH hi lo ≤ 65535 := by
  have h1 := hi.toNat_lt
  have h2 := lo.toNat_lt
  unfold unpackH
  omega

theorem words_le (data : Bytes) : ∀ w ∈ words data, w ≤ 65535 := by
  fun_induction words data with
  | case1 hi lo rest ih =>
    intro w hw
    rcases List.mem_cons.mp hw with rfl | hw
    · exact unpackH_le hi lo
    · exact ih w hw
  | case2 hi => exact fun w hw => by rw [List.mem_singleton.mp hw]; exact unpackH_le hi 0
  | case3 => simp

/-- The padded loop adds up the words. -/
theorem sumWords_eq (data : Bytes) (total : ℕ) :
    sumWords total (if data.length % 2 ≠ 0 then data ++ [0] else data) = total + (words data).sum := by
  fun_induction words data generalizing total with
  | case1 hi lo rest ih =>
    have hpad : (if (hi :: lo :: rest).length % 2 ≠ 0 then (hi :: lo :: rest) ++ [0] else hi :: lo :: rest) =
        hi :: lo :: (if rest.length % 2 ≠ 0 then rest ++ [0] else rest) := by
      have hpar : (hi :: lo :: rest).length % 2 = rest.length % 2 := by
        rw [List.length_cons, List.length_cons]
        omega
      rw [hpar]
      split <;> rfl
    rw [hpad, sumWords, ih, List.sum_cons, unpackH, Nat.shiftLeft_eq, Nat.add_assoc]
  | case2 hi => simp [sumWords, unpackH, Nat.shiftLeft_eq]
  | case3 => rfl

/-- **The carry loop** ends in the word that stands for the sum. -/
theorem foldCarries_eq (total : ℕ) : foldCarries total = residue 65535 total := by
  fun_induction foldCarries total with
  | case1 total h =>
    rw [Nat.shiftRight_eq_div_pow] at h
    exact (residue_of_le (by omega)).symm
  | case2 total h ih =>
    rw [ih, Nat.shiftRight_eq_div_pow, show (0xFFFF : ℕ) = 2 ^ 16 - 1 from rfl, Nat.and_two_pow_sub_one_eq_mod]
    exact residue_carry 65535 total

theorem low16_not {n : ℕ} (h : n ≤ 65535) : low16 (~~~(n : ℤ)) = 65535 - n := by
  show ((Int.negSucc n) % 65536).toNat = 65535 - n
  rw [Int.negSucc_eq]
  omega

theorem icmpChecksum_eq_residue (data : Bytes) : icmpChecksum data = 65535 - residue 65535 (words data).sum := by
  unfold icmpChecksum
  dsimp only
  rw [sumWords_eq, Nat.zero_add, foldCarries_eq]
  exact low16_not (residue_le (by decide) _)

/-- The words of a packet with an echo header. -/
theorem sum_words_packHeader (type code : UInt8) {c i s : ℕ} (hc : c < 65536) (hi : i < 65536) (hs : s < 65536)
    (payload : Bytes) : (words (packHeader type code c i s ++ payload)).sum =
      (words (packHeader type code 0 i s ++ payload)).sum + c := by
  have hwords : ∀ {c : ℕ}, c < 65536 → (words (packHeader type code c i s ++ payload)).sum =
      unpackH type code + (c + (i + (s + (words payload).sum))) := by
    intro c hc
    show (unpackH type code :: unpackH _ _ :: unpackH _ _ :: unpackH _ _ :: words payload).sum = _
    rw [unpackH_packH hc, unpackH_packH hi, unpackH_packH hs]
    simp
  rw [hwords hc, hwords (by decide)]
  ring

/-- A request verifies: its own checksum is zero. -/
theorem icmpChecksum_buildEchoRequest (ident seq : ℤ) (payload : Bytes) :
    icmpChecksum (buildEchoRequest ident seq payload) = 0 := by
  have hsum := icmpChecksum_eq_residue (packHeader echoRequest 0 0 (low16 ident) (low16 seq) ++ payload)
  have hc : icmpChecksum (packHeader echoRequest 0 0 (low16 ident) (low16 seq) ++ payload) < 65536 := by omega
  rw [icmpChecksum_eq_residue, buildEchoRequest, sum_words_packHeader _ _ hc (low16_lt ident) (low16_lt seq), hsum,
    residue_add_complement (by decide)]

/-- **The Internet checksum**: every request verifies, and the checksum of any byte string is the complement of the
one's-complement sum of its words, in any order. -/
theorem icmp_checksum_spec :
    (∀ (ident seq : ℤ) (payload : Bytes), icmpChecksum (buildEchoRequest ident seq payload) = 0) ∧
    (∀ data, icmpChecksum data ≤ 65535 ∧ icmpChecksum data = 65535 - OnesComplement.sum 65535 (words data)) ∧
    ∀ data data', (words data).Perm (words data') → icmpChecksum data = icmpChecksum data' := by
  refine ⟨icmpChecksum_buildEchoRequest, fun data => ?_, fun data data' h => ?_⟩
  · rw [sum_eq_residue (by decide) (words_le data), icmpChecksum_eq_residue]
    exact ⟨Nat.sub_le _ _, rfl⟩
  · rw [icmpChecksum_eq_residue, icmpChecksum_eq_residue, h.sum_eq]

end Psysmon.Icmp
