import TTcp.Checksum

/-!
# TTcp.Inet.Sum

The checksums of `core/t_inet.c` are the Internet checksum
(`OnesSum.checksumLE`) of the bytes they are computed over: of a buffer, and
of a pseudo header with a chain of buffers behind it, wherever the chain is
cut.

A buffer with its checksum in a field that was zero has checksum 0.  This
holds of a buffer of zeros too: its checksum is 0xffff, not 0, which is the
other zero of ones'-complement arithmetic.
-/

namespace TTcp

open OnesSum

/-! ## a buffer -/

theorem toNat_tInetChksum {bytes : List UInt8} (h : bytes.length < 65536) :
    (tInetChksum bytes).toNat = checksumLE bytes := by
  obtain ⟨n, hn, heq⟩ := tInetChksum_folds h
  rw [heq, hn.compl_eq]

/-- The checksum is 0 when the sum is a multiple of 65535 but not zero, and
0xffff when it is zero. -/
theorem tInetChksum_eq_zero {bytes : List UInt8} (h : bytes.length < 65536)
    (hdvd : 65535 ∣ sumLE bytes) (hne : sumLE bytes ≠ 0) : tInetChksum bytes = 0 := by
  obtain ⟨n, hn, heq⟩ := tInetChksum_folds h
  apply UInt16.toNat_inj.1
  rw [heq, hn.eq_iff.mpr ⟨hdvd, hne⟩]
  rfl

theorem tInetChksum_eq_ffff_iff {bytes : List UInt8} (h : bytes.length < 65536) :
    tInetChksum bytes = 0xffff ↔ ∀ b ∈ bytes, b = 0 := by
  obtain ⟨n, hn, heq⟩ := tInetChksum_folds h
  have hlt := hn.lt
  have hzero := hn.zero
  rw [← sumLE_eq_zero_iff, ← UInt16.toNat_inj, heq, show (0xffff : UInt16).toNat = 65535 from rfl]
  omega

/-- With the checksum in a field that was zero, the checksum is 0. -/
theorem tInetChksum_set16 (m : ByteMem) (o : Nat) {k n : Nat} (hk : k % 2 = 0) (hkn : k + 2 ≤ n)
    (hn : n < 65536) (hzero : m.get16 (o + k) = 0) :
    tInetChksum ((m.set16 (o + k) (tInetChksum (m.slice o n))).slice o n) = 0 := by
  have hlen : (m.slice o n).length < 65536 := by rwa [ByteMem.length_slice]
  have hsum := sumLE_slice_set16 m o hk hkn hzero (tInetChksum (m.slice o n))
  obtain ⟨c, hc, heq⟩ := tInetChksum_folds hlen
  have hlt := hc.lt
  have hz := hc.zero
  refine tInetChksum_eq_zero (by rwa [ByteMem.length_slice]) ?_ ?_
  · rw [hsum]
    exact dvd_tInetChksum hlen
  · rw [hsum, heq]
    omega

/-- What is right of the checksum of the `n` bytes at `o`. -/
structure ChksumRight (m : ByteMem) (o n : Nat) : Prop where
  /-- the register has the sum of the bytes read so far -/
  register : ∀ i ≤ n, (chksumLoop 0 (m.slice o i)).toNat = sumLE (m.slice o i)
  folds : (foldCarry (foldCarry (chksumLoop 0 (m.slice o n)))).toNat < 65536
  standard : (lwipStandardChksum (m.slice o n)).toNat = onesSumLE (m.slice o n)
  chksum : (tInetChksum (m.slice o n)).toNat = checksumLE (m.slice o n)
  verifies : ∀ k, k % 2 = 0 → k + 2 ≤ n → m.get16 (o + k) = 0 →
    tInetChksum ((m.set16 (o + k) (tInetChksum (m.slice o n))).slice o n) = 0
  zero : tInetChksum (m.slice o n) = 0xffff ↔ ∀ b ∈ m.slice o n, b = 0

/-- **The checksum of a buffer** is the Internet checksum, and verifies. -/
theorem chksum_right (m : ByteMem) (o : Nat) {n : Nat} (hn : n < 65536) : ChksumRight m o n := by
  have hlen : (m.slice o n).length < 65536 := by rwa [ByteMem.length_slice]
  have hregister : ∀ i ≤ n, (chksumLoop 0 (m.slice o i)).toNat = sumLE (m.slice o i) := by
    intro i hi
    have hle := sumLE_le (m.slice o i)
    rw [ByteMem.length_slice] at hle
    rw [toNat_chksumLoop 0 _ (by rw [show (0 : UInt32).toNat = 0 from rfl]; omega),
      show (0 : UInt32).toNat = 0 from rfl, Nat.zero_add]
  refine ⟨hregister, ?_, ?_, toNat_tInetChksum hlen, fun k hk hkn => tInetChksum_set16 m o hk hkn hn,
    tInetChksum_eq_ffff_iff hlen⟩
  · have h1 := toNat_foldCarry (chksumLoop 0 (m.slice o n))
    have h2 := toNat_foldCarry (foldCarry (chksumLoop 0 (m.slice o n)))
    have hlt := (chksumLoop 0 (m.slice o n)).toNat_lt
    have hle := sumLE_le (m.slice o n)
    rw [← hregister n le_rfl, ByteMem.length_slice] at hle
    omega
  · exact (folds_lwipStandardChksum hlen).unique (folds_onesSumLE _)

/-- The field in the middle of a buffer of odd length. -/
theorem chksum_right_five :
    ChksumRight (frameMem [0x12, 0x34, 0, 0, 0x56]) 0 5 ∧
      tInetChksum [0x12, 0x34, 0, 0, 0x56] = 0xcb97 :=
  ⟨chksum_right _ 0 (by decide), by decide⟩

/-! ## a chain behind a pseudo header -/

/-- An address as it lies in memory. -/
def addrBytes (a : UInt32) : List UInt8 :=
  [a.toUInt8, (a >>> 8).toUInt8, (a >>> 16).toUInt8, (a >>> 24).toUInt8]

/-- The pseudo header. -/
def pseudoHeader (src dest : UInt32) (proto : UInt8) (protoLen : UInt16) : List UInt8 :=
  addrBytes src ++ addrBytes dest ++ [0, proto] ++ be16 protoLen.toNat

theorem sumLE_addrBytes (a : UInt32) :
    sumLE (addrBytes a) = a.toNat % 65536 + a.toNat / 65536 := by
  have ha := a.toNat_lt
  simp only [addrBytes, sumLE, UInt32.toNat_toUInt8, UInt32.toNat_shiftRight, UInt32.toNat_ofNat]
  norm_num [Nat.shiftRight_eq_div_pow]
  omega

theorem sumLE_zero_proto (proto : UInt8) :
    sumLE [0, proto] = (htons proto.toUInt16).toNat := by
  have h := proto.toNat_lt
  rw [toNat_htons h (show 0 < 256 by omega) (by simp)]
  simp [sumLE]

theorem sumLE_pseudoHeader (src dest : UInt32) (proto : UInt8) (protoLen : UInt16)
    (bytes : List UInt8) : sumLE (pseudoHeader src dest proto protoLen ++ bytes) =
      pseudoSum src dest proto protoLen + sumLE bytes := by
  rw [pseudoHeader, sumLE_append (by simp [addrBytes, be16]), sumLE_append (by simp [addrBytes]),
    sumLE_append (by simp [addrBytes]), sumLE_append (by simp [addrBytes]), sumLE_addrBytes,
    sumLE_addrBytes, sumLE_zero_proto, sumLE_be16, pseudoSum]
  omega

/-- **The checksum of a chain** is the Internet checksum of the pseudo header
and all bytes of the chain, and the same however they are divided. -/
theorem chksumPseudo_right {chain : List (List UInt8)} (h : ∀ q ∈ chain, q.length < 65536)
    (src dest : UInt32) (proto : UInt8) (protoLen : UInt16) :
    (tInetChksumPseudo chain src dest proto protoLen).toNat =
        checksumLE (pseudoHeader src dest proto protoLen ++ chain.flatten) ∧
      ∀ chain' : List (List UInt8), (∀ q ∈ chain', q.length < 65536) →
        chain'.flatten = chain.flatten →
        tInetChksumPseudo chain' src dest proto protoLen =
          tInetChksumPseudo chain src dest proto protoLen := by
  have key : ∀ c : List (List UInt8), (∀ q ∈ c, q.length < 65536) →
      (tInetChksumPseudo c src dest proto protoLen).toNat =
        checksumLE (pseudoHeader src dest proto protoLen ++ c.flatten) := fun c hc => by
    obtain ⟨n, hn, heq⟩ := tInetChksumPseudo_folds hc src dest proto protoLen
    rw [← sumLE_pseudoHeader] at hn
    rw [heq, hn.compl_eq]
  refine ⟨key chain h, fun chain' h' hflat => UInt16.toNat_inj.1 ?_⟩
  rw [key chain h, key chain' h', hflat]

/-- Two odd buffers with an empty one between them, and their bytes in one. -/
theorem chksumPseudo_right_odd :
    tInetChksumPseudo [[0x12, 0x34, 0x56], [], [0x78]] 0x0101a8c0 0x0201a8c0 6 4 =
      tInetChksumPseudo [[0x12, 0x34, 0x56, 0x78]] 0x0101a8c0 0x0201a8c0 6 4 :=
  (chksumPseudo_right (show ∀ q ∈ [[(0x12 : UInt8), 0x34, 0x56, 0x78]], q.length < 65536 by decide)
    0x0101a8c0 0x0201a8c0 6 4).2 _ (by decide) rfl

end TTcp
