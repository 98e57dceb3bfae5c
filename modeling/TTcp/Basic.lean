import Mathlib

/-!
# TTcp.Basic

The configuration of the stack (`t_lwipopts.h`, `t_memp.h`, `t_pbuf.h`), its
error codes (`t_err.h`), and the byte-order macros of `t_ip_addr.h`.

The stack runs on a little-endian machine (its `htons` swaps
unconditionally), with 8-byte pointers.
-/

namespace TTcp

/-! ## configuration -/

abbrev tPbufPoolSize : Nat := 30
@[simp] def tPbufBufsize : Nat := 1514
@[simp] def tTcpMss : UInt16 := 1400
@[simp] def tTcpSndBuf : UInt16 := 16800
@[simp] def tTcpWnd : UInt16 := 14000
@[simp] def tTcpSndQueuelen : UInt8 := 40
abbrev tMempNumTcpSeg : Nat := 40
abbrev tMempNumTcpPcb : Nat := 2
abbrev tMempNumUdpPcb : Nat := 2
abbrev tArpTableSize : Nat := 20

instance : NeZero tPbufPoolSize := ⟨by decide⟩
instance : NeZero tMempNumTcpSeg := ⟨by decide⟩
instance : NeZero tMempNumTcpPcb := ⟨by decide⟩
instance : NeZero tMempNumUdpPcb := ⟨by decide⟩

/-- `sizeof(struct t_pbuf)`: two pointers and five 16-bit fields, padded to a
multiple of eight. -/
@[simp] def sizeofTPbuf : Nat := 32

/-- Headroom of a buffer for a TCP segment: Ethernet, IP and TCP headers. -/
@[simp] def tPbufTransport : UInt16 := 54

/-- Headroom of a buffer for an IP packet: Ethernet and IP headers. -/
@[simp] def tPbufIp : UInt16 := 34

/-- `T_SYS_MBOX_NULL`.  A `t_sys_mbox_t` is an `int`. -/
@[simp] def tSysMboxNull : Int := -1

/-! ## error codes -/

abbrev ErrT := Int

@[simp] def errOk : ErrT := 0
@[simp] def errBuf : ErrT := -2
@[simp] def errConn : ErrT := -6

/-! ## byte order -/

/-- `htons` (and `ntohs`, the same macro). -/
def htons (a : UInt16) : UInt16 :=
  ((a <<< 8) &&& (0xff00 : UInt16)) + ((a >>> 8) &&& (0x00ff : UInt16))

/-- `htonl` (and `ntohl`, the same macro). -/
def htonl (a : UInt32) : UInt32 :=
  ((a <<< 24) &&& (0xff000000 : UInt32)) + ((a <<< 8) &&& (0x00ff0000 : UInt32)) +
    ((a >>> 8) &&& (0x0000ff00 : UInt32)) + ((a >>> 24) &&& (0xff : UInt32))

abbrev ntohs := htons
abbrev ntohl := htonl

/-- Masking one byte out of a number. -/
theorem and_byteMask (x k : Nat) : x &&& (255 * 2 ^ k) = x / 2 ^ k % 256 * 2 ^ k := by
  apply Nat.eq_of_testBit_eq
  intro i
  rw [Nat.testBit_and, Nat.testBit_mul_two_pow, Nat.testBit_mul_two_pow,
    show 255 = 2 ^ 8 - 1 from rfl, show 256 = 2 ^ 8 from rfl, Nat.testBit_two_pow_sub_one,
    Nat.testBit_mod_two_pow, Nat.testBit_div_two_pow]
  by_cases hk : k ≤ i
  · simp [hk, Bool.and_comm]
  · simp [hk]

/-- A constant in the high byte of a word, over a byte. -/
theorem toNat_byte_or (c : Nat) (hc : c < 256) (b : UInt8) :
    (UInt16.ofNat (256 * c) ||| b.toUInt16).toNat = 256 * c + b.toNat := by
  have hb := b.toNat_lt
  rw [UInt16.toNat_or, UInt16.toNat_ofNat_of_lt' (show 256 * c < 65536 by omega),
    UInt8.toNat_toUInt16, show 256 * c = 2 ^ 8 * c from rfl]
  exact (Nat.two_pow_add_eq_or_of_lt hb c).symm

theorem exists_bytes16 (a : UInt16) : ∃ b0 b1, b0 < 256 ∧ b1 < 256 ∧ a.toNat = b0 + 256 * b1 :=
  have := a.toNat_lt
  ⟨a.toNat % 256, a.toNat / 256, by omega, by omega, by omega⟩

theorem exists_bytes32 (a : UInt32) : ∃ b0 b1 b2 b3, b0 < 256 ∧ b1 < 256 ∧ b2 < 256 ∧ b3 < 256 ∧
    a.toNat = b0 + 256 * b1 + 65536 * b2 + 16777216 * b3 :=
  have := a.toNat_lt
  ⟨a.toNat % 256, a.toNat / 256 % 256, a.toNat / 65536 % 256, a.toNat / 16777216,
    by omega, by omega, by omega, by omega, by omega⟩

/-- `htons` exchanges the two bytes. -/
theorem toNat_htons {a : UInt16} {b0 b1 : Nat} (h0 : b0 < 256) (h1 : b1 < 256)
    (h : a.toNat = b0 + 256 * b1) : (htons a).toNat = b1 + 256 * b0 := by
  have e1 : a.toNat * 256 % 65536 &&& 65280 = 256 * b0 := by
    rw [show 65280 = 255 * 2 ^ 8 from rfl, and_byteMask]; omega
  have e2 : a.toNat / 256 &&& 255 = b1 := by
    rw [show 255 = 255 * 2 ^ 0 from rfl, and_byteMask]; omega
  simp only [htons, UInt16.toNat_add, UInt16.toNat_and, UInt16.toNat_shiftLeft,
    UInt16.toNat_shiftRight, UInt16.toNat_ofNat]
  norm_num [Nat.shiftLeft_eq, Nat.shiftRight_eq_div_pow, e1, e2]
  omega

/-- `htonl` reverses the four bytes. -/
theorem toNat_htonl {a : UInt32} {b0 b1 b2 b3 : Nat} (h0 : b0 < 256) (h1 : b1 < 256)
    (h2 : b2 < 256) (h3 : b3 < 256)
    (h : a.toNat = b0 + 256 * b1 + 65536 * b2 + 16777216 * b3) :
    (htonl a).toNat = b3 + 256 * b2 + 65536 * b1 + 16777216 * b0 := by
  have e1 : a.toNat * 16777216 % 4294967296 &&& 4278190080 = 16777216 * b0 := by
    rw [show 4278190080 = 255 * 2 ^ 24 from rfl, and_byteMask]; omega
  have e2 : a.toNat * 256 % 4294967296 &&& 16711680 = 65536 * b1 := by
    rw [show 16711680 = 255 * 2 ^ 16 from rfl, and_byteMask]; omega
  have e3 : a.toNat / 256 &&& 65280 = 256 * b2 := by
    rw [show 65280 = 255 * 2 ^ 8 from rfl, and_byteMask]; omega
  have e4 : a.toNat / 16777216 &&& 255 = b3 := by
    rw [show 255 = 255 * 2 ^ 0 from rfl, and_byteMask]; omega
  simp only [htonl, UInt32.toNat_add, UInt32.toNat_and, UInt32.toNat_shiftLeft,
    UInt32.toNat_shiftRight, UInt32.toNat_ofNat]
  norm_num [Nat.shiftLeft_eq, Nat.shiftRight_eq_div_pow, e1, e2, e3, e4]
  omega

@[simp] theorem htons_htons (a : UInt16) : htons (htons a) = a := by
  obtain ⟨b0, b1, h0, h1, h⟩ := exists_bytes16 a
  apply UInt16.toNat_inj.1
  rw [toNat_htons h1 h0 (toNat_htons h0 h1 h), h]

@[simp] theorem htonl_htonl (a : UInt32) : htonl (htonl a) = a := by
  obtain ⟨b0, b1, b2, b3, h0, h1, h2, h3, h⟩ := exists_bytes32 a
  apply UInt32.toNat_inj.1
  rw [toNat_htonl h3 h2 h1 h0 (toNat_htonl h0 h1 h2 h3 h), h]

end TTcp
