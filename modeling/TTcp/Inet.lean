import TTcp.Basic

/-!
# TTcp.Inet

The Internet checksum (`core/t_inet.c`), computed over the bytes of a buffer
or of a chain of buffers.  Words are loaded as the machine loads them, low
byte first.
-/

namespace TTcp

/-- The loop of `lwip_standard_chksum`, with its odd last byte. -/
def chksumLoop (acc : UInt32) : List UInt8 → UInt32
  | [] => acc
  | [b] => acc + (htons (b.toUInt16 <<< 8)).toUInt32
  | a :: b :: rest => chksumLoop (acc + (a.toUInt16 + 256 * b.toUInt16).toUInt32) rest

/-- One round of adding the carries back in. -/
def foldCarry (acc : UInt32) : UInt32 := (acc >>> 16) + (acc &&& 0xffff)

/-- `lwip_standard_chksum`: two folds, the second only if needed, cut to 16
bits. -/
def lwipStandardChksum (bytes : List UInt8) : UInt16 :=
  let acc := foldCarry (chksumLoop 0 bytes)
  let acc := if acc &&& 0xffff0000 ≠ 0 then foldCarry acc else acc
  acc.toUInt16

/-- `while (acc >> 16) acc = (acc & 0xffff) + (acc >> 16);`: two rounds are
all a 32-bit sum ever takes (`foldCarries_shiftRight`). -/
def foldCarries (acc : UInt32) : UInt32 :=
  if acc >>> 16 ≠ 0 then
    let acc := foldCarry acc
    if acc >>> 16 ≠ 0 then foldCarry acc else acc
  else acc

/-- `t_inet_chksum`. -/
def tInetChksum (bytes : List UInt8) : UInt16 :=
  ~~~(foldCarries (lwipStandardChksum bytes).toUInt32).toUInt16

/-- Exchange the two low bytes of the running sum. -/
def swapSum (acc : UInt32) : UInt32 :=
  ((acc &&& (0xff : UInt32)) <<< 8) ||| ((acc &&& (0xff00 : UInt32)) >>> 8)

/-- The loop of `t_inet_chksum_pseudo` over the buffers of the chain: the sum
so far, and whether an odd number of odd buffers has gone by. -/
def chksumChain (acc : UInt32) (swapped : Bool) : List (List UInt8) → UInt32 × Bool
  | [] => (acc, swapped)
  | q :: chain =>
      let acc := foldCarries (acc + (lwipStandardChksum q).toUInt32)
      if q.length % 2 ≠ 0 then chksumChain (swapSum acc) (!swapped) chain
      else chksumChain acc swapped chain

/-- `t_inet_chksum_pseudo`. -/
def tInetChksumPseudo (chain : List (List UInt8)) (src dest : UInt32) (proto : UInt8)
    (protoLen : UInt16) : UInt16 :=
  let (acc, swapped) := chksumChain 0 false chain
  let acc := if swapped then swapSum acc else acc
  let acc := acc + (src &&& (0xffff : UInt32)) + ((src >>> 16) &&& (0xffff : UInt32))
  let acc := acc + (dest &&& (0xffff : UInt32)) + ((dest >>> 16) &&& (0xffff : UInt32))
  let acc := acc + (htons proto.toUInt16).toUInt32 + (htons protoLen).toUInt32
  ~~~(foldCarries acc).toUInt16

/-- A fold adds the high half to the low half. -/
theorem toNat_foldCarry (acc : UInt32) :
    (foldCarry acc).toNat = acc.toNat / 65536 + acc.toNat % 65536 := by
  have h := acc.toNat_lt
  have hand : acc.toNat &&& 65535 = acc.toNat % 65536 := Nat.and_two_pow_sub_one_eq_mod _ 16
  simp only [foldCarry, UInt32.toNat_add, UInt32.toNat_shiftRight, UInt32.toNat_and,
    UInt32.toNat_ofNat]
  norm_num [Nat.shiftRight_eq_div_pow, hand]
  omega

/-- The `while` loop is over after two rounds: there is nothing left to fold. -/
theorem foldCarries_shiftRight (acc : UInt32) : foldCarries acc >>> 16 = 0 := by
  have key : ∀ a : UInt32, a.toNat < 65536 → a >>> 16 = 0 := by
    intro a ha
    apply UInt32.toNat_inj.1
    simp only [UInt32.toNat_shiftRight, UInt32.toNat_ofNat]
    norm_num [Nat.shiftRight_eq_div_pow]
    omega
  have h := acc.toNat_lt
  have h1 := toNat_foldCarry acc
  have h2 := toNat_foldCarry (foldCarry acc)
  simp only [foldCarries]
  split
  · split
    · next hne =>
      refine key _ ?_
      have hge : ¬ (foldCarry acc).toNat < 65536 := fun hlt => hne (key _ hlt)
      omega
    · next heq => simpa using heq
  · next heq => simpa using heq

end TTcp
