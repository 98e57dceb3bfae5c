import TTcp.Ip
import TTcp.Lib.OnesSum

/-!
# TTcp.Checksum

The checksums of `core/t_inet.c` make what they are computed over verify: with
the checksum in its field the ones'-complement sum is 0xffff.

The code sums words in the byte order of the machine, keeps the carries in a
32-bit register and folds them in at the end; `OnesSum` says why that is the
sum of the network's words.
-/

namespace TTcp

open OnesSum

/-! ## the loops -/

/-- The odd last byte is added as it is. -/
theorem toNat_htons_shiftLeft (b : UInt8) :
    (htons (b.toUInt16 <<< (8 : UInt16))).toNat = b.toNat := by
  have hb := b.toNat_lt
  have hshift : (b.toUInt16 <<< (8 : UInt16)).toNat = 0 + 256 * b.toNat := by
    simp [UInt16.toNat_shiftLeft, Nat.shiftLeft_eq]
    omega
  rw [toNat_htons (by omega) hb hshift]
  omega

/-- A word of memory is its two bytes, low byte first. -/
theorem toNat_word (a b : UInt8) :
    (a.toUInt16 + 256 * b.toUInt16).toNat = a.toNat + 256 * b.toNat := by
  have ha := a.toNat_lt
  have hb := b.toNat_lt
  simp
  omega

/-- The register does not overflow. -/
theorem toNat_chksumLoop (acc : UInt32) (bytes : List UInt8)
    (h : acc.toNat + sumLE bytes < 4294967296) :
    (chksumLoop acc bytes).toNat = acc.toNat + sumLE bytes := by
  induction acc, bytes using chksumLoop.induct with
  | case1 acc => simp [chksumLoop, sumLE]
  | case2 acc b =>
      simp only [sumLE] at h ⊢
      rw [chksumLoop, UInt32.toNat_add, UInt16.toNat_toUInt32, toNat_htons_shiftLeft]
      omega
  | case3 acc a b rest ih =>
      have hacc : (acc + (a.toUInt16 + 256 * b.toUInt16).toUInt32).toNat =
          acc.toNat + (a.toNat + 256 * b.toNat) := by
        simp only [sumLE] at h
        rw [UInt32.toNat_add, UInt16.toNat_toUInt32, toNat_word]
        omega
      simp only [sumLE] at h ⊢
      rw [chksumLoop, ih (by omega)]
      omega

/-! ## folding -/

theorem lt_of_and_high {acc : UInt32} (h : acc &&& 0xffff0000 = 0) : acc.toNat < 65536 := by
  have hlt := acc.toNat_lt
  have hzero : acc.toNat &&& 4294901760 = 0 := congrArg UInt32.toNat h
  have hall : acc.toNat &&& (2 ^ 32 - 1) = acc.toNat := by
    rw [Nat.and_two_pow_sub_one_eq_mod, Nat.mod_eq_of_lt hlt]
  rw [← hall, show 2 ^ 32 - 1 = 4294901760 ||| (2 ^ 16 - 1) from rfl, Nat.and_or_distrib_left,
    hzero, Nat.zero_or, Nat.and_two_pow_sub_one_eq_mod]
  omega

theorem folds_toUInt16 {acc : UInt32} {s : Nat} (hlt : acc.toNat < 65536)
    (h : Folds acc.toNat s) : Folds acc.toUInt16.toNat s := by
  rwa [UInt32.toNat_toUInt16, Nat.mod_eq_of_lt hlt]

/-- `lwip_standard_chksum` of anything whose length fits its parameter. -/
theorem folds_lwipStandardChksum {bytes : List UInt8} (h : bytes.length < 65536) :
    Folds (lwipStandardChksum bytes).toNat (sumLE bytes) := by
  have hle := sumLE_le bytes
  have hloop := toNat_chksumLoop 0 bytes (by rw [show (0 : UInt32).toNat = 0 from rfl]; omega)
  rw [show (0 : UInt32).toNat = 0 from rfl, Nat.zero_add] at hloop
  have hfold := toNat_foldCarry (chksumLoop 0 bytes)
  rw [hloop] at hfold
  obtain ⟨acc, hacc⟩ : ∃ acc, acc = foldCarry (chksumLoop 0 bytes) := ⟨_, rfl⟩
  rw [← hacc] at hfold
  have hfolds : ∀ n, Folds n acc.toNat → Folds n (sumLE bytes) := fun n hn =>
    .of_fold (by rwa [hfold] at hn)
  unfold lwipStandardChksum
  simp only [← hacc]
  split
  · have hfold2 := toNat_foldCarry acc
    have hlt : (foldCarry acc).toNat < 65536 := by omega
    refine folds_toUInt16 hlt (hfolds _ (.of_fold ?_))
    rw [← hfold2]
    exact .of_lt hlt
  · next hhigh =>
    have hlt := lt_of_and_high (not_not.mp hhigh)
    exact folds_toUInt16 hlt (hfolds _ (.of_lt hlt))

/-- The `while` loop folds in all carries. -/
theorem folds_foldCarries (acc : UInt32) :
    Folds (foldCarries acc).toNat acc.toNat ∧ (foldCarries acc).toNat < 65536 := by
  have hlt : (foldCarries acc).toNat < 65536 := by
    have hshift := congrArg UInt32.toNat (foldCarries_shiftRight acc)
    simp only [UInt32.toNat_shiftRight, show (16 : UInt32).toNat = 16 from rfl] at hshift
    norm_num [Nat.shiftRight_eq_div_pow] at hshift
    omega
  refine ⟨?_, hlt⟩
  have hself := Folds.of_lt hlt
  have hfold := toNat_foldCarry acc
  have hfold2 := toNat_foldCarry (foldCarry acc)
  unfold foldCarries at hself ⊢
  simp only at hself ⊢
  split
  · next h1 =>
    rw [if_pos h1] at hself
    refine .of_fold ?_
    rw [← hfold]
    split
    · next h2 =>
      rw [if_pos h2] at hself
      refine .of_fold ?_
      rwa [← hfold2]
    · next h2 => rwa [if_neg h2] at hself
  · next h1 => rwa [if_neg h1] at hself

/-! ## the checksums -/

/-- The complement of a folded register. -/
theorem toNat_compl_toUInt16 {acc : UInt32} (h : acc.toNat < 65536) :
    (~~~acc.toUInt16).toNat = 65535 - acc.toNat := by
  rw [UInt16.toNat_not, UInt32.toNat_toUInt16, Nat.mod_eq_of_lt h]
  rfl

/-- `t_inet_chksum` is the complement of the folded sum. -/
theorem tInetChksum_folds {bytes : List UInt8} (h : bytes.length < 65536) :
    ∃ n, Folds n (sumLE bytes) ∧ (tInetChksum bytes).toNat = 65535 - n := by
  obtain ⟨hfold, hlt⟩ := folds_foldCarries (lwipStandardChksum bytes).toUInt32
  rw [UInt16.toNat_toUInt32] at hfold
  have hsum := Folds.trans (s := 0) (by rwa [Nat.add_zero]) (folds_lwipStandardChksum h)
  rw [Nat.add_zero] at hsum
  exact ⟨_, hsum, by rw [tInetChksum, toNat_compl_toUInt16 hlt]⟩

/-- `t_inet_chksum` makes the sum up to a multiple of 65535. -/
theorem dvd_tInetChksum {bytes : List UInt8} (h : bytes.length < 65536) :
    65535 ∣ sumLE bytes + (tInetChksum bytes).toNat := by
  obtain ⟨n, hn, heq⟩ := tInetChksum_folds h
  rw [heq]
  exact hn.dvd_add_compl

theorem toNat_swapSum {acc : UInt32} (h : acc.toNat < 65536) :
    (swapSum acc).toNat = acc.toNat % 256 * 256 + acc.toNat / 256 := by
  have e1 : acc.toNat &&& 255 = acc.toNat % 256 := Nat.and_two_pow_sub_one_eq_mod _ 8
  have e2 : acc.toNat &&& 65280 = acc.toNat / 256 % 256 * 256 := by
    rw [show 65280 = 255 * 2 ^ 8 from rfl, and_byteMask]
    norm_num
  have e3 : 256 * (acc.toNat % 256) ||| acc.toNat / 256 =
      256 * (acc.toNat % 256) + acc.toNat / 256 :=
    (Nat.two_pow_add_eq_or_of_lt (i := 8) (by omega) _).symm
  simp only [swapSum, UInt32.toNat_or, UInt32.toNat_shiftLeft, UInt32.toNat_shiftRight,
    UInt32.toNat_and, UInt32.toNat_ofNat]
  norm_num [Nat.shiftLeft_eq, Nat.shiftRight_eq_div_pow, e1, e2]
  rw [show acc.toNat % 256 * 256 % 4294967296 = 256 * (acc.toNat % 256) by omega,
    show acc.toNat / 256 % 256 = acc.toNat / 256 by omega, e3]
  omega

theorem folds_swapSum {acc : UInt32} {s : Nat} (h : Folds acc.toNat s) :
    Folds (swapSum acc).toNat (256 * s) := by
  rw [toNat_swapSum h.lt]
  exact h.swap

/-- What the loop of `t_inet_chksum_pseudo` keeps of the bytes it has seen:
behind an odd number of them the sum has its bytes exchanged. -/
structure ChainSum (acc : UInt32) (swapped : Bool) (seen : List UInt8) : Prop where
  parity : swapped = decide (seen.length % 2 = 1)
  sum : Folds acc.toNat ((if swapped then 256 else 1) * sumLE seen)

namespace ChainSum

variable {acc : UInt32} {swapped : Bool} {seen : List UInt8}

/-- The sum with its bytes the right way round. -/
theorem unswap (h : ChainSum acc swapped seen) :
    Folds (if swapped then swapSum acc else acc).toNat (sumLE seen) := by
  have hsum := h.sum
  cases swapped with
  | false => simpa using hsum
  | true =>
      rw [if_pos rfl] at hsum ⊢
      exact (folds_swapSum hsum).congr (by omega) (by omega)

/-- One buffer is added in the byte order that the bytes before it ask for. -/
theorem add (h : ChainSum acc swapped seen) {q : List UInt8} (hq : q.length < 65536) :
    Folds (foldCarries (acc + (lwipStandardChksum q).toUInt32)).toNat
      ((if swapped then 256 else 1) * sumLE (seen ++ q)) := by
  have hstd := folds_lwipStandardChksum hq
  obtain ⟨hfold, -⟩ := folds_foldCarries (acc + (lwipStandardChksum q).toUInt32)
  have hlt := h.sum.lt
  have hlt' := hstd.lt
  rw [UInt32.toNat_add, UInt16.toNat_toUInt32, Nat.mod_eq_of_lt (by omega)] at hfold
  have hacc := hfold.trans h.sum
  rw [Nat.add_comm] at hacc
  have hsum := hacc.trans hstd
  have hparity := h.parity
  cases swapped with
  | false =>
      rw [sumLE_append (by simpa using hparity)]
      rw [if_neg Bool.false_ne_true] at hsum ⊢
      exact hsum.congr (by omega) (by omega)
  | true =>
      obtain ⟨hmod, hzero⟩ := sumLE_append_odd_mod (by simpa using hparity) q
      rw [if_pos rfl] at hsum ⊢
      exact hsum.congr (by omega) (by omega)

theorem round (h : ChainSum acc swapped seen) {q : List UInt8} (hq : q.length < 65536) :
    let acc := foldCarries (acc + (lwipStandardChksum q).toUInt32)
    if q.length % 2 ≠ 0 then ChainSum (swapSum acc) (!swapped) (seen ++ q)
      else ChainSum acc swapped (seen ++ q) := by
  have hsum := h.add hq
  have hparity := h.parity
  have hlen : (seen ++ q).length = seen.length + q.length := List.length_append
  intro acc
  split
  · next hodd =>
    refine ⟨?_, ?_⟩
    · rw [hparity, hlen, ← decide_not, decide_eq_decide]
      omega
    · cases swapped with
      | false => simpa using folds_swapSum hsum
      | true =>
          rw [if_pos rfl] at hsum
          simpa using (folds_swapSum hsum).congr (t := 1 * sumLE (seen ++ q)) (by omega) (by omega)
  · next heven =>
    refine ⟨?_, hsum⟩
    rw [hparity, hlen, decide_eq_decide]
    omega

/-- The whole chain. -/
theorem chain (h : ChainSum acc swapped seen) {chain : List (List UInt8)}
    (hchain : ∀ q ∈ chain, q.length < 65536) :
    ChainSum (chksumChain acc swapped chain).1 (chksumChain acc swapped chain).2
      (seen ++ chain.flatten) := by
  induction chain generalizing acc swapped seen with
  | nil => simpa [chksumChain] using h
  | cons q chain ih =>
      have hround := h.round (hchain q List.mem_cons_self)
      have hrest : ∀ q ∈ chain, q.length < 65536 := fun q' hq =>
        hchain q' (List.mem_cons_of_mem q hq)
      rw [List.flatten_cons, ← List.append_assoc]
      simp only [chksumChain]
      by_cases hodd : q.length % 2 ≠ 0
      · simp only [if_pos hodd] at hround ⊢
        exact ih hround hrest
      · simp only [if_neg hodd] at hround ⊢
        exact ih hround hrest

theorem start : ChainSum 0 false [] := ⟨rfl, by simpa [sumLE] using Folds.zero_zero⟩

end ChainSum

/-- The words of the pseudo header, as the machine loads them. -/
def pseudoSum (src dest : UInt32) (proto : UInt8) (protoLen : UInt16) : Nat :=
  src.toNat % 65536 + src.toNat / 65536 + dest.toNat % 65536 + dest.toNat / 65536 +
    (htons proto.toUInt16).toNat + (htons protoLen).toNat

/-- `t_inet_chksum_pseudo` is the complement of the folded sum of pseudo
header and chain. -/
theorem tInetChksumPseudo_folds {chain : List (List UInt8)} (h : ∀ q ∈ chain, q.length < 65536)
    (src dest : UInt32) (proto : UInt8) (protoLen : UInt16) :
    ∃ n, Folds n (pseudoSum src dest proto protoLen + sumLE chain.flatten) ∧
      (tInetChksumPseudo chain src dest proto protoLen).toNat = 65535 - n := by
  obtain ⟨acc, hacc⟩ : ∃ acc, acc = if (chksumChain 0 false chain).2 then
      swapSum (chksumChain 0 false chain).1 else (chksumChain 0 false chain).1 := ⟨_, rfl⟩
  have hsum : Folds acc.toNat (sumLE chain.flatten) := by
    rw [hacc]
    exact (ChainSum.start.chain h).unswap
  have hand : ∀ a : UInt32, (a &&& (0xffff : UInt32)).toNat = a.toNat % 65536 := fun a =>
    Nat.and_two_pow_sub_one_eq_mod _ 16
  have hshr : ∀ a : UInt32, ((a >>> 16) &&& (0xffff : UInt32)).toNat = a.toNat / 65536 := fun a => by
    have ha := a.toNat_lt
    rw [hand, UInt32.toNat_shiftRight, show (16 : UInt32).toNat % 32 = 16 from rfl,
      Nat.shiftRight_eq_div_pow]
    omega
  obtain ⟨total, htotal⟩ : ∃ total, total = acc + (src &&& (0xffff : UInt32)) +
      ((src >>> 16) &&& (0xffff : UInt32)) + (dest &&& (0xffff : UInt32)) +
      ((dest >>> 16) &&& (0xffff : UInt32)) + (htons proto.toUInt16).toUInt32 +
      (htons protoLen).toUInt32 := ⟨_, rfl⟩
  have hsum7 : ∀ a b c d e f g : Nat, a < 65536 → b < 65536 → c < 65536 → d < 65536 → e < 65536 →
      f < 65536 → g < 65536 → ((((((a + b) % 2 ^ 32 + c) % 2 ^ 32 + d) % 2 ^ 32 + e) % 2 ^ 32 +
        f) % 2 ^ 32 + g) % 2 ^ 32 = a + (b + c + d + e + f + g) := by omega
  have htot : total.toNat = acc.toNat + pseudoSum src dest proto protoLen := by
    have hsrc := src.toNat_lt
    have hdest := dest.toNat_lt
    rw [htotal, pseudoSum]
    simp only [UInt32.toNat_add, hshr, UInt16.toNat_toUInt32]
    rw [hand, hand]
    exact hsum7 _ _ _ _ _ _ _ hsum.lt (by omega) (by omega) (by omega) (by omega)
      (htons proto.toUInt16).toNat_lt (htons protoLen).toNat_lt
  obtain ⟨hfolds, hlt⟩ := folds_foldCarries total
  rw [htot] at hfolds
  refine ⟨(foldCarries total).toNat, ?_, ?_⟩
  · rw [Nat.add_comm (pseudoSum ..)]
    exact hfolds.trans hsum
  · rw [← toNat_compl_toUInt16 hlt, htotal, hacc, tInetChksumPseudo]

/-- `t_inet_chksum_pseudo` of one buffer makes the sum of pseudo header and
buffer up to a multiple of 65535. -/
theorem dvd_tInetChksumPseudo {bytes : List UInt8} (h : bytes.length < 65536) (src dest : UInt32)
    (proto : UInt8) (protoLen : UInt16) :
    65535 ∣ pseudoSum src dest proto protoLen + sumLE bytes +
      (tInetChksumPseudo [bytes] src dest proto protoLen).toNat := by
  obtain ⟨n, hn, heq⟩ := tInetChksumPseudo_folds
    (show ∀ q ∈ [bytes], q.length < 65536 by simpa using h) src dest proto protoLen
  rw [List.flatten_singleton] at hn
  rw [heq]
  exact hn.dvd_add_compl

/-! ## headers -/

/-- The IP header with its checksum sums up to a multiple of 65535. -/
theorem dvd_ipHdrWrite (p : Pbuf) (h : Nat) (src : UInt32) (dst : AddrPtr)
    (ttl tos proto : UInt8) :
    65535 ∣ sumLE ((ipHdrWrite p h src dst ttl tos proto).mem.slice h 20) := by
  have hset : ∃ q, ipHdrWrite p h src dst ttl tos proto = tIphChksumSet q h := ⟨_, rfl⟩
  obtain ⟨q, hq⟩ := hset
  have hsum := sumLE_slice_set16 (q.set16 (h + 10) 0).mem h (k := 10) (n := 20) (by omega)
    (by omega) (by rw [Pbuf.set16_mem, ByteMem.get16_set16_self])
    (tInetChksum ((q.set16 (h + 10) 0).mem.slice h 20))
  rw [hq, tIphChksumSet, Pbuf.set16_mem, hsum]
  exact dvd_tInetChksum (by rw [ByteMem.length_slice]; omega)

/-- The checksum of pseudo header and data, put into its field at `o`. -/
def chksumPseudoSet (p : Pbuf) (o : Nat) (src dst : UInt32) (proto : UInt8) : Pbuf :=
  let p := p.set16 o 0
  p.set16 o (tInetChksumPseudo [p.data] src dst proto p.totLen)

theorem dvd_chksumPseudoSet (p : Pbuf) {k : Nat} (hk : k % 2 = 0) (hlen : k + 2 ≤ p.len.toNat)
    (src dst : UInt32) (proto : UInt8) :
    65535 ∣ pseudoSum src dst proto p.totLen +
      sumLE (chksumPseudoSet p (p.payload + k) src dst proto).data := by
  have hlt := p.len.toNat_lt
  obtain ⟨q, hq⟩ : ∃ q, q = p.set16 (p.payload + k) 0 := ⟨_, rfl⟩
  have hsum := sumLE_slice_set16 q.mem p.payload hk hlen
    (by rw [hq, Pbuf.set16_mem, ByteMem.get16_set16_self])
    (tInetChksumPseudo [q.data] src dst proto p.totLen)
  have hdata : q.mem.slice p.payload p.len.toNat = q.data := by rw [hq]; rfl
  have hres : (chksumPseudoSet p (p.payload + k) src dst proto).data =
      (q.mem.set16 (p.payload + k) (tInetChksumPseudo [q.data] src dst proto p.totLen)).slice
        p.payload p.len.toNat := by
    rw [chksumPseudoSet, ← hq, Pbuf.data]
    simp only [Pbuf.set16_mem, Pbuf.set16_payload, Pbuf.set16_len]
    rw [hq]
    rfl
  rw [hres, hsum, hdata, ← Nat.add_assoc]
  refine dvd_tInetChksumPseudo ?_ src dst proto p.totLen
  rw [← hdata, ByteMem.length_slice]
  omega

/-! ## frames -/

/-- A 16-bit number as it goes over the wire. -/
def be16 (n : Nat) : List UInt8 := [UInt8.ofNat (n / 256), UInt8.ofNat n]

/-- An IPv4 packet behind an Ethernet header: a header of five words without
options that tells the length of the packet, and whose checksum is right. -/
structure IpVerifies (netif : Netif) (frame : List UInt8) : Prop where
  length : 34 ≤ frame.length
  srcMac : (frame.drop 6).take 6 = netif.hwaddr.toList
  ethType : (frame.drop 12).take 2 = [0x08, 0x00]
  version : (frame.drop 14).take 1 = [0x45]
  totalLen : (frame.drop 16).take 2 = be16 (frame.length - 14)
  chksum : onesSum ((frame.drop 14).take 20) = 0xffff

/-- The pseudo header of a TCP segment, with the addresses of its IP header. -/
def tcpPseudoHeader (frame : List UInt8) : List UInt8 :=
  (frame.drop 26).take 8 ++ [0, 6] ++ be16 (frame.length - 34)

/-- A frame with a TCP segment whose checksum is right. -/
structure TcpVerifies (netif : Netif) (frame : List UInt8) : Prop where
  ip : IpVerifies netif frame
  proto : (frame.drop 23).take 1 = [6]
  chksum : onesSum (tcpPseudoHeader frame ++ frame.drop 34) = 0xffff

theorem take_drop_slice (m : ByteMem) (o : Nat) {a b n : Nat} (h : a + b ≤ n) :
    ((m.slice o n).drop a).take b = m.slice (o + a) b := by
  obtain ⟨r, rfl⟩ : ∃ r, n = a + (b + r) := ⟨n - a - b, by omega⟩
  rw [ByteMem.drop_slice, ByteMem.slice_add, List.take_append_of_le_length (by simp),
    List.take_of_length_le (by simp)]

/-- A word in network byte order. -/
theorem slice_of_get16 {m : ByteMem} {o : Nat} {v : UInt16} (h : m.get16 o = htons v) :
    m.slice o 2 = be16 v.toNat := by
  obtain ⟨b0, b1, h0, h1, hv⟩ := exists_bytes16 v
  have hm0 := (m o).toNat_lt
  have hm1 := (m (o + 1)).toNat_lt
  have hword := congrArg UInt16.toNat h
  rw [ByteMem.get16, toNat_word, toNat_htons h0 h1 hv] at hword
  have hslice : m.slice o 2 = [m o, m (o + 1)] := rfl
  have hbytes : (m o).toNat = b1 ∧ (m (o + 1)).toNat = b0 := by omega
  rw [hslice, be16, hv]
  congr 1
  · apply UInt8.toNat_inj.1
    rw [UInt8.toNat_ofNat']
    omega
  · congr 1
    apply UInt8.toNat_inj.1
    rw [UInt8.toNat_ofNat']
    omega

theorem sumLE_be16 (v : UInt16) : sumLE (be16 v.toNat) = (htons v).toNat := by
  obtain ⟨b0, b1, h0, h1, hv⟩ := exists_bytes16 v
  rw [toNat_htons h0 h1 hv, be16]
  simp only [sumLE, UInt8.toNat_ofNat']
  omega

section
variable {q : Pbuf} {h : Nat} (hq : q.payload = h + 34) (hlt : h < 1467)
  (hfits : q.totLen.toNat + 34 < 65536) (netif : Netif) (src dst : UInt32) (ttl tos proto : UInt8)
include hq hlt hfits

/-- Every packet that `t_ip_output` sends with headroom verifies as IP. -/
theorem ipFrame_verifies :
    IpVerifies netif (ipFrame q netif src (.val dst) ttl tos proto).bytes := by
  have hf := ipFrame_fields hq hlt netif src dst ttl tos proto
  obtain ⟨q', -, -, -, -, -, -, -, -, hip⟩ :=
    ipFrame_spec q netif src (.val dst) ttl tos proto hq hlt
  obtain ⟨f, hfdef⟩ : ∃ f, f = ipFrame q netif src (.val dst) ttl tos proto := ⟨_, rfl⟩
  rw [← hfdef] at hf hip ⊢
  have htot : f.totLen.toNat = q.totLen.toNat + 34 := by
    rw [hf.totLen, UInt16.toNat_add, show (34 : UInt16).toNat = 34 from rfl]
    omega
  have hlen : f.bytes.length = q.totLen.toNat + 34 := by rw [f.length_bytes, htot]
  have hsub : ∀ a b, a + b ≤ 34 → (f.bytes.drop a).take b = f.mem.slice (h + a) b :=
    fun a b hab => by
      rw [Pbuf.bytes, hf.payload, take_drop_slice _ _ (by omega)]
  have hvhl : f.mem.slice (h + 14) 2 = be16 ((0x4500 ||| tos.toUInt16).toNat) :=
    slice_of_get16 hf.vhltos
  have hbyte := toNat_byte_or 69 (by omega) tos
  have htos := tos.toNat_lt
  rw [show (UInt16.ofNat (256 * 69)) = 0x4500 from rfl] at hbyte
  refine ⟨by omega, ?_, ?_, ?_, ?_, ?_⟩
  · rw [hsub 6 6 (by omega), hf.srcMac]
  · rw [hsub 12 2 (by omega), slice_of_get16 hf.ethType]
    rfl
  · rw [hsub 14 1 (by omega)]
    have hone : f.mem.slice (h + 14) 1 = (f.mem.slice (h + 14) 2).take 1 := rfl
    rw [hone, hvhl, be16, hbyte, show (256 * 69 + tos.toNat) / 256 = 69 by omega]
    rfl
  · rw [hsub 16 2 (by omega), slice_of_get16 hf.len, hlen, UInt16.toNat_add,
      show (20 : UInt16).toNat = 20 from rfl]
    congr 1
    omega
  · rw [hsub 14 20 (by omega), onesSum_eq_iff]
    have hslice : f.mem.slice (h + 14) 20 =
        (ipHdrWrite q' (h + 14) src (.val dst) ttl tos proto).mem.slice (h + 14) 20 :=
      ByteMem.slice_congr fun i _ => hip _ (by omega)
    refine ⟨?_, ?_⟩
    · rw [hslice]
      exact dvd_ipHdrWrite ..
    · -- the first word is not zero
      rw [show (20 : Nat) = 2 + 18 from rfl, sumLE_slice_add _ _ (by omega), hvhl, sumLE_be16]
      obtain ⟨b0, b1, h0, h1, hv⟩ := exists_bytes16 (0x4500 ||| tos.toUInt16)
      rw [toNat_htons h0 h1 hv]
      omega

end

/-- A segment whose checksum was filled in with the addresses it is sent with
verifies in its frame. -/
theorem ipFrame_tcpVerifies {q : Pbuf} (hq : q.payload = 34)
    (hfits : q.totLen.toNat + 34 < 65536) (netif : Netif) (src dst : UInt32) (ttl tos : UInt8)
    (hsum : 65535 ∣ pseudoSum src dst tIpProtoTcp q.totLen +
      sumLE (q.mem.slice 34 q.totLen.toNat)) :
    TcpVerifies netif (ipFrame q netif src (.val dst) ttl tos tIpProtoTcp).bytes := by
  have hf := ipFrame_fields (h := 0) (by rw [hq]) (by omega) netif src dst ttl tos tIpProtoTcp
  have hip := ipFrame_verifies (h := 0) (by rw [hq]) (by omega) hfits netif src dst ttl tos
    tIpProtoTcp
  obtain ⟨f, hfdef⟩ : ∃ f, f = ipFrame q netif src (.val dst) ttl tos tIpProtoTcp := ⟨_, rfl⟩
  rw [← hfdef] at hf hip ⊢
  have htot : f.totLen.toNat = 34 + q.totLen.toNat := by
    rw [hf.totLen, UInt16.toNat_add, show (34 : UInt16).toNat = 34 from rfl]
    omega
  have hbytes : f.bytes = f.mem.slice 0 (34 + q.totLen.toNat) := by
    rw [Pbuf.bytes, hf.payload, htot]
  have hlen : f.bytes.length - 34 = q.totLen.toNat := by
    rw [f.length_bytes, htot]
    omega
  refine ⟨hip, ?_, ?_⟩
  · have hword := slice_of_get16 hf.ttlProto
    have hone : f.mem.slice 23 1 = (f.mem.slice 22 2).drop 1 := rfl
    rw [hbytes, take_drop_slice _ _ (by omega), hone, hword, be16]
    have hproto := congrArg UInt16.toNat (ttlProto_proto tIpProtoTcp ttl)
    rw [UInt16.toNat_and, show (0xff : UInt16).toNat = 2 ^ 8 - 1 from rfl,
      Nat.and_two_pow_sub_one_eq_mod, show tIpProtoTcp.toUInt16.toNat = 6 from rfl] at hproto
    show [UInt8.ofNat _] = [6]
    congr 1
    apply UInt8.toNat_inj.1
    rw [UInt8.toNat_ofNat', hproto]
    rfl
  · have haddr : (f.bytes.drop 26).take 8 = f.mem.slice 26 4 ++ f.mem.slice 30 4 := by
      rw [hbytes, take_drop_slice _ _ (by omega), ← ByteMem.slice_add]
    have hseg : f.bytes.drop 34 = q.mem.slice 34 q.totLen.toNat := by
      rw [hbytes, ByteMem.drop_slice]
      exact ByteMem.slice_congr fun i _ => hf.data _ (by omega)
    have hpseudo : sumLE (tcpPseudoHeader f.bytes ++ f.bytes.drop 34) =
        pseudoSum src dst tIpProtoTcp q.totLen + sumLE (q.mem.slice 34 q.totLen.toNat) := by
      rw [hseg, tcpPseudoHeader, haddr, hlen, sumLE_append (by simp [be16]),
        sumLE_append (by simp), sumLE_append (by simp), sumLE_append (by simp), sumLE_slice_four,
        sumLE_slice_four, hf.src, hf.dst, sumLE_be16, pseudoSum]
      have hproto : sumLE [0, 6] = (htons tIpProtoTcp.toUInt16).toNat := by decide
      omega
    rw [onesSum_eq_iff, hpseudo]
    refine ⟨hsum, ?_⟩
    have hproto : (htons tIpProtoTcp.toUInt16).toNat = 1536 := by decide
    rw [pseudoSum]
    omega

end TTcp
