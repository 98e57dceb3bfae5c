import TTcp.Raw

/-!
# TTcp.Packet

An IPv4 packet as it arrives in an Ethernet frame, with whatever follows it
there.

`t_ip_input` finds the end of the header by its length field, but not the end
of the packet: what a handler gets is everything behind the header, the rest of
the frame included (`rawDemux_frame`).
-/

namespace TTcp

/-! ## bytes of a frame -/

theorem frameMem_append_left {xs ys : List UInt8} {i : Nat} (h : i < xs.length) :
    frameMem (xs ++ ys) i = frameMem xs i :=
  List.getD_append _ _ _ _ h

theorem frameMem_append_right (xs ys : List UInt8) (i : Nat) :
    frameMem (xs ++ ys) (xs.length + i) = frameMem ys i := by
  rw [frameMem, ByteMem.ofList, List.getD_append_right _ _ _ _ (by omega)]
  simp [frameMem, ByteMem.ofList]

/-- A word in network byte order. -/
theorem toNat_htons_get16 (m : ByteMem) (o : Nat) :
    (htons (m.get16 o)).toNat = 256 * (m o).toNat + (m (o + 1)).toNat := by
  have h0 := (m o).toNat_lt
  have h1 := (m (o + 1)).toNat_lt
  have hw : (m.get16 o).toNat = (m o).toNat + 256 * (m (o + 1)).toNat := by
    rw [ByteMem.get16]
    simp
    omega
  rw [toNat_htons h0 h1 hw]
  omega

/-! ## packets -/

/-- The Ethernet header of an IPv4 frame. -/
def ethHeader (dstMac srcMac : Vector UInt8 6) : List UInt8 :=
  dstMac.toList ++ srcMac.toList ++ [0x08, 0x00]

@[simp] theorem length_ethHeader (dstMac srcMac : Vector UInt8 6) :
    (ethHeader dstMac srcMac).length = 14 := by simp [ethHeader]

/-- A well-formed IPv4 packet: version 4, and as many bytes as its total length
field says, with the header among them. -/
structure Ipv4Packet where
  bytes : List UInt8
  ihl : Nat
  vhl : (frameMem bytes 0).toNat = 64 + ihl
  ihl_ge : 5 ≤ ihl
  ihl_le : ihl ≤ 15
  totalLen : 256 * (frameMem bytes 2).toNat + (frameMem bytes 3).toNat = bytes.length
  hlen_le : 4 * ihl ≤ bytes.length

namespace Ipv4Packet

/-- The length of the header. -/
def hlen (pkt : Ipv4Packet) : Nat := 4 * pkt.ihl

/-- The protocol field. -/
def proto (pkt : Ipv4Packet) : UInt8 := frameMem pkt.bytes 9

/-- The source address, as it stands in memory. -/
def src (pkt : Ipv4Packet) : UInt32 := (frameMem pkt.bytes).get32 12

/-- The destination address, as it stands in memory. -/
def dst (pkt : Ipv4Packet) : UInt32 := (frameMem pkt.bytes).get32 16

/-- What the packet carries. -/
def body (pkt : Ipv4Packet) : List UInt8 := pkt.bytes.drop pkt.hlen

/-- The frame with the packet and a trailer. -/
def frame (pkt : Ipv4Packet) (dstMac srcMac : Vector UInt8 6) (trailer : List UInt8) : List UInt8 :=
  ethHeader dstMac srcMac ++ (pkt.bytes ++ trailer)

variable (pkt : Ipv4Packet)

theorem hlen_ge : 20 ≤ pkt.hlen := by
  have := pkt.ihl_ge
  unfold hlen
  omega

theorem hlen_le_sixty : pkt.hlen ≤ 60 := by
  have := pkt.ihl_le
  unfold hlen
  omega

theorem length_body : pkt.hlen + pkt.body.length = pkt.bytes.length := by
  have h := pkt.hlen_le
  rw [body, List.length_drop, hlen]
  omega

theorem length_frame (dstMac srcMac : Vector UInt8 6) (trailer : List UInt8) :
    (pkt.frame dstMac srcMac trailer).length = 14 + pkt.hlen + (pkt.body ++ trailer).length := by
  have h := pkt.length_body
  simp [frame]
  omega

theorem frameMem_body (i : Nat) :
    frameMem pkt.body i = frameMem pkt.bytes (pkt.hlen + i) := by
  simp [body, frameMem, ByteMem.ofList, List.getD_eq_getElem?_getD, List.getElem?_drop]

end Ipv4Packet

/-! ## the packet in a pbuf -/

/-- The packet as `t_ip_input` hands it on: the payload pointer is on the IP
header, and `rest` is what stands behind the header. -/
structure Received (pkt : Ipv4Packet) (rest : List UInt8) (q : Pbuf) : Prop where
  payload : q.payload = 14
  totLen : q.totLen.toNat = pkt.hlen + rest.length
  len : q.len = q.totLen
  ref : q.ref = 1
  hl : (tIphHl q.mem 14).toNat * 4 = pkt.hlen
  header : ∀ i < pkt.hlen, q.mem (14 + i) = frameMem pkt.bytes i
  rest : ∀ i < rest.length, q.mem (14 + pkt.hlen + i) = frameMem rest i

namespace Received

variable {pkt : Ipv4Packet} {rest : List UInt8} {q : Pbuf} (h : Received pkt rest q)
include h

theorem src : q.mem.get32 26 = pkt.src :=
  have hge := pkt.hlen_ge
  ByteMem.get32_congr fun i hi => by
    rw [show 26 + i = 14 + (12 + i) by omega, h.header _ (by omega)]

theorem dst : q.mem.get32 30 = pkt.dst :=
  have hge := pkt.hlen_ge
  ByteMem.get32_congr fun i hi => by
    rw [show 30 + i = 14 + (16 + i) by omega, h.header _ (by omega)]

theorem get16 {i : Nat} (hi : i + 2 ≤ rest.length) :
    q.mem.get16 (14 + pkt.hlen + i) = (frameMem rest).get16 i :=
  ByteMem.get16_congr fun j hj => by
    rw [Nat.add_assoc (14 + pkt.hlen), h.rest _ (by omega)]

theorem get32 {i : Nat} (hi : i + 4 ≤ rest.length) :
    q.mem.get32 (14 + pkt.hlen + i) = (frameMem rest).get32 i :=
  ByteMem.get32_congr fun j hj => by
    rw [Nat.add_assoc (14 + pkt.hlen), h.rest _ (by omega)]

end Received

/-- `t_raw_input` brings the packet to the handler of its protocol, with the
trailer as part of it, unless nothing stands behind the header. -/
theorem rawDemux_frame {p : Pbuf} {pkt : Ipv4Packet} {dstMac srcMac : Vector UInt8 6}
    {trailer : List UInt8} (hp : Holds p (pkt.frame dstMac srcMac trailer)) :
    ∃ q, rawDemux p = (if (pkt.body ++ trailer).length = 0 then .drop (-1)
        else ipHandler pkt.proto.toUInt16, q) ∧
      Received pkt (pkt.body ++ trailer) q ∧ q.mem = p.mem := by
  obtain ⟨frame, hframe⟩ : ∃ frame, frame = pkt.frame dstMac srcMac trailer := ⟨_, rfl⟩
  have hlen := pkt.length_frame dstMac srcMac trailer
  have hge := pkt.hlen_ge
  have hle := pkt.hlen_le_sixty
  have hbody := pkt.length_body
  rw [List.length_append] at hlen
  -- the three parts of the frame
  have heth : ∀ i < 14, frameMem frame i = frameMem (ethHeader dstMac srcMac) i := fun i hi => by
    rw [hframe, Ipv4Packet.frame, frameMem_append_left (by simpa using hi)]
  have hpkt : ∀ i < pkt.bytes.length, frameMem frame (14 + i) = frameMem pkt.bytes i := fun i hi => by
    have happ := frameMem_append_right (ethHeader dstMac srcMac) (pkt.bytes ++ trailer) i
    rw [length_ethHeader] at happ
    rw [hframe, Ipv4Packet.frame, happ, frameMem_append_left hi]
  have hrest : ∀ i < (pkt.body ++ trailer).length,
      frameMem frame (14 + pkt.hlen + i) = frameMem (pkt.body ++ trailer) i := fun i hi => by
    by_cases hin : i < pkt.body.length
    · rw [Nat.add_assoc, hpkt _ (by omega), frameMem_append_left hin, pkt.frameMem_body]
    · obtain ⟨j, rfl⟩ : ∃ j, i = pkt.body.length + j := ⟨i - pkt.body.length, by omega⟩
      have happ := frameMem_append_right (ethHeader dstMac srcMac ++ pkt.bytes) trailer j
      rw [frameMem_append_right, ← happ, hframe, Ipv4Packet.frame, List.append_assoc]
      congr 1
      rw [List.length_append, length_ethHeader]
      omega
  rw [← hframe] at hp hlen
  have hbyte : ∀ i < frame.length, p.mem i = frameMem frame i := fun i hi => hp.apply hi
  -- its fields
  have htype : (frameMem frame).get16 12 = htons 0x800 := by
    have hmac : (dstMac.toList ++ srcMac.toList).length = 12 := by simp
    have h12 := frameMem_append_right (dstMac.toList ++ srcMac.toList) [0x08, 0x00] 0
    have h13 := frameMem_append_right (dstMac.toList ++ srcMac.toList) [0x08, 0x00] 1
    rw [hmac] at h12 h13
    rw [ByteMem.get16, heth 12 (by omega), heth 13 (by omega), ethHeader, h12, h13]
    rfl
  have hvhl : (htons ((frameMem frame).get16 14)).toNat =
      256 * (64 + pkt.ihl) + (frameMem frame 15).toNat := by
    rw [toNat_htons_get16, show (14 : Nat) = 14 + 0 from rfl, hpkt 0 (by omega), pkt.vhl]
  have h15 := (frameMem frame 15).toNat_lt
  have hihl := pkt.ihl_le
  have hver : tIphV (frameMem frame) 14 = 4 := by
    apply UInt16.toNat_inj.1
    rw [tIphV, UInt16.toNat_shiftRight, hvhl]
    simp [Nat.shiftRight_eq_div_pow]
    omega
  have hhl : (tIphHl (frameMem frame) 14).toNat = pkt.ihl := by
    rw [tIphHl, UInt16.toNat_and, UInt16.toNat_shiftRight, hvhl,
      show (0x0f : UInt16).toNat = 2 ^ 4 - 1 from rfl, Nat.and_two_pow_sub_one_eq_mod]
    simp [Nat.shiftRight_eq_div_pow]
    omega
  have hproto : tIphProto (frameMem frame) 14 = pkt.proto.toUInt16 := by
    have hlow := (frameMem frame 23).toNat_lt
    apply UInt16.toNat_inj.1
    rw [tIphProto, UInt16.toNat_and, toNat_htons_get16,
      show (0xff : UInt16).toNat = 2 ^ 8 - 1 from rfl, Nat.and_two_pow_sub_one_eq_mod,
      UInt8.toNat_toUInt16, Ipv4Packet.proto, ← hpkt 9 (by omega)]
    simp only [Nat.reduceAdd, Nat.reducePow]
    omega
  obtain ⟨e, he⟩ := rawDemux_ip hp (by omega) htype hver
  rw [hhl, hproto] at he
  obtain ⟨q, hq⟩ : ∃ q : Pbuf, q = { p with
    payload := 14, totLen := p.totLen - 14, len := p.len - 14, rdEnd := e } := ⟨_, rfl⟩
  have hmem : q.mem = p.mem := by rw [hq]
  rw [← hq] at he
  refine ⟨q, ?_, ⟨by rw [hq], ?_, by rw [hq, hp.len], by rw [hq, hp.ref], ?_, fun i hi => ?_,
    fun i hi => ?_⟩, hmem⟩
  · rw [he]
    congr 1
    rw [List.length_append]
    unfold Ipv4Packet.hlen at hlen
    split <;> split <;> first | rfl | omega
  · have hlt := p.totLen.toNat_lt
    have htot := hp.totLen
    rw [hq, List.length_append, UInt16.toNat_sub, show (14 : UInt16).toNat = 14 from rfl]
    omega
  · rw [hmem, Ipv4Packet.hlen, ← hhl, tIphHl, tIphHl, hp.get16 (by omega), Nat.mul_comm]
  · rw [hmem, ← hpkt i (by omega)]
    exact hbyte _ (by omega)
  · rw [hmem, ← hrest i hi]
    rw [List.length_append] at hi
    exact hbyte _ (by omega)

end TTcp
