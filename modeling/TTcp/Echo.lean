import TTcp.Packet

/-!
# TTcp.Echo

The answer of `t_icmp_input` to an echo request.
-/

namespace TTcp

/-- The reply is written over the addresses and the first four bytes behind the
header. -/
theorem icmpReplyWrite_spec (p : Pbuf) (iphdr echo : Nat) :
    (icmpReplyWrite p iphdr echo).payload = p.payload ∧
      (icmpReplyWrite p iphdr echo).totLen = p.totLen ∧
      (icmpReplyWrite p iphdr echo).len = p.len ∧
      ∀ i, i < iphdr + 12 ∨ iphdr + 20 ≤ i → i < echo ∨ echo + 4 ≤ i →
        (icmpReplyWrite p iphdr echo).mem i = p.mem i := by
  refine ⟨by simp [icmpReplyWrite], by simp [icmpReplyWrite], by simp [icmpReplyWrite],
    fun i hip hecho => ?_⟩
  simp only [icmpReplyWrite, Pbuf.rd32_fst, Pbuf.rd32_snd, Pbuf.rd16_fst, Pbuf.rd16_snd,
    Pbuf.set16_mem, Pbuf.set32_mem, Pbuf.see_mem]
  rw [ByteMem.set16_apply_of_disjoint _ _ (by omega),
    ByteMem.set16_apply_of_disjoint _ _ (by omega),
    ByteMem.set16_apply_of_disjoint _ _ (by omega),
    ByteMem.set32_apply_of_disjoint _ _ (by omega),
    ByteMem.set32_apply_of_disjoint _ _ (by omega)]

/-- Behind type, code and checksum, the reply is the request. -/
theorem icmpReplyWrite_bytes_drop {p : Pbuf} {echo : Nat} (hpay : p.payload = echo)
    (hecho : 34 ≤ echo) : (icmpReplyWrite p 14 echo).bytes.drop 4 = p.bytes.drop 4 := by
  obtain ⟨hpay', htot, -, hmem⟩ := icmpReplyWrite_spec p 14 echo
  rw [Pbuf.bytes, hpay', htot, Pbuf.bytes, hpay]
  apply List.ext_getElem (by simp)
  intro i h1 h2
  simp only [List.getElem_drop, ByteMem.getElem_slice]
  exact hmem _ (by omega) (by omega)

/-- Masking the low byte out of a word in network byte order. -/
theorem htons_get16_high (m : ByteMem) (o : Nat) :
    htons (m.get16 o) &&& (0xff00 : UInt16) = (m o).toUInt16 <<< (8 : UInt16) := by
  have h0 := (m o).toNat_lt
  have h1 := (m (o + 1)).toNat_lt
  apply UInt16.toNat_inj.1
  rw [UInt16.toNat_and, toNat_htons_get16, show (0xff00 : UInt16).toNat = 255 * 2 ^ 8 from rfl,
    and_byteMask, UInt16.toNat_shiftLeft, UInt8.toNat_toUInt16]
  simp [Nat.shiftLeft_eq]
  omega

section
variable {pkt : Ipv4Packet} {rest : List UInt8} {q : Pbuf} (h : Received pkt rest q)
include h

/-- Without its IP header the packet is what stands behind it. -/
theorem Received.pull : ∃ e r, tPbufHeader (q.see 16) (pkt.hlen : Int) = (0, r) ∧
    r = { q with
      payload := 14 + pkt.hlen
      totLen := UInt16.ofNat rest.length
      len := UInt16.ofNat rest.length
      rdEnd := e } := by
  have hle := pkt.hlen_le_sixty
  have htot := h.totLen
  have hlt := q.totLen.toNat_lt
  have hsub : q.totLen - UInt16.ofNat pkt.hlen = UInt16.ofNat rest.length := by
    apply UInt16.toNat_inj.1
    rw [UInt16.toNat_sub, UInt16.toNat_ofNat', UInt16.toNat_ofNat']
    omega
  rw [tPbufHeader_pull _ (by rw [Pbuf.see_payload, h.payload]; omega), Pbuf.see_payload, h.payload,
    Pbuf.see_totLen, Pbuf.see_len, h.len, hsub]
  exact ⟨_, _, rfl, rfl⟩

/-- An echo request is answered in place, anything else is not answered. -/
theorem tIcmpInput_frames (hrest : 0 < rest.length) (net : Net) (netif : Netif) :
    ∃ e, let r : Pbuf := { q with
          payload := 14 + pkt.hlen
          totLen := UInt16.ofNat rest.length
          len := UInt16.ofNat rest.length
          rdEnd := e }
      frames (tIcmpInput net netif q).2.2 = if frameMem rest 0 = tIcmpEchoRequest then
          [(netif, (ipFrame ((icmpReplyWrite r 14 (14 + pkt.hlen)).see 24) netif netif.ipAddr (.pkt 30)
            (htons (q.mem.get16 22) >>> 8).toUInt8 0 tIpProtoIcmp).bytes)]
        else [] := by
  have hge := pkt.hlen_ge
  have hle := pkt.hlen_le_sixty
  obtain ⟨e, r1, hpull, hr1⟩ := h.pull
  obtain ⟨r, hr⟩ : ∃ r, r = r1.see (14 + pkt.hlen + 1) := ⟨_, rfl⟩
  have hpay : r1.payload = 14 + pkt.hlen := by rw [hr1]
  have hmem : r.mem = q.mem := by rw [hr, hr1]; rfl
  have htype : r1.mem (14 + pkt.hlen) = frameMem rest 0 := by
    rw [hr1]
    exact h.rest 0 hrest
  have hvhl : ((htons (q.mem.get16 14) >>> 8) &&& 0x0f).toNat * 4 = pkt.hlen := h.hl
  refine ⟨r.rdEnd, ?_⟩
  have hreq : ({ q with
      payload := 14 + pkt.hlen
      totLen := UInt16.ofNat rest.length
      len := UInt16.ofNat rest.length
      rdEnd := r.rdEnd } : Pbuf) = r := by rw [hr, hr1]; rfl
  rw [hreq]
  unfold tIcmpInput
  simp only [h.payload, Pbuf.rd16_fst, Pbuf.rd16_snd, hvhl, if_pos (show pkt.hlen < 100 by omega),
    hpull, Pbuf.rd8_fst, Pbuf.rd8_snd, hpay, htype, ← hr]
  split
  · obtain ⟨t, ht⟩ : ∃ t, t = icmpReplyWrite r 14 (14 + pkt.hlen) := ⟨_, rfl⟩
    obtain ⟨htpay, -, -, htmem⟩ := icmpReplyWrite_spec r 14 (14 + pkt.hlen)
    have hpay' : r.payload = 14 + pkt.hlen := by rw [hr]; exact hpay
    rw [← ht] at htpay htmem
    have httl : t.mem.get16 22 = q.mem.get16 22 :=
      ByteMem.get16_congr fun i hi => by rw [htmem _ (by omega) (by omega), hmem]
    simp only [hpay', ← ht, Nat.reduceAdd, httl]
    rw [tIpOutput_frames_null, tIpOutput_frames _ _ _ _ _ _ _ _ _
      (by rw [Pbuf.see_payload, htpay, hpay']; omega)
      (by rw [Pbuf.see_payload, htpay, hpay']; omega)]
    rfl
  · rfl

end

end TTcp
