import TTcp.Arp

/-!
# TTcp.Arp.Reply

The ARP packet as the protocol has it, the reply that the protocol asks for
(`ArpPacket.answer`), and when `t_arp_input` gives it.

The reply is written over the request.  Its target address is the request's
sender address, but its target hardware address is taken from the Ethernet
header of the request: the two agree only if the request came straight from
the host it speaks of (`tArpInput_answers_iff`).
-/

namespace TTcp

/-- The fields of an ARP packet behind its Ethernet header, the 16-bit ones in
the byte order of the network. -/
structure ArpPacket where
  hwtype : UInt16
  proto : UInt16
  hwlenProtolen : UInt16
  opcode : UInt16
  senderMac : Vector UInt8 6
  senderIp : UInt32
  targetMac : Vector UInt8 6
  targetIp : UInt32
deriving DecidableEq

/-- The packet of the frame at `h`. -/
def arpAt (m : ByteMem) (h : Nat) : ArpPacket where
  hwtype := m.get16 (h + 14)
  proto := m.get16 (h + 16)
  hwlenProtolen := m.get16 (h + 18)
  opcode := m.get16 (h + 20)
  senderMac := macAt m (h + 22)
  senderIp := m.get32 (h + 28)
  targetMac := macAt m (h + 32)
  targetIp := m.get32 (h + 38)

/-- The reply of the interface to a request. -/
def ArpPacket.answer (netif : Netif) (req : ArpPacket) : ArpPacket :=
  { req with
    opcode := htons tArpReplyOp
    senderMac := netif.hwaddr
    senderIp := netif.ipAddr
    targetMac := req.senderMac
    targetIp := req.senderIp }

theorem arpAt_bytes {p : Pbuf} (h : 42 ≤ p.totLen.toNat) :
    arpAt (frameMem p.bytes) 0 = arpAt p.mem p.payload := by
  simp only [arpAt, Nat.zero_add]
  rw [frameMem_get16 p (by omega), frameMem_get16 p (by omega), frameMem_get16 p (by omega),
    frameMem_get16 p (by omega), frameMem_get32 p (by omega), frameMem_get32 p (by omega),
    frameMem_macAt p (by omega), frameMem_macAt p (by omega)]

/-- The reply as it is written: all of the answer but the hardware address it
is for, which is the source of the frame. -/
theorem arpAt_arpReplyWrite (p : Pbuf) (h : Nat) (netif : Netif) :
    arpAt (arpReplyWrite p h netif).mem h =
      { (arpAt p.mem h).answer netif with targetMac := macAt p.mem (h + 6) } := by
  have hkeep : ∀ k, 14 ≤ k → k + 2 ≤ 20 →
      (arpReplyWrite p h netif).mem.get16 (h + k) = p.mem.get16 (h + k) := fun k hk hk' => by
    refine ByteMem.get16_congr fun i hi => ?_
    rw [arpReplyWrite, arpSwapBytes_apply netif h _ (le_refl 6), if_neg (by omega),
      if_neg (by omega), if_neg (by omega), if_neg (by omega)]
    simp only [arpReplyAddrs, Pbuf.rd32_fst, Pbuf.rd32_snd, Pbuf.set32_mem, Pbuf.see_mem,
      Pbuf.set16_mem]
    rw [ByteMem.set32_apply_of_disjoint _ _ (by omega),
      ByteMem.set32_apply_of_disjoint _ _ (by omega), ByteMem.set16_apply_of_disjoint _ _ (by omega)]
  obtain ⟨hop, hsip, hsmac, htip, htmac⟩ := arpReplyWrite_sender p h netif
  simp only [arpAt, ArpPacket.answer, hop, hsip, hsmac, htip, htmac, hkeep 14 (by omega) (by omega),
    hkeep 16 (by omega) (by omega), hkeep 18 (by omega) (by omega)]

/-! ## what the protocol asks for -/

/-- The packet at `p` asks for the interface. -/
def ArpRequestFor (netif : Netif) (p : Pbuf) : Prop :=
  (arpAt p.mem p.payload).targetIp = netif.ipAddr ∧
    htons (arpAt p.mem p.payload).opcode = tArpRequestOp

/-- `t_arp_input` treats the packet as the protocol asks: a request for the
interface is answered with one frame, a packet for another host is left
alone. -/
structure ArpAnswers (table : ArpTable) (netif : Netif) (p : Pbuf) : Prop where
  request : ArpRequestFor netif p → ∃ frame,
    (tArpInput table netif p).2.2.2 = [.frame netif frame] ∧ frame.length = p.totLen.toNat ∧
      arpAt (frameMem frame) 0 = (arpAt p.mem p.payload).answer netif
  other : (arpAt p.mem p.payload).targetIp ≠ netif.ipAddr →
    (tArpInput table netif p).2.2 = (table, []) ∧
      (tArpInput table netif p).2.1.bytes = p.bytes ∧ SamePbuf p (tArpInput table netif p).2.1

section
variable (table : ArpTable) {netif : Netif} {p : Pbuf} (h : 42 ≤ p.totLen.toNat)
include h

/-- The frame of a reply, read back. -/
theorem ArpRequestFor.reply (hreq : ArpRequestFor netif p) : ∃ frame,
    (tArpInput table netif p).2.2.2 = [.frame netif frame] ∧ frame.length = p.totLen.toNat ∧
      arpAt (frameMem frame) 0 = { (arpAt p.mem p.payload).answer netif with
        targetMac := macAt p.mem (p.payload + 6) } := by
  obtain ⟨q, hq, hmem, heq⟩ := tArpInput_of_request table h hreq.1 hreq.2
  have hsame := hq.trans (arpReplyWrite_same q p.payload netif)
  refine ⟨(arpReplyWrite q p.payload netif).bytes, by rw [heq], ?_, ?_⟩
  · rw [Pbuf.length_bytes, hsame.totLen]
  · rw [arpAt_bytes (by rw [hsame.totLen]; exact h), hsame.payload, arpAt_arpReplyWrite, hmem]

variable {table} in
/-- An answer as the protocol asks for goes to the source of the request. -/
theorem ArpAnswers.source (hans : ArpAnswers table netif p) (hreq : ArpRequestFor netif p) :
    macAt p.mem (p.payload + 6) = (arpAt p.mem p.payload).senderMac := by
  obtain ⟨frame, hev, -, hat⟩ := hans.request hreq
  obtain ⟨frame', hev', -, hat'⟩ := hreq.reply table h
  obtain rfl : frame = frame' := by
    rw [hev] at hev'
    simpa using hev'
  rw [hat] at hat'
  exact (congrArg ArpPacket.targetMac hat').symm

end

/-- **When requests are answered**: the reply is the protocol's exactly when
the request's Ethernet header has the hardware address that its body has. -/
theorem tArpInput_answers_iff (table : ArpTable) (netif : Netif) {p : Pbuf}
    (h : 42 ≤ p.totLen.toNat) :
    ArpAnswers table netif p ↔
      (ArpRequestFor netif p →
        macAt p.mem (p.payload + 6) = (arpAt p.mem p.payload).senderMac) := by
  refine ⟨fun hans => hans.source h, fun hmac => ⟨fun hreq => ?_, fun hne => ?_⟩⟩
  · obtain ⟨frame, hev, hlen, hat⟩ := hreq.reply table h
    refine ⟨frame, hev, hlen, ?_⟩
    rw [hat, hmac hreq]
    rfl
  · rw [tArpInput_of_ne table h hne]
    exact ⟨rfl, rfl, rfl, rfl, rfl, rfl, rfl⟩

/-- A request of the second host that reaches the first straight. -/
theorem tArpInput_answers_straight :
    ArpAnswers [] (arpPair false)
      (arpPacket (arpFrame #v[2, 0, 0, 0, 0, 2] 1 #v[2, 0, 0, 0, 0, 2] 2)) :=
  (tArpInput_answers_iff [] (arpPair false) (by decide)).mpr fun _ => by decide +kernel

/-- A request of the second host that a station with another hardware address
passed on is answered to that station's hardware address. -/
theorem not_tArpInput_answers : ¬ ∀ (table : ArpTable) (netif : Netif) (p : Pbuf),
    42 ≤ p.totLen.toNat → ArpAnswers table netif p := by
  intro h
  obtain ⟨p, hp⟩ : ∃ p, p = arpPacket (arpFrame #v[2, 0, 0, 0, 0, 3] 1 #v[2, 0, 0, 0, 0, 2] 2) :=
    ⟨_, rfl⟩
  have hlen : 42 ≤ p.totLen.toNat := by rw [hp]; decide
  have hreq : ArpRequestFor (arpPair false) p := by rw [hp]; exact ⟨by decide, by decide⟩
  have hmac := (h [] (arpPair false) p hlen).source hlen hreq
  rw [hp] at hmac
  revert hmac
  decide +kernel

end TTcp
