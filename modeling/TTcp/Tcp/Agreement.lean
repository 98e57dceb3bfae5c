import TTcp.Raw
import TTcp.Tcp.Frame

/-!
# TTcp.Tcp.Agreement

A segment sent by one host and received by another: `t_tcp_input` takes out of
the frame what `t_tcp_output` put into it.

The sender counts the length of a segment in its queue entry, the receiver
gets it by taking header lengths off the length of the frame; the two agree
because the header word of every queued segment announces the header it has
(`TcpSeg.Queued.hdrlen`).
-/

namespace TTcp

/-! ## what is received -/

namespace Incoming

/-- `tcphdr->wnd`, once in host byte order. -/
def wnd (s : Incoming) : UInt16 := s.p.mem.get16 (s.tcphdr + 14)

/-- `tcplen`. -/
def tcplen (s : Incoming) : UInt16 :=
  s.p.totLen + if s.flags &&& tcpFin ≠ 0 ∨ s.flags &&& tcpSyn ≠ 0 then 1 else 0

end Incoming

/-- `t_raw_input` gives this packet to `t_tcp_input`, which decodes it so. -/
def Decodes (p : Pbuf) (s : Incoming) (k : TcpKey) : Prop :=
  ∃ r p', rawDemux p = (.tcp, r) ∧ tTcpInputHeader r = (p', some (s, k))

/-- The receiver's view `s`, `k` of a segment is the sender's packet `q`. -/
structure Agrees (q : Pbuf) (s : Incoming) (k : TcpKey) : Prop where
  src : k.src = ntohs (q.mem.get16 q.payload)
  dest : k.dest = ntohs (q.mem.get16 (q.payload + 2))
  seqno : s.seqno = ntohl (q.mem.get32 (q.payload + 4))
  ackno : s.ackno = ntohl (q.mem.get32 (q.payload + 8))
  wnd : s.wnd = ntohs (q.mem.get16 (q.payload + 14))
  flags : s.flags = tTcphFlags q.mem q.payload
  data : s.p.bytes = tcpPacketData q

/-- A TCP packet with headroom for both headers, as long as its header
announces. -/
structure TcpShape (q : Pbuf) : Prop where
  payload : q.payload = 34
  len : q.len = q.totLen
  hdrlen : 5 ≤ (tTcphHdrlen q.mem 34).toNat
  room : 4 * (tTcphHdrlen q.mem 34).toNat ≤ q.totLen.toNat
  fits : q.totLen.toNat ≤ 1480

/-! ## the frame of a packet -/

/-- The frame of a TCP packet, in a fresh pbuf of another host, goes to
`t_tcp_input`. -/
theorem rawDemux_tcpFrame {q : Pbuf} (hq : TcpShape q) {netif : Netif} {src dst : UInt32}
    {ttl tos : UInt8} {p : Pbuf}
    (hp : Holds p (ipFrame q netif src (.val dst) ttl tos tIpProtoTcp).bytes) :
    ∃ r, rawDemux p = (.tcp, r) ∧ r.payload = 14 ∧ r.totLen.toNat = q.totLen.toNat + 20 ∧
      ((htons (r.mem.get16 14) >>> 8) &&& 0x0f).toNat = 5 ∧
      ∀ i < q.totLen.toNat, r.mem (34 + i) = q.mem (34 + i) := by
  have hf := ipFrame_fields (h := 0) (by rw [hq.payload]) (by omega) netif src dst ttl tos
    tIpProtoTcp
  obtain ⟨f, hfdef⟩ : ∃ f, f = ipFrame q netif src (.val dst) ttl tos tIpProtoTcp := ⟨_, rfl⟩
  rw [← hfdef] at hf hp
  have hroom := hq.room
  have hhdr := hq.hdrlen
  have hfits := hq.fits
  have htot : f.totLen.toNat = q.totLen.toNat + 34 := by
    rw [hf.totLen, UInt16.toNat_add, show (34 : UInt16).toNat = 34 from rfl]
    omega
  have hlen : f.bytes.length = q.totLen.toNat + 34 := by rw [f.length_bytes, htot]
  have hvhl := hf.vhltos
  obtain ⟨e, hdemux⟩ := rawDemux_ipFrame hp (by omega) tos ttl tIpProtoTcp
    (by rw [frameMem_get16 _ (by omega), hf.payload]; exact hf.ethType)
    (by rw [frameMem_get16 _ (by omega), hf.payload]; exact hvhl)
    (by rw [frameMem_get16 _ (by omega), hf.payload]; exact hf.ttlProto)
  obtain ⟨r, hr⟩ : ∃ r, r = { p with
    payload := 14, totLen := p.totLen - 14, len := p.len - 14, rdEnd := e } := ⟨_, rfl⟩
  have hmem : ∀ i < f.bytes.length, r.mem i = f.mem i := fun i hi => by
    rw [hr]
    simp only
    rw [hp.apply hi, frameMem_apply _ (by rwa [f.length_bytes] at hi), hf.payload, Nat.zero_add]
  rw [← hr] at hdemux
  refine ⟨r, hdemux, by rw [hr], ?_, ?_, fun i hi => ?_⟩
  · rw [hr, UInt16.toNat_sub, hp.totLen, hlen, show (14 : UInt16).toNat = 14 from rfl]
    omega
  · rw [ByteMem.get16_congr fun i _ => hmem (14 + i) (by omega), hvhl, htons_htons, vhltos_hl]
  · rw [hmem _ (by omega), hf.data _ (by omega)]

/-! ## decoding -/

theorem tTcphHdrlen_lt (m : ByteMem) (h : Nat) : (tTcphHdrlen m h).toNat < 16 := by
  have hw := (tTcphWord m h).toNat_lt
  rw [tTcphHdrlen, UInt16.toNat_shiftRight]
  simp [Nat.shiftRight_eq_div_pow]
  omega

/-- What `t_tcp_input` takes out of a packet with an IP header of `hl` bytes and a TCP header
of `n` words: the announced header is taken off unchecked.  The addresses are read when
fields of the TCP header have been swapped already. -/
structure HeaderTaken (r : Pbuf) (hl n : Nat) (s : Incoming) (k : TcpKey) : Prop where
  payload : s.p.payload = 14 + hl + n * 4
  totLen : s.p.totLen = r.totLen - UInt16.ofNat hl - UInt16.ofNat (n * 4)
  rdEnd : s.p.rdEnd = max (max r.rdEnd 34) (30 + hl)
  tcphdr : s.tcphdr = 14 + hl
  rest : ∀ i, 14 + hl + 16 ≤ i → s.p.mem i = r.mem i
  word : s.p.mem.get16 (14 + hl + 12) = r.mem.get16 (14 + hl + 12)
  wnd : s.wnd = ntohs (r.mem.get16 (14 + hl + 14))
  seqno : s.seqno = tcphSeqno r.mem (14 + hl)
  ackno : s.ackno = ntohl (r.mem.get32 (14 + hl + 8))
  flags : s.flags = tTcphFlags r.mem (14 + hl)
  src : k.src = ntohs (r.mem.get16 (14 + hl))
  dest : k.dest = ntohs (r.mem.get16 (14 + hl + 2))
  addrs : 20 ≤ hl → k.ipSrc = r.mem.get32 26 ∧ k.ipDst = r.mem.get32 30

/-- A packet is dropped exactly when taking the IP header off leaves less than a TCP
header. -/
theorem tTcpInputHeader_cases {r : Pbuf} (hpay : r.payload = 14) {hl n : Nat}
    (hhl : (tIphHl r.mem 14).toNat * 4 = hl) (hn : (tTcphHdrlen r.mem (14 + hl)).toNat = n) :
    if (r.totLen - UInt16.ofNat hl).toNat < 20 then
      ∃ q, tTcpInputHeader r = (q, none) ∧ q.rdEnd = max r.rdEnd 16
    else ∃ s k, tTcpInputHeader r = (s.p, some (s, k)) ∧ HeaderTaken r hl n s k := by
  have hhl16 := tIphHl_lt r.mem 14
  have hn16 := tTcphHdrlen_lt r.mem (14 + hl)
  -- the IP header comes off, and then the TCP header
  obtain ⟨q1, hpull1, hpay1, hmem1, htot1, hrd1⟩ : ∃ q1, tPbufHeader (r.see 16) (hl : Int) = (0, q1) ∧
      q1.payload = 14 + hl ∧ q1.mem = r.mem ∧ q1.totLen = r.totLen - UInt16.ofNat hl ∧
      q1.rdEnd = max r.rdEnd 16 := by
    rw [tPbufHeader_pull _ (by rw [Pbuf.see_payload, hpay]; omega), Pbuf.see_payload, hpay]
    exact ⟨_, rfl, rfl, rfl, rfl, rfl⟩
  have hshort : q1.totLen < UInt16.ofNat tTcpHlen ↔ (r.totLen - UInt16.ofNat hl).toNat < 20 := by
    rw [UInt16.lt_iff_toNat_lt, htot1, tTcpHlen, UInt16.toNat_ofNat_of_lt' (show 20 < 65536 by omega)]
  obtain ⟨q2, hpull2, hpay2, hmem2, htot2, hrd2⟩ : ∃ q2,
      tPbufHeader (q1.see (14 + hl + 14)) ((n : Int) * 4) = (0, q2) ∧
        q2.payload = 14 + hl + n * 4 ∧ q2.mem = r.mem ∧
        q2.totLen = r.totLen - UInt16.ofNat hl - UInt16.ofNat (n * 4) ∧
        q2.rdEnd = max (max r.rdEnd 16) (14 + hl + 14) := by
    rw [show (n : Int) * 4 = ((n * 4 : Nat) : Int) by omega,
      tPbufHeader_pull _ (by rw [Pbuf.see_payload, hpay1]; omega), Pbuf.see_payload, hpay1,
      Pbuf.see_totLen, htot1]
    exact ⟨_, rfl, rfl, hmem1, rfl, by rw [← hrd1]; rfl⟩
  have hvhl : ((htons (r.mem.get16 14) >>> 8) &&& 0x0f).toNat * 4 = hl := hhl
  have hword : (ntohs (r.mem.get16 (14 + hl + 12)) >>> 12).toNat = n := hn
  unfold tTcpInputHeader
  simp only [hpay, Pbuf.rd16_fst, Pbuf.rd16_snd, Pbuf.rd32_fst, Pbuf.rd32_snd, hvhl, hpull1,
    Nat.reduceAdd, ne_eq, not_true_eq_false, false_or, hshort, hmem1, hword, hpull2]
  split
  · exact ⟨q1, rfl, hrd1⟩
  · refine ⟨⟨_, _, _, _, _⟩, _, rfl, ?_⟩
    simp (disch := omega) only [Pbuf.see_mem, Pbuf.set16_mem, Pbuf.set32_mem, hmem2,
      ByteMem.get16_set16_of_disjoint, ByteMem.get32_set16_of_disjoint,
      ByteMem.get32_set32_of_disjoint, ByteMem.get16_set32_of_disjoint]
    constructor
    case payload => simpa using hpay2
    case totLen => simpa using htot2
    case rdEnd =>
      simp only [Pbuf.see_rdEnd, Pbuf.set16_rdEnd, Pbuf.set32_rdEnd, hrd2]
      omega
    case tcphdr => rfl
    case rest =>
      intro i hi
      dsimp only
      rw [ByteMem.set16_apply_of_disjoint _ _ (by omega),
        ByteMem.set32_apply_of_disjoint _ _ (by omega),
        ByteMem.set32_apply_of_disjoint _ _ (by omega),
        ByteMem.set16_apply_of_disjoint _ _ (by omega),
        ByteMem.set16_apply_of_disjoint _ _ (by omega)]
    case word =>
      simp (disch := omega) only [ByteMem.get16_set16_of_disjoint, ByteMem.get16_set32_of_disjoint]
    case wnd => simp only [Incoming.wnd, ByteMem.get16_set16_self]
    case seqno => rfl
    case ackno => rfl
    case flags => rfl
    case src => rfl
    case dest => rfl
    case addrs =>
      intro h20
      simp (disch := omega) only [ByteMem.get32_set16_of_disjoint, ByteMem.get32_set32_of_disjoint,
        and_self]

/-- What `t_tcp_input` takes out of a packet with room for a TCP header. -/
theorem tTcpInputHeader_some {r : Pbuf} (hpay : r.payload = 14) {hl n : Nat}
    (hhl : (tIphHl r.mem 14).toNat * 4 = hl) (htot : hl + 20 ≤ r.totLen.toNat)
    (hn : (tTcphHdrlen r.mem (14 + hl)).toNat = n) :
    ∃ s k, tTcpInputHeader r = (s.p, some (s, k)) ∧ HeaderTaken r hl n s k := by
  have hlt := r.totLen.toNat_lt
  have hcases := tTcpInputHeader_cases hpay hhl hn
  rwa [if_neg (by rw [UInt16.toNat_sub, UInt16.toNat_ofNat']; omega)] at hcases

/-- What `t_tcp_input` takes out of a packet whose headers fit. -/
theorem tTcpInputHeader_eq {r : Pbuf} (hpay : r.payload = 14)
    (hhl : ((htons (r.mem.get16 14) >>> 8) &&& 0x0f).toNat = 5) {n : Nat}
    (hn : (tTcphHdrlen r.mem 34).toNat = n) (htot : 20 + 20 ≤ r.totLen.toNat)
    (hroom : 20 + 4 * n ≤ r.totLen.toNat) :
    ∃ p s, tTcpInputHeader r = (p, some (s,
        ⟨ntohs (r.mem.get16 34), ntohs (r.mem.get16 36), r.mem.get32 26, r.mem.get32 30⟩)) ∧
      s.p.payload = 34 + 4 * n ∧ s.p.totLen.toNat = r.totLen.toNat - (20 + 4 * n) ∧
      (∀ i, 50 ≤ i → s.p.mem i = r.mem i) ∧ s.wnd = ntohs (r.mem.get16 48) ∧
      s.seqno = ntohl (r.mem.get32 38) ∧ s.ackno = ntohl (r.mem.get32 42) ∧
      s.flags = tTcphFlags r.mem 34 := by
  have hlt := r.totLen.toNat_lt
  have hhl' : (tIphHl r.mem 14).toNat * 4 = 20 := by
    rw [tIphHl, hhl]
  obtain ⟨s, k, hhdr, h⟩ := tTcpInputHeader_some hpay hhl' htot hn
  have hk : k = ⟨ntohs (r.mem.get16 34), ntohs (r.mem.get16 36), r.mem.get32 26, r.mem.get32 30⟩ := by
    rw [← h.src, ← h.dest, ← (h.addrs le_rfl).1, ← (h.addrs le_rfl).2]
  have hpay' := h.payload
  rw [hk] at hhdr
  refine ⟨s.p, s, hhdr, by omega, ?_, h.rest, h.wnd, h.seqno, h.ackno, h.flags⟩
  rw [h.totLen, UInt16.toNat_sub, UInt16.toNat_sub, UInt16.toNat_ofNat', UInt16.toNat_ofNat']
  omega

/-- A TCP packet is decoded by another host to what it says. -/
theorem TcpShape.decodes {q : Pbuf} (hq : TcpShape q) {netif : Netif} {src dst : UInt32}
    {ttl tos : UInt8} {p : Pbuf}
    (hp : Holds p (ipFrame q netif src (.val dst) ttl tos tIpProtoTcp).bytes) :
    ∃ s k, Decodes p s k ∧ Agrees q s k ∧ s.tcplen.toNat = (tcpPacketData q).length +
      if tTcphFlags q.mem 34 &&& tcpFin ≠ 0 ∨ tTcphFlags q.mem 34 &&& tcpSyn ≠ 0 then 1 else 0 := by
  have hpay := hq.payload
  have hroom := hq.room
  have hhdr := hq.hdrlen
  have hfits := hq.fits
  obtain ⟨r, hdemux, hrpay, hrtot, hrhl, hmem⟩ := rawDemux_tcpFrame hq hp
  have h16 : ∀ o, 34 ≤ o → o + 2 ≤ 54 → r.mem.get16 o = q.mem.get16 o := fun o ho hlt =>
    ByteMem.get16_congr fun i hi => by
      have h := hmem (o - 34 + i) (by omega)
      rwa [show 34 + (o - 34 + i) = o + i by omega] at h
  have h32 : ∀ o, 34 ≤ o → o + 4 ≤ 54 → r.mem.get32 o = q.mem.get32 o := fun o ho hlt =>
    ByteMem.get32_congr fun i hi => by
      have h := hmem (o - 34 + i) (by omega)
      rwa [show 34 + (o - 34 + i) = o + i by omega] at h
  have hword : tTcphWord r.mem 34 = tTcphWord q.mem 34 := by
    rw [tTcphWord, tTcphWord, h16 _ (by omega) (by omega)]
  obtain ⟨n, hn⟩ : ∃ n, n = (tTcphHdrlen q.mem 34).toNat := ⟨_, rfl⟩
  rw [← hn] at hroom hhdr
  obtain ⟨p', s, hdec, hspay, hstot, hsmem, hwnd, hseqno, hackno, hflags⟩ :=
    tTcpInputHeader_eq hrpay hrhl (n := n) (by rw [tTcphHdrlen, hword, ← tTcphHdrlen, hn])
      (by omega) (by omega)
  have hbytes : s.p.bytes = tcpPacketData q := by
    have hlen : q.len.toNat = 4 * n + (q.totLen.toNat - 4 * n) := by
      rw [hq.len]
      omega
    rw [tcpPacketData, Pbuf.data, hpay, ← hn, hlen, ByteMem.drop_slice, Pbuf.bytes, hspay, hstot,
      hrtot, show q.totLen.toNat + 20 - (20 + 4 * n) = q.totLen.toNat - 4 * n by omega]
    refine ByteMem.slice_congr fun i hi => ?_
    have h := hmem (4 * n + i) (by omega)
    rw [hsmem _ (by omega), Nat.add_assoc, h]
  have hflags : s.flags = tTcphFlags q.mem 34 := by
    rw [hflags, tTcphFlags, hword, ← tTcphFlags]
  refine ⟨s, _, ⟨r, p', hdemux, hdec⟩, ⟨?_, ?_, ?_, ?_, ?_, ?_, hbytes⟩, ?_⟩
  · rw [hpay, ← h16 _ (by omega) (by omega)]
  · rw [hpay, ← h16 _ (by omega) (by omega)]
  · rw [hseqno, hpay, ← h32 _ (by omega) (by omega)]
  · rw [hackno, hpay, ← h32 _ (by omega) (by omega)]
  · rw [hwnd, hpay, ← h16 _ (by omega) (by omega)]
  · rw [hflags, hpay]
  · rw [Incoming.tcplen, hflags, ← hbytes, Pbuf.length_bytes, UInt16.toNat_add]
    split
    · rw [show (1 : UInt16).toNat = 1 from rfl]
      omega
    · rw [show (0 : UInt16).toNat = 0 from rfl]
      omega

/-! ## every packet -/

/-- Acknowledging leaves the header length alone. -/
theorem hdrlen_or_ack (w : UInt16) : (w ||| tcpAck) >>> 12 = w >>> 12 := by
  apply UInt16.toNat_inj.1
  rw [UInt16.toNat_shiftRight, UInt16.toNat_or, Nat.shiftRight_or_distrib,
    UInt16.toNat_shiftRight]
  exact Nat.or_zero _

/-- What a packet of a segment with this header word is decoded to. -/
structure SegPacket (seg : TcpSeg) (q : Pbuf) : Prop where
  shape : TcpShape q
  data : tcpPacketData q = seg.payload
  syn : (tTcphFlags q.mem 34 &&& tcpFin ≠ 0 ∨ tTcphFlags q.mem 34 &&& tcpSyn ≠ 0) ↔
    (seg.flags &&& tcpFin ≠ 0 ∨ seg.flags &&& tcpSyn ≠ 0)

theorem TcpSeg.Queued.segPacket (pcb pcb' : TcpPcb) {seg : TcpSeg} (h : seg.Queued) :
    SegPacket seg (segPacket (segFill pcb seg) pcb') := by
  obtain ⟨hpay, hlen, htot, hword, -, hmem⟩ := segPacket_segFill pcb pcb' h
  obtain ⟨q, hq⟩ : ∃ q, q = TTcp.segPacket (segFill pcb seg) pcb' := ⟨_, rfl⟩
  rw [← hq] at hpay hlen htot hword hmem ⊢
  have hdr : tTcphHdrlen q.mem 34 = tTcphHdrlen seg.p.mem 34 := by
    rw [tTcphHdrlen, hword, tTcphHdrlen, ← h.tcphdr, ← TcpSeg.word]
    split
    · exact hdrlen_or_ack _
    · rfl
  have hsum := h.hdrlen
  have hle := h.plen_le
  have hfive : 5 ≤ (tTcphHdrlen seg.p.mem 34).toNat ∧
      (seg.len.toNat = 0 ∨ (tTcphHdrlen seg.p.mem 34).toNat = 5) := by
    rw [tTcphHdrlen, ← h.tcphdr, ← TcpSeg.word]
    rcases h.kind with hu | hs
    · rcases hu.word with hw | hw <;> rw [hw] <;> exact ⟨by decide, Or.inr rfl⟩
    · rw [hs.word, hs.len]
      exact ⟨by decide, Or.inl rfl⟩
  refine ⟨⟨hpay, hlen.trans htot.symm, by rw [hdr]; exact hfive.1, by rw [hdr, htot]; omega,
    by rw [htot]; omega⟩, ?_, ?_⟩
  · have hsplit : q.len.toNat = 4 * (tTcphHdrlen seg.p.mem 34).toNat + seg.len.toNat := by
      rw [hlen]
      omega
    rw [tcpPacketData, Pbuf.data, hpay, hdr, hsplit, ByteMem.drop_slice, TcpSeg.payload, h.tcphdr]
    rcases hfive.2 with hzero | hfive
    · rw [hzero, ByteMem.slice_zero, ByteMem.slice_zero]
    · rw [hfive]
      exact ByteMem.slice_congr fun i _ => hmem _ (by omega)
  · rw [tTcphFlags, hword, TcpSeg.flags_eq]
    rcases h.kind with hu | hs
    · rcases hu.word with hw | hw <;> rw [hw] <;> split <;> decide
    · rw [hs.word]
      split <;> decide

theorem ackShape (pcb : TcpPcb) {p : Pbuf} (payload : p.payload = 34) (totLen : p.totLen = 20)
    (len : p.len = 20) : TcpShape (tcpAckBuild pcb p 34) ∧
      tcpPacketData (tcpAckBuild pcb p 34) = [] ∧
      tTcphFlags (tcpAckBuild pcb p 34).mem 34 = tcpAck := by
  obtain ⟨hpay, hlen, -, hdr⟩ := tcpAckBuild_spec pcb p 34
  have htot := tcpAckBuild_totLen pcb p 34
  refine ⟨⟨hpay.trans payload, ?_, ?_, ?_, ?_⟩, ?_, ?_⟩
  · rw [hlen, htot, len, totLen]
  · rw [hdr]
    decide
  · rw [hdr, htot, totLen]
    decide
  · rw [htot, totLen]
    decide
  · rw [tcpPacketData, Pbuf.data, hpay, payload, hdr, hlen, len]
    rfl
  · rw [tTcphFlags, tTcphWord_ackBuild]
    rfl

/-! ## both hosts -/

/-- What the receiver makes of a segment of the unsent queue: its data, and
its length as the sender counts it. -/
def AgreesWithSeg (s : Incoming) (seg : TcpSeg) : Prop :=
  s.p.bytes = seg.payload ∧ s.tcplen.toNat = seg.tcplen

/-- Every packet of a control block in order, sent in a frame of its own, is
decoded to what its sender put in. -/
theorem TcpPacket.decodes {pcb : TcpPcb} (hq : pcb.Queues) {src : UInt32} {q : Pbuf}
    (hpacket : TcpPacket pcb src q) {netif : Netif} {p : Pbuf}
    (hp : Holds p (ipFrame q netif src (.val pcb.remoteIp) pcb.ttl pcb.tos tIpProtoTcp).bytes) :
    ∃ s k, Decodes p s k ∧ Agrees q s k ∧
      ((∃ seg ∈ pcb.unsent, q = segPacket (segFill pcb seg) { pcb with localIp := src } ∧
          AgreesWithSeg s seg) ∨
        ((∃ ack, q = tcpAckBuild pcb ack 34) ∧ s.p.bytes = [] ∧ s.tcplen = 0)) := by
  cases hpacket with
  | seg seg hseg =>
      have hsp := (hq.unsent seg hseg).segPacket pcb { pcb with localIp := src }
      obtain ⟨s, k, hdec, hag, hlen⟩ := hsp.shape.decodes hp
      have hbytes : s.p.bytes = seg.payload := hag.data.trans hsp.data
      refine ⟨s, k, hdec, hag, .inl ⟨seg, hseg, rfl, hbytes, ?_⟩⟩
      rw [hlen, hsp.data, TcpSeg.length_payload, TcpSeg.tcplen]
      simp only [hsp.syn]
  | ack ack payload totLen len href hsrc =>
      obtain ⟨hshape, hdata, hflags⟩ := ackShape pcb payload totLen len
      obtain ⟨s, k, hdec, hag, hlen⟩ := hshape.decodes hp
      refine ⟨s, k, hdec, hag, .inr ⟨⟨ack, rfl⟩, hag.data.trans hdata, ?_⟩⟩
      rw [hdata, hflags] at hlen
      exact UInt16.toNat_inj.1 hlen

/-- The frame `e` of the packet `q` is taken for what it is: as a segment of
the unsent queue of `pcb`, or as an empty acknowledgement. -/
def AgreedOn (pcb : TcpPcb) (frame : List UInt8) (q : Pbuf) : Prop :=
  ∀ p, Holds p frame → ∃ s k, Decodes p s k ∧ Agrees q s k ∧
    ((∃ seg ∈ pcb.unsent, (∃ src, q = segPacket (segFill pcb seg) { pcb with localIp := src }) ∧
        AgreesWithSeg s seg) ∨
      ((∃ ack, q = tcpAckBuild pcb ack 34) ∧ s.p.bytes = [] ∧ s.tcplen = 0))

/-- **Sender and receiver agree**: what `t_tcp_output` sends for any control
block of any reachable host, the host that receives it takes out of the frame
as it was put in: ports, numbers, window, flags and data, and the length that
the sender counts for the segment. -/
theorem tcp_agreement {h : TcpHost} (hb : h.Boot) {ops : List TcpOp}
    (hl : Run.Along TcpHost.step TcpHost.Legal h ops) {op : TcpOp}
    (hop : (Run.final TcpHost.step h ops).Legal op) {env : OutEnv} {pools : Pools} {pcb : TcpPcb}
    (hcall : (Run.final TcpHost.step h ops).outputCall op = some (env, pools, pcb)) :
    ∀ e ∈ frames (tTcpOutput env pools pcb).2.2.2,
      ∃ q ∈ ipPackets (tTcpOutput env pools pcb).2.2.2, AgreedOn pcb e.2 q := by
  intro e he
  have hlink := Run.final_of_along (fun _ _ hs hop => hs.exec hop) hb.linked hl
  have hq := (hb.allQueues.final hl).outputCall hlink hop hcall
  obtain ⟨src, q, hpacket, hmem, hbytes⟩ := tTcpOutput_tcpFrames env pools hq e he
  refine ⟨q, hmem, fun p hp => ?_⟩
  rw [hbytes] at hp
  obtain ⟨s, k, hdec, hag, hkind⟩ := hpacket.decodes hq hp
  refine ⟨s, k, hdec, hag, hkind.imp_left ?_⟩
  rintro ⟨seg, hseg, hpkt, hsl⟩
  exact ⟨seg, hseg, ⟨src, hpkt⟩, hsl⟩

/-- The SYN of a first connect. -/
theorem tcp_agreement_connect : ∃ env pools pcb,
    (sampleHost.step .new).outputCall sampleConnect = some (env, pools, pcb) ∧
      (frames (tTcpOutput env pools pcb).2.2.2).length = 1 ∧
      ∀ e ∈ frames (tTcpOutput env pools pcb).2.2.2,
        ∃ q ∈ ipPackets (tTcpOutput env pools pcb).2.2.2, AgreedOn pcb e.2 q := by
  have hsome : ((sampleHost.step .new).outputCall sampleConnect).isSome := by decide +kernel
  obtain ⟨⟨env, pools, pcb⟩, hcall⟩ := Option.isSome_iff_exists.mp hsome
  have hlegal : (sampleHost.step .new).Legal sampleConnect := by
    show (0 : TcpPcbId) ∉ _
    decide +kernel
  have hone : ((sampleHost.step .new).outputCall sampleConnect).map (fun c =>
      (frames (tTcpOutput c.1 c.2.1 c.2.2).2.2.2).length) = some 1 := by decide +kernel
  rw [hcall] at hone
  refine ⟨env, pools, pcb, hcall, Option.some.inj hone, ?_⟩
  have hnew : Run.Along TcpHost.step TcpHost.Legal sampleHost [.new] := ⟨trivial, trivial⟩
  exact tcp_agreement (TcpHost.initial_boot _ _) hnew hlegal hcall

end TTcp
