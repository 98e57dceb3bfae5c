import TTcp.Ip.Ident
import TTcp.Tcp.Alike
import TTcp.Tcp.Keepalive

/-!
# TTcp.Tcp.Stale

What the TCP layer sends of what its buffers held before.

A segment or an acknowledgement is written from scratch, and so are its IP and Ethernet headers,
but for the identification: two bytes of every frame are those that the buffer had there
(`outputStale`).  A keepalive probe keeps the six flag bits of its buffer besides
(`keepaliveStale`).  Control blocks that are `Alike` send the same frames exactly when these are
the same in the buffers of both.
-/

namespace TTcp

/-! ## the checksum -/

/-- A byte of a segment that ends at `n`, other than its checksum. -/
def UnsummedByte (n i : Nat) : Prop := 34 ≤ i ∧ i < n ∧ (i < 50 ∨ 52 ≤ i)

/-- The checksum makes a segment whole. -/
theorem Pbuf.AgreeOn.chksum {n : Nat} {q q' : Pbuf} (h : Pbuf.AgreeOn (UnsummedByte n) q q')
    (hpay : q.payload = 34) (hlen : 34 + q.len.toNat ≤ n) (src dst : UInt32) :
    Pbuf.AgreeOn (fun i => 34 ≤ i ∧ i < n)
      ((q.set16 50 0).set16 50
        (tInetChksumPseudo [(q.set16 50 0).data] src dst tIpProtoTcp (q.set16 50 0).totLen))
      ((q'.set16 50 0).set16 50
        (tInetChksumPseudo [(q'.set16 50 0).data] src dst tIpProtoTcp (q'.set16 50 0).totLen)) := by
  have hq : Pbuf.AgreeOn (fun i => 34 ≤ i ∧ i < n) (q.set16 50 0) (q'.set16 50 0) :=
    (h.set16 50 0).mono fun i hi => by
      unfold UnsummedByte
      omega
  refine hq.set16_same _ ?_
  have hdata : (q.set16 50 0).data = (q'.set16 50 0).data := by
    rw [Pbuf.data, Pbuf.data, ← hq.payload, ← hq.len, Pbuf.set16_payload, Pbuf.set16_len, hpay]
    exact hq.mem.slice fun i hlo hhi => ⟨hlo, by omega⟩
  rw [hdata, hq.totLen]

/-! ## sending a segment -/

/-- A segment with its headers in place. -/
structure TcpSeg.Placed (seg : TcpSeg) : Prop where
  tcphdr : seg.tcphdr = 34
  payload : seg.p.payload = 34
  totLen : seg.p.totLen = seg.p.len
  len : 20 ≤ seg.p.len.toNat ∧ seg.p.len.toNat ≤ 1420

theorem TcpSeg.Queued.placed {seg : TcpSeg} (h : seg.Queued) : seg.Placed :=
  ⟨h.tcphdr, h.payload, h.totLen, h.plen_le⟩

theorem TcpSeg.Placed.outgoing {seg : TcpSeg} (h : seg.Placed) (state : TcpState) :
    (seg.outgoing state).Placed := by
  unfold TcpSeg.outgoing
  split
  · exact ⟨h.tcphdr, h.payload, h.totLen, h.len⟩
  · exact h

/-- What a buffer holds where the identification of a segment will be. -/
def tcpIdent (p : Pbuf) : UInt16 := p.mem.get16 18

/-- A segment of this control block finds an interface. -/
def TcpPcb.Sends (net : Net) (indet : Option Netif) (pcb : TcpPcb) : Prop :=
  tIpRoute net pcb.remoteIp ≠ none ∨ (pcb.localIp ≠ 0 ∧ indet ≠ none)

instance (net : Net) (indet : Option Netif) (pcb : TcpPcb) : Decidable (pcb.Sends net indet) :=
  inferInstanceAs (Decidable (_ ∨ _))

/-- The packet of a segment is the same in both buffers, up to what is in front of it. -/
theorem segPacket_alike {seg seg' : TcpSeg} (hseg : seg.Placed) (htcphdr : seg.tcphdr = seg'.tcphdr)
    (h : Pbuf.AgreeOn (UnsummedByte (34 + seg.p.len.toNat)) seg.p seg'.p) {pcb pcb' : TcpPcb}
    (hlocal : pcb.localIp = pcb'.localIp) (hremote : pcb.remoteIp = pcb'.remoteIp) :
    Pbuf.AgreeOn (fun i => 34 ≤ i ∧ i < 34 + seg.p.len.toNat) (segPacket seg pcb)
      (segPacket seg' pcb') := by
  have hzero : UInt16.ofInt ((34 : Nat) - (34 : Nat) : Int) = 0 := by decide
  have hpay := hseg.payload
  have hq : Pbuf.AgreeOn (UnsummedByte (34 + seg.p.len.toNat)) { seg.p with payload := 34 }
      { seg'.p with payload := 34 } := ⟨rfl, h.totLen, h.len, h.mem⟩
  unfold segPacket
  simp only [← htcphdr, hseg.tcphdr, ← h.payload, hpay, hzero, UInt16.sub_zero, ← hlocal, ← hremote]
  exact hq.chksum rfl le_rfl _ _

theorem segPacket_ident {seg : TcpSeg} (hseg : seg.Placed) (pcb : TcpPcb) :
    (segPacket seg pcb).ident = tcpIdent seg.p := by
  have hpay : (segPacket seg pcb).payload = 34 := by
    rw [(segPacket_spec seg pcb (hseg.payload.trans hseg.tcphdr.symm)).2.1, hseg.tcphdr]
  rw [Pbuf.ident, tPbufHeader_ip, hpay, tcpIdent]
  simp (disch := omega) [segPacket, hseg.tcphdr]

theorem rttStart_alike (env : OutEnv) {seg seg' : TcpSeg} (hseqno : seg.seqno = seg'.seqno)
    {pcb pcb' : TcpPcb} (h : pcb.Alike pcb') :
    (rttStart env seg { pcb with rtime := 0 }).Alike (rttStart env seg' { pcb' with rtime := 0 }) := by
  obtain ⟨unsent, unacked, rfl, hunsent, hunacked⟩ := h.exists_eq
  unfold rttStart
  simp only
  split
  · rw [hseqno]
    exact ⟨rfl, hunsent, hunacked⟩
  · exact ⟨rfl, hunsent, hunacked⟩

/-- What comes of a segment in either buffer: the same, with the frames equal exactly under a
condition. -/
structure SentAlike (same : Prop) (r r' : TcpSeg × TcpPcb × List Event) : Prop where
  pcb : r.2.1.Alike r'.2.1
  seqno : r.1.seqno = r'.1.seqno
  tcplen : r.1.tcplen = r'.1.tcplen
  block : Pools.Alike.SameBlock r.1.block r'.1.block
  length : (frames r.2.2).length = (frames r'.2.2).length
  frames : frames r.2.2 = frames r'.2.2 ↔ same

theorem SentAlike.congr {same same' : Prop} {r r' : TcpSeg × TcpPcb × List Event}
    (h : SentAlike same r r') (hiff : same ↔ same') : SentAlike same' r r' :=
  { h with frames := h.frames.trans hiff }

namespace TcpSeg

variable {seg seg' : TcpSeg}

theorem Placed.alike (hseg : seg.Placed) (h : seg.Alike seg') : seg'.Placed where
  tcphdr := h.tcphdr ▸ hseg.tcphdr
  payload := h.agree.payload ▸ hseg.payload
  totLen := by rw [← h.agree.totLen, ← h.agree.len, hseg.totLen]
  len := h.agree.len ▸ hseg.len

theorem Placed.completed (hseg : seg.Placed) (pcb : TcpPcb) : (seg.completed pcb).Placed :=
  ⟨hseg.tcphdr, hseg.payload, hseg.totLen, hseg.len⟩

theorem Placed.ident_completed (hseg : seg.Placed) (pcb : TcpPcb) :
    tcpIdent (seg.completed pcb).p = tcpIdent seg.p := by
  simp (disch := omega) [tcpIdent, TcpSeg.completed, hseg.tcphdr]

theorem Placed.ident_outgoing (hseg : seg.Placed) (state : TcpState) :
    tcpIdent (seg.outgoing state).p = tcpIdent seg.p := by
  obtain h | h := seg.outgoing_cases state
  · have hset := seg.setFlag_writesOnly tcpAck
    rw [hseg.tcphdr] at hset
    rw [h, tcpIdent, hset.get16 (by omega), tcpIdent]
  · rw [h]

theorem Alike.outgoing (h : seg.Alike seg') (hseg : seg.Placed) (state : TcpState) :
    (seg.outgoing state).Alike (seg'.outgoing state) := by
  unfold TcpSeg.outgoing
  split
  · exact h.setFlag hseg.tcphdr tcpAck
  · exact h

/-- With acknowledgement number and window filled in, only the checksum is missing. -/
theorem Alike.completed (h : seg.Alike seg') (hseg : seg.Placed) {pcb pcb' : TcpPcb}
    (hpcb : pcb.Alike pcb') : (seg.completed pcb).Alike (seg'.completed pcb') ∧
      Pbuf.AgreeOn (UnsummedByte (34 + seg.p.len.toNat)) (seg.completed pcb).p
        (seg'.completed pcb').p := by
  obtain ⟨unsent, unacked, rfl, -, -⟩ := hpcb.exists_eq
  have hmem : ByteMem.AgreeOn (UnsummedByte (34 + seg.p.len.toNat)) (seg.completed pcb).p.mem
      (seg'.completed { pcb with unsent, unacked }).p.mem := by
    simp only [TcpSeg.completed, ← h.tcphdr, hseg.tcphdr, Pbuf.set16_mem, Pbuf.set32_mem]
    refine (h.agree.mem.set32 (T := fun i => seg.Written i ∨ (42 ≤ i ∧ i < 46)) _ fun i hi => hi).set16
      _ fun i hi => ?_
    unfold TcpSeg.Written
    unfold UnsummedByte at hi
    omega
  have hagree : Pbuf.AgreeOn (UnsummedByte (34 + seg.p.len.toNat)) (seg.completed pcb).p
      (seg'.completed { pcb with unsent, unacked }).p :=
    ⟨h.agree.payload, h.agree.totLen, h.agree.len, hmem⟩
  refine ⟨⟨h.id, h.len, h.tcphdr, h.ref, hagree.mono fun i hi => ?_⟩, hagree⟩
  have hlen := hseg.len
  have hw : (34 ≤ i ∧ i < 42) ∨ (46 ≤ i ∧ i < 48) ∨ (52 ≤ i ∧ i < 34 + seg.p.len.toNat) := hi
  unfold UnsummedByte
  omega

end TcpSeg

/-! ## one segment -/

theorem tTcpOutputSegment_completed (env : OutEnv) (indet : Option Netif) (seg : TcpSeg)
    (pcb : TcpPcb) : tTcpOutputSegment env indet seg pcb =
      if pcb.localIp = 0 then
        match tIpRoute env.net pcb.remoteIp with
        | none => (seg.completed pcb, pcb, [])
        | some netif => tTcpOutputSegmentSend env indet (.value (some netif)) (seg.completed pcb)
            { pcb with localIp := netif.ipAddr }
      else tTcpOutputSegmentSend env indet .unassigned (seg.completed pcb) pcb := rfl

section
variable (env : OutEnv) (indet : Option Netif) {seg seg' : TcpSeg} (h : seg.Alike seg')
  (hseg : seg.Placed) {pcb pcb' : TcpPcb} (hpcb : pcb.Alike pcb')
include h hseg hpcb

/-- What the second half of `t_tcp_output_segment` comes to. -/
theorem tTcpOutputSegmentSend_alike (netif : NetifArg)
    (hagree : Pbuf.AgreeOn (UnsummedByte (34 + seg.p.len.toNat)) seg.p seg'.p) :
    SentAlike (ipNetif env.net indet netif pcb.remoteIp ≠ none → tcpIdent seg.p = tcpIdent seg'.p)
      (tTcpOutputSegmentSend env indet netif seg pcb)
      (tTcpOutputSegmentSend env indet netif seg' pcb') := by
  have hseg' := hseg.alike h
  obtain ⟨-, hfill, -⟩ := tTcpOutputSegmentSend_spec env indet netif seg pcb hseg.tcphdr hseg.payload
  obtain ⟨-, hfill', -⟩ := tTcpOutputSegmentSend_spec env indet netif seg' pcb' hseg'.tcphdr
    hseg'.payload
  have hlocal : pcb'.localIp = pcb.localIp := by rw [hpcb.same]
  have hremote : pcb'.remoteIp = pcb.remoteIp := by rw [hpcb.same]
  have httl : pcb'.ttl = pcb.ttl := by rw [hpcb.same]
  have htos : pcb'.tos = pcb.tos := by rw [hpcb.same]
  have hpacket := segPacket_alike hseg h.tcphdr hagree hlocal.symm hremote.symm
  obtain ⟨-, hpay, hplen, -⟩ := segPacket_spec seg pcb (hseg.payload.trans hseg.tcphdr.symm)
  have htot : (segPacket seg pcb).totLen = seg.p.len := by
    simp [segPacket, hseg.tcphdr, hseg.payload, hseg.totLen]
    rfl
  have hwritten : (segPacket seg pcb).Written (fun i => 34 ≤ i ∧ i < 34 + seg.p.len.toNat) := by
    have hlen := hseg.len
    refine ⟨by rw [htot]; omega, fun i hlo hhi => ?_⟩
    rw [hpay, hseg.tcphdr] at hlo hhi
    rw [htot] at hhi
    omega
  have hroom : IpHeadroom (segPacket seg pcb).payload := by
    rw [hpay, hseg.tcphdr]
    decide
  have hframes := tIpOutput_frames_iff env.net indet netif pcb.localIp pcb.remoteIp pcb.ttl pcb.tos
    tIpProtoTcp hpacket hwritten
  rw [segPacket_ident hseg, segPacket_ident hseg'] at hframes
  refine ⟨rttStart_alike env (h.seqno hseg.tcphdr) hpcb,
    by rw [hfill.seqno, hfill'.seqno, h.seqno hseg.tcphdr],
    by rw [hfill.tcplen, hfill'.tcplen, h.tcplen hseg.tcphdr],
    ⟨by rw [TcpSeg.block, TcpSeg.block, hfill.id, hfill'.id, h.id],
      by rw [TcpSeg.block, TcpSeg.block, Option.map_some, Option.map_some, hfill.ref, hfill'.ref,
        h.ref]⟩, ?_, ?_⟩
  · obtain ⟨rttest, rtseq, hsend⟩ := tTcpOutputSegmentSend_eq env indet netif seg pcb
    obtain ⟨rttest', rtseq', hsend'⟩ := tTcpOutputSegmentSend_eq env indet netif seg' pcb'
    simp only [hsend, hsend', hlocal, hremote, httl, htos]
    exact hframes.1
  · obtain ⟨rttest, rtseq, hsend⟩ := tTcpOutputSegmentSend_eq env indet netif seg pcb
    obtain ⟨rttest', rtseq', hsend'⟩ := tTcpOutputSegmentSend_eq env indet netif seg' pcb'
    simp only [hsend, hsend', hlocal, hremote, httl, htos]
    exact hframes.2.trans ⟨fun hi hn => hi ⟨hroom, hn⟩, fun hi hn => hi hn.2⟩

/-- One segment in either buffer. -/
theorem tTcpOutputSegment_alike :
    SentAlike (pcb.Sends env.net indet → tcpIdent seg.p = tcpIdent seg'.p)
      (tTcpOutputSegment env indet seg pcb) (tTcpOutputSegment env indet seg' pcb') := by
  have hseg' := hseg.alike h
  have hlocal : pcb'.localIp = pcb.localIp := by rw [hpcb.same]
  have hremote : pcb'.remoteIp = pcb.remoteIp := by rw [hpcb.same]
  obtain ⟨hdone, hagree⟩ := h.completed hseg hpcb
  have hplaced := hseg.completed pcb
  have hident : tcpIdent (seg.completed pcb).p = tcpIdent (seg'.completed pcb').p ↔
      tcpIdent seg.p = tcpIdent seg'.p := by
    rw [hseg.ident_completed, hseg'.ident_completed]
  rw [tTcpOutputSegment_completed, tTcpOutputSegment_completed]
  by_cases hip : pcb.localIp = 0
  · rw [if_pos hip, if_pos (hlocal.trans hip)]
    cases hroute : tIpRoute env.net pcb.remoteIp with
    | none =>
        simp only [hremote ▸ hroute]
        refine ⟨hpcb, hdone.seqno hplaced.tcphdr, hdone.tcplen hplaced.tcphdr, hdone.block, rfl,
          iff_of_true rfl fun hs => ?_⟩
        exact absurd hip (hs.resolve_left (not_not.mpr hroute)).1
    | some n =>
        simp only [hremote ▸ hroute]
        have hset : TcpPcb.Alike { pcb with localIp := n.ipAddr }
            { pcb' with localIp := n.ipAddr } := by
          obtain ⟨unsent, unacked, rfl, hunsent, hunacked⟩ := hpcb.exists_eq
          exact ⟨rfl, hunsent, hunacked⟩
        refine (tTcpOutputSegmentSend_alike env indet hdone hplaced hset (.value (some n))
          hagree).congr ?_
        rw [hident]
        exact ⟨fun hi _ => hi (by simp [ipNetif, NetifArg.resolve]),
          fun hi _ => hi (.inl (by simp [hroute]))⟩
  · rw [if_neg hip, if_neg (hlocal ▸ hip)]
    refine (tTcpOutputSegmentSend_alike env indet hdone hplaced hpcb .unassigned hagree).congr ?_
    rw [hident]
    have hsends : ipNetif env.net indet .unassigned pcb.remoteIp ≠ none ↔ pcb.Sends env.net indet := by
      rw [ipNetif, NetifArg.resolve, TcpPcb.Sends]
      cases indet with
      | none => simp
      | some n => simp [hip]
    rw [hsends]

end

/-! ## one round -/

/-- What comes of output with either set of buffers: the same, with the frames equal exactly
under a condition. -/
structure OutAlike (same : Prop) (r r' : Pools × TcpPcb × List Event) : Prop where
  pools : r.1.Alike r'.1
  pcb : r.2.1.Alike r'.2.1
  length : (frames r.2.2).length = (frames r'.2.2).length
  frames : frames r.2.2 = frames r'.2.2 ↔ same

theorem unackedInsert_alike {unacked unacked' : List TcpSeg} {seg seg' : TcpSeg}
    (h : List.Forall₂ (fun s s' => s.seqno = s'.seqno) unacked unacked')
    (hseqno : seg.seqno = seg'.seqno) :
    List.Forall₂ (fun s s' => s.seqno = s'.seqno) (unackedInsert unacked seg)
      (unackedInsert unacked' seg') := by
  rcases List.eq_nil_or_concat' unacked with rfl | ⟨us, useg, rfl⟩
  · obtain rfl := List.forall₂_nil_left_iff.mp h
    exact .cons hseqno .nil
  · obtain ⟨us', useg', rfl, hus, huseg⟩ := forall₂_concat_left h
    unfold unackedInsert
    rw [List.getLast?_concat, List.getLast?_concat]
    simp only [hseqno, huseg]
    split
    · exact .cons hseqno h
    · exact List.rel_append h (.cons hseqno .nil)

theorem sndAdvance_alike {pcb pcb' : TcpPcb} (h : pcb.Alike pcb') {seg seg' : TcpSeg}
    (hseqno : seg.seqno = seg'.seqno) (htcplen : seg.tcplen = seg'.tcplen) :
    (sndAdvance pcb seg).Alike (sndAdvance pcb' seg') := by
  obtain ⟨unsent, unacked, rfl, hunsent, hunacked⟩ := h.exists_eq
  unfold sndAdvance
  simp only [hseqno, htcplen]
  split
  · exact ⟨rfl, hunsent, hunacked⟩
  · exact ⟨rfl, hunsent, hunacked⟩

theorem TcpPcb.Alike.outgoing {pcb pcb' : TcpPcb} (h : pcb.Alike pcb') :
    pcb.outgoing.Alike pcb'.outgoing := by
  obtain ⟨unsent, unacked, rfl, hunsent, hunacked⟩ := h.exists_eq
  unfold TcpPcb.outgoing
  simp only
  split
  · exact ⟨rfl, hunsent, hunacked⟩
  · exact ⟨rfl, hunsent, hunacked⟩

/-- A round, with its acknowledgement put in first. -/
theorem tTcpOutputRound_outgoing (env : OutEnv) (indet : Option Netif) (pools : Pools)
    (pcb : TcpPcb) (seg : TcpSeg) : tTcpOutputRound env indet pools pcb seg =
      let (seg, pcb, evs) := tTcpOutputSegment env indet (seg.outgoing pcb.state) pcb.outgoing
      let pcb := sndAdvance pcb seg
      if 0 < seg.tcplen then (pools, { pcb with unacked := unackedInsert pcb.unacked seg }, evs)
      else ((tTcpSegFree pools seg.block).2, pcb, evs) := by
  unfold tTcpOutputRound TcpSeg.outgoing TcpPcb.outgoing
  by_cases hst : pcb.state ≠ .synSent
  · simp only [if_pos hst]
  · simp only [if_neg hst]

/-- Whether there is an interface does not change as segments are sent. -/
theorem tTcpOutputRound_sends (env : OutEnv) (indet indet' : Option Netif) (pools : Pools)
    (pcb : TcpPcb) {seg : TcpSeg} (hseg : seg.Placed) :
    (tTcpOutputRound env indet pools pcb seg).2.1.Sends env.net indet' ↔
      pcb.Sends env.net indet' := by
  obtain ⟨r, hr⟩ : ∃ r, r = tTcpOutputSegment env indet (seg.outgoing pcb.state) pcb.outgoing :=
    ⟨_, rfl⟩
  obtain ⟨sndMax, hround⟩ := tTcpOutputRound_eq env pools hr
  have hplaced := hseg.outgoing pcb.state
  obtain ⟨⟨localIp, rtime, rttest, rtseq, hpcb, hip⟩, -⟩ :=
    tTcpOutputSegment_spec env indet (seg.outgoing pcb.state) pcb.outgoing hplaced.tcphdr
      hplaced.payload
  obtain ⟨flags, hflags⟩ := pcb.outgoing_eq
  rw [← hr, hflags] at hpcb
  rw [hflags] at hip
  have hsends : ∀ pcb' : TcpPcb, pcb'.remoteIp = pcb.remoteIp → pcb'.localIp = localIp →
      (pcb'.Sends env.net indet' ↔ pcb.Sends env.net indet') := fun pcb' hremote hlocal => by
    rw [TcpPcb.Sends, TcpPcb.Sends, hremote, hlocal]
    obtain hip | ⟨-, hroute⟩ := hip
    · rw [hip]
    · exact iff_of_true (.inl hroute) (.inl hroute)
  rw [hround]
  split
  · exact hsends _ (by rw [hpcb]) (by rw [hpcb])
  · exact hsends _ (by rw [hpcb]) (by rw [hpcb])

section
variable (env : OutEnv) {pools pools' : Pools} (hpools : pools.Alike pools') {pcb pcb' : TcpPcb}
  (hpcb : pcb.Alike pcb')
include hpools hpcb

theorem tTcpOutputRound_alike (indet : Option Netif) {seg seg' : TcpSeg} (h : seg.Alike seg')
    (hseg : seg.Placed) :
    OutAlike (pcb.Sends env.net indet → tcpIdent seg.p = tcpIdent seg'.p)
      (tTcpOutputRound env indet pools pcb seg) (tTcpOutputRound env indet pools' pcb' seg') := by
  have hstate : pcb'.state = pcb.state := by rw [hpcb.same]
  have hsent := tTcpOutputSegment_alike env indet (h.outgoing hseg pcb.state)
    (hseg.outgoing pcb.state) hpcb.outgoing
  rw [hseg.ident_outgoing, (hseg.alike h).ident_outgoing] at hsent
  have hsends : pcb.outgoing.Sends env.net indet ↔ pcb.Sends env.net indet := by
    obtain ⟨flags, hflags⟩ := pcb.outgoing_eq
    rw [hflags]
    exact Iff.rfl
  rw [hsends] at hsent
  rw [tTcpOutputRound_outgoing, tTcpOutputRound_outgoing, hstate]
  generalize tTcpOutputSegment env indet (seg.outgoing pcb.state) pcb.outgoing = r at hsent
  generalize tTcpOutputSegment env indet (seg'.outgoing pcb.state) pcb'.outgoing = r' at hsent
  obtain ⟨seg1, pcb1, evs1⟩ := r
  obtain ⟨seg1', pcb1', evs1'⟩ := r'
  obtain ⟨hpcb1, hseqno, htcplen, hblock, hlen, hiff⟩ := hsent
  have hadv := sndAdvance_alike hpcb1 hseqno htcplen
  simp only at hadv htcplen hblock hlen hiff ⊢
  rw [← htcplen]
  by_cases hpos : 0 < seg1.tcplen
  · rw [if_pos hpos, if_pos hpos]
    generalize sndAdvance pcb1 seg1 = adv at hadv
    generalize sndAdvance pcb1' seg1' = adv' at hadv
    obtain ⟨unsent, unacked, rfl, hunsent, hunacked⟩ := hadv.exists_eq
    exact ⟨hpools, ⟨rfl, hunsent, unackedInsert_alike hunacked hseqno⟩, hlen, hiff⟩
  · rw [if_neg hpos, if_neg hpos]
    have hfree := hpools.segFree seg1.block.1 hblock.2
    have hid : seg1'.block = (seg1.block.1, seg1'.block.2) := by rw [hblock.1]
    rw [hid]
    exact ⟨hfree, hadv, hlen, hiff⟩

end

/-! ## the queue -/

/-- The identifications that the loop of `t_tcp_output` sends. -/
def sentIdents (env : OutEnv) (wnd : UInt32) (pcb : TcpPcb) : List TcpSeg → List UInt16
  | [] => []
  | seg :: rest =>
      if seg.fits pcb.lastack wnd then
        (if pcb.Sends env.net (env.indet rest.length) then [tcpIdent seg.p] else []) ++
          sentIdents env wnd pcb rest
      else []

theorem sentIdents_congr (env : OutEnv) (wnd : UInt32) {pcb pcb' : TcpPcb}
    (hlastack : pcb.lastack = pcb'.lastack)
    (hsends : ∀ indet, pcb.Sends env.net indet ↔ pcb'.Sends env.net indet) (unsent : List TcpSeg) :
    sentIdents env wnd pcb unsent = sentIdents env wnd pcb' unsent := by
  induction unsent with
  | nil => rfl
  | cons seg rest ih => simp only [sentIdents, hlastack, hsends, ih]

theorem tTcpOutputLoop_alike (env : OutEnv) (wnd : UInt32) {pools pools' : Pools}
    (hpools : pools.Alike pools') {pcb pcb' : TcpPcb} (hpcb : pcb.Alike pcb')
    {unsent unsent' : List TcpSeg} (h : List.Forall₂ TcpSeg.Alike unsent unsent')
    (hplaced : ∀ seg ∈ unsent, seg.Placed) :
    OutAlike (sentIdents env wnd pcb unsent = sentIdents env wnd pcb unsent')
      (tTcpOutputLoop env wnd pools pcb unsent) (tTcpOutputLoop env wnd pools' pcb' unsent') := by
  induction h generalizing pools pools' pcb pcb' with
  | nil => exact ⟨hpools, hpcb, rfl, iff_of_true rfl rfl⟩
  | cons hseg hrest ih =>
      rename_i seg seg' rest rest'
      have hplaced0 := hplaced seg List.mem_cons_self
      have hfits : seg'.fits pcb'.lastack wnd = seg.fits pcb.lastack wnd := by
        rw [TcpSeg.fits, TcpSeg.fits, hseg.seqno hplaced0.tcphdr, hseg.len, hpcb.same]
      have hfits' : seg'.fits pcb.lastack wnd = seg.fits pcb.lastack wnd := by
        rw [← hfits, hpcb.same]
      rw [tTcpOutputLoop, tTcpOutputLoop, sentIdents, sentIdents, hfits, hfits',
        ← hrest.length_eq]
      by_cases hfit : seg.fits pcb.lastack wnd
      · rw [if_pos hfit, if_pos hfit, if_pos hfit, if_pos hfit]
        obtain ⟨unsent0, unacked0, rfl, hunsent, hunacked⟩ := hpcb.exists_eq
        have hset : TcpPcb.Alike { pcb with unsent := rest }
            { pcb with unsent := rest', unacked := unacked0 } := ⟨rfl, hrest, hunacked⟩
        have hround := tTcpOutputRound_alike env hpools hset (env.indet rest.length) hseg hplaced0
        have hsends := fun indet' => tTcpOutputRound_sends env (env.indet rest.length) indet' pools
          { pcb with unsent := rest } hplaced0
        have hlastack := (tTcpOutputRound_outputs env pools (env.indet rest.length)
          { pcb with unsent := rest } seg).1.conn.lastack
        simp only
        generalize tTcpOutputRound env (env.indet rest.length) pools
          { pcb with unsent := rest } seg = r at hround hsends hlastack
        generalize tTcpOutputRound env (env.indet rest.length) pools'
          { pcb with unsent := rest', unacked := unacked0 } seg' = r' at hround
        obtain ⟨pools1, pcb1, evs1⟩ := r
        obtain ⟨pools1', pcb1', evs1'⟩ := r'
        have hloop := ih hround.pools hround.pcb fun s hs => hplaced s (List.mem_cons_of_mem _ hs)
        have hcongr : ∀ segs, sentIdents env wnd pcb1 segs = sentIdents env wnd pcb segs :=
          sentIdents_congr env wnd hlastack hsends
        rw [hcongr, hcongr] at hloop
        simp only at hloop ⊢
        generalize tTcpOutputLoop env wnd pools1 pcb1 rest = l at hloop
        generalize tTcpOutputLoop env wnd pools1' pcb1' rest' = l' at hloop
        refine ⟨hloop.pools, hloop.pcb, ?_, ?_⟩
        · simp only [frames_append, List.length_append, hround.length, hloop.length]
        · simp only [frames_append]
          rw [List.append_eq_append_iff_of_size_eq_left hround.length, hround.frames, hloop.frames]
          by_cases hsend : pcb.Sends env.net (env.indet rest.length)
          · rw [if_pos hsend, if_pos hsend]
            simp only [List.singleton_append, List.cons.injEq]
            exact and_congr_left fun _ => ⟨fun hi => hi hsend, fun hi _ => hi⟩
          · rw [if_neg hsend, if_neg hsend]
            exact and_iff_right fun hs => absurd hs hsend
      · rw [if_neg hfit, if_neg hfit, if_neg hfit, if_neg hfit]
        exact ⟨hpools, hpcb, rfl, iff_of_true rfl rfl⟩

/-! ## headers built in fresh buffers -/

/-- Headers without data that say the same are the same, once their checksums are filled in. -/
theorem Pbuf.agreeOn_header {q q' : Pbuf} (hpay : q.payload = 34 ∧ q'.payload = 34)
    (hlen : q.len = 20 ∧ q'.len = 20) (htot : q.totLen = q'.totLen)
    (hsrc : q.mem.get16 34 = q'.mem.get16 34) (hdest : q.mem.get16 36 = q'.mem.get16 36)
    (hseqno : q.mem.get32 38 = q'.mem.get32 38) (hackno : q.mem.get32 42 = q'.mem.get32 42)
    (hword : q.mem.get16 46 = q'.mem.get16 46) (hwnd : q.mem.get16 48 = q'.mem.get16 48)
    (hurgp : q.mem.get16 52 = q'.mem.get16 52) (src dst : UInt32) :
    Pbuf.AgreeOn (fun i => 34 ≤ i ∧ i < 54)
      ((q.set16 50 0).set16 50
        (tInetChksumPseudo [(q.set16 50 0).data] src dst tIpProtoTcp (q.set16 50 0).totLen))
      ((q'.set16 50 0).set16 50
        (tInetChksumPseudo [(q'.set16 50 0).data] src dst tIpProtoTcp (q'.set16 50 0).totLen)) := by
  have hmem : ByteMem.AgreeOn (UnsummedByte 54) q.mem q'.mem := by
    rintro i ⟨hlo, hhi, hout⟩
    obtain hi | hi | hi | hi | hi | hi | hi : i < 36 ∨ (36 ≤ i ∧ i < 38) ∨ (38 ≤ i ∧ i < 42) ∨
      (42 ≤ i ∧ i < 46) ∨ (46 ≤ i ∧ i < 48) ∨ (48 ≤ i ∧ i < 50) ∨ 52 ≤ i := by omega
    · exact ByteMem.agreeOn_of_get16 hsrc i ⟨hlo, hi⟩
    · exact ByteMem.agreeOn_of_get16 hdest i ⟨hi.1, by omega⟩
    · exact ByteMem.agreeOn_of_get32 hseqno i ⟨hi.1, by omega⟩
    · exact ByteMem.agreeOn_of_get32 hackno i ⟨hi.1, by omega⟩
    · exact ByteMem.agreeOn_of_get16 hword i ⟨hi.1, by omega⟩
    · exact ByteMem.agreeOn_of_get16 hwnd i ⟨hi.1, by omega⟩
    · exact ByteMem.agreeOn_of_get16 hurgp i ⟨hi, by omega⟩
  have hagree : Pbuf.AgreeOn (UnsummedByte 54) q q' :=
    ⟨hpay.1.trans hpay.2.symm, htot, hlen.1.trans hlen.2.symm, hmem⟩
  exact hagree.chksum hpay.1 (hlen.1 ▸ show 34 + (20 : UInt16).toNat ≤ 54 by decide) src dst

section
variable (pcb : TcpPcb) (p p' : Pbuf)

theorem tcpAckBuild_alike :
    Pbuf.AgreeOn (fun i => 34 ≤ i ∧ i < 54) (tcpAckBuild pcb (p.fresh tPbufIp 20) 34)
      (tcpAckBuild pcb (p'.fresh tPbufIp 20) 34) := by
  obtain ⟨q, hq⟩ : ∃ q : Pbuf → Pbuf, ∀ r, q r = tTcphHdrlenSet
      (((tTcphFlagsSet ((((r.set16 34 (htons pcb.localPort)).set16 36 (htons pcb.remotePort)).set32 38
        (htonl pcb.sndNxt)).set32 42 (htonl pcb.rcvNxt)) 34 tcpAck).set16 48 (htons pcb.rcvWnd)).set16
          52 0) 34 5 := ⟨_, fun _ => rfl⟩
  have hbuild : ∀ r : Pbuf, tcpAckBuild pcb r 34 = ((q r).set16 50 0).set16 50
      (tInetChksumPseudo [((q r).set16 50 0).data] pcb.localIp pcb.remoteIp tIpProtoTcp
        ((q r).set16 50 0).totLen) := fun r => by
    rw [hq]
    rfl
  have hfields : ∀ r : Pbuf, (q r).mem.get16 34 = htons pcb.localPort ∧
      (q r).mem.get16 36 = htons pcb.remotePort ∧ (q r).mem.get32 38 = htonl pcb.sndNxt ∧
        (q r).mem.get32 42 = htonl pcb.rcvNxt ∧ (q r).mem.get16 48 = htons pcb.rcvWnd ∧
          (q r).mem.get16 52 = 0 ∧ (q r).payload = r.payload ∧ (q r).len = r.len ∧
            (q r).totLen = r.totLen := fun r => by
    rw [hq]
    simp (disch := omega) [tTcphFlagsSet, tTcphHdrlenSet]
  have hword : ∀ r : Pbuf, (q r).mem.get16 46 = htons 0x5010 := fun r => by
    have hw := tTcphWord_ackBuild pcb r 34
    rw [hbuild, tTcphWord] at hw
    simp (disch := omega) only [Pbuf.set16_mem, ByteMem.get16_set16_of_disjoint] at hw
    rw [← hw, ntohs, htons_htons]
  obtain ⟨h1, h2, h3, h4, h5, h6, hpay, hlen, htot⟩ := hfields (p.fresh tPbufIp 20)
  obtain ⟨h1', h2', h3', h4', h5', h6', hpay', hlen', htot'⟩ := hfields (p'.fresh tPbufIp 20)
  rw [hbuild, hbuild]
  exact Pbuf.agreeOn_header ⟨hpay, hpay'⟩ ⟨hlen, hlen'⟩ (htot.trans htot'.symm) (h1.trans h1'.symm)
    (h2.trans h2'.symm) (h3.trans h3'.symm) (h4.trans h4'.symm) ((hword _).trans (hword _).symm)
    (h5.trans h5'.symm) (h6.trans h6'.symm) _ _

/-- A probe is the same if the flags are that it finds. -/
theorem tcpKeepaliveBuild_alike (hflags : tTcphFlags p.mem 34 = tTcphFlags p'.mem 34) :
    Pbuf.AgreeOn (fun i => 34 ≤ i ∧ i < 54) (tcpKeepaliveBuild pcb (p.fresh tPbufIp 20) 34)
      (tcpKeepaliveBuild pcb (p'.fresh tPbufIp 20) 34) := by
  obtain ⟨q, hq⟩ : ∃ q : Pbuf → Pbuf, ∀ r, q r = tTcphHdrlenSet
      ((((((r.set16 34 (htons pcb.localPort)).set16 36 (htons pcb.remotePort)).set32 38
        (htonl (pcb.sndNxt - 1))).set32 42 (htonl pcb.rcvNxt)).set16 48 (htons pcb.rcvWnd)).set16
          52 0) 34 5 := ⟨_, fun _ => rfl⟩
  have hbuild : ∀ r : Pbuf, tcpKeepaliveBuild pcb r 34 = ((q r).set16 50 0).set16 50
      (tInetChksumPseudo [((q r).set16 50 0).data] pcb.localIp pcb.remoteIp tIpProtoTcp
        ((q r).set16 50 0).totLen) := fun r => by
    rw [hq]
    rfl
  have hfields : ∀ r : Pbuf, (q r).mem.get16 34 = htons pcb.localPort ∧
      (q r).mem.get16 36 = htons pcb.remotePort ∧ (q r).mem.get32 38 = htonl (pcb.sndNxt - 1) ∧
        (q r).mem.get32 42 = htonl pcb.rcvNxt ∧ (q r).mem.get16 48 = htons pcb.rcvWnd ∧
          (q r).mem.get16 52 = 0 ∧ (q r).payload = r.payload ∧ (q r).len = r.len ∧
            (q r).totLen = r.totLen := fun r => by
    rw [hq]
    simp (disch := omega) [tTcphHdrlenSet]
  have hword : ∀ r : Pbuf, (q r).mem.get16 46 = htons (0x5000 ||| tTcphFlags r.mem 34) := fun r => by
    have hw := tTcphWord_keepaliveBuild pcb r 34
    rw [hbuild, tTcphWord] at hw
    simp (disch := omega) only [Pbuf.set16_mem, ByteMem.get16_set16_of_disjoint] at hw
    rw [← hw, ntohs, htons_htons]
  obtain ⟨h1, h2, h3, h4, h5, h6, hpay, hlen, htot⟩ := hfields (p.fresh tPbufIp 20)
  obtain ⟨h1', h2', h3', h4', h5', h6', hpay', hlen', htot'⟩ := hfields (p'.fresh tPbufIp 20)
  have hword' : (q (p.fresh tPbufIp 20)).mem.get16 46 = (q (p'.fresh tPbufIp 20)).mem.get16 46 := by
    rw [hword, hword, Pbuf.fresh, Pbuf.fresh, hflags]
  rw [hbuild, hbuild]
  exact Pbuf.agreeOn_header ⟨hpay, hpay'⟩ ⟨hlen, hlen'⟩ (htot.trans htot'.symm) (h1.trans h1'.symm)
    (h2.trans h2'.symm) (h3.trans h3'.symm) (h4.trans h4'.symm) hword' (h5.trans h5'.symm)
    (h6.trans h6'.symm) _ _

end

/-! ## empty acknowledgements and probes -/

/-- The buffer for a header without data. -/
theorem tPbufAlloc_header (p : Pbuf) (rest : List Pbuf) :
    tPbufAlloc (p :: rest) tPbufIp (UInt16.ofNat tTcpHlen) tPbufFlagPool =
      (some (p.fresh tPbufIp 20), rest) :=
  tPbufAlloc_pool _ _ _ (by decide)

/-- A header without data, in a fresh buffer. -/
structure HeaderOnly (p q : Pbuf) : Prop where
  payload : q.payload = 34
  len : q.len = 20
  totLen : q.totLen = 20
  ref : q.ref = 1
  ident : q.ident = tcpIdent p

theorem tcpAckBuild_headerOnly (pcb : TcpPcb) (p : Pbuf) :
    HeaderOnly p (tcpAckBuild pcb (p.fresh tPbufIp 20) 34) := by
  obtain ⟨hpay, hlen, href, -⟩ := tcpAckBuild_spec pcb (p.fresh tPbufIp 20) 34
  have htot := tcpAckBuild_totLen pcb (p.fresh tPbufIp 20) 34
  refine ⟨hpay, hlen, htot, href, ?_⟩
  rw [Pbuf.ident, tPbufHeader_ip, hpay, tcpIdent]
  simp (disch := omega) [tcpAckBuild, tTcphFlagsSet, tTcphHdrlenSet, Pbuf.fresh]

theorem tcpKeepaliveBuild_headerOnly (pcb : TcpPcb) (p : Pbuf) :
    HeaderOnly p (tcpKeepaliveBuild pcb (p.fresh tPbufIp 20) 34) := by
  obtain ⟨hpay, hlen, htot⟩ := tcpKeepaliveBuild_spec pcb (p.fresh tPbufIp 20) 34
  refine ⟨hpay, hlen, htot, by simp [tcpKeepaliveBuild, tTcphHdrlenSet, Pbuf.fresh], ?_⟩
  rw [Pbuf.ident, tPbufHeader_ip, hpay, tcpIdent]
  simp (disch := omega) [tcpKeepaliveBuild, tTcphHdrlenSet, Pbuf.fresh]

section
variable {p p' q q' : Pbuf} (hq : HeaderOnly p q) (hq' : HeaderOnly p' q')
  (h : Pbuf.AgreeOn (fun i => 34 ≤ i ∧ i < 54) q q')
include hq hq' h

/-- The same header in both buffers is sent alike exactly when the identifications are the same. -/
theorem HeaderOnly.frames_iff (net : Net) (indet : Option Netif) (arg : NetifArg)
    (src dst : UInt32) (ttl tos proto : UInt8) :
    (frames (tIpOutput net indet arg q (some src) (.val dst) ttl tos proto).2.2 =
        frames (tIpOutput net indet arg q' (some src) (.val dst) ttl tos proto).2.2 ↔
      (ipNetif net indet arg dst ≠ none → tcpIdent p = tcpIdent p')) := by
  have hwritten : q.Written (fun i => 34 ≤ i ∧ i < 54) := by
    rw [Pbuf.Written, hq.totLen, hq.payload]
    exact ⟨by decide, fun i hlo hhi => ⟨hlo, hhi⟩⟩
  have hroom : IpHeadroom q.payload := by
    rw [hq.payload]
    decide
  have hiff := (tIpOutput_frames_iff net indet arg src dst ttl tos proto h hwritten).2
  rw [hq.ident, hq'.ident] at hiff
  exact hiff.trans ⟨fun hi hn => hi ⟨hroom, hn⟩, fun hi hn => hi hn.2⟩

end

theorem HeaderOnly.frames_length {p p' q q' : Pbuf} (hq : HeaderOnly p q) (hq' : HeaderOnly p' q')
    (net : Net) (indet : Option Netif) (arg : NetifArg) (src dst : UInt32) (ttl tos proto : UInt8) :
    (frames (tIpOutput net indet arg q (some src) (.val dst) ttl tos proto).2.2).length =
      (frames (tIpOutput net indet arg q' (some src) (.val dst) ttl tos proto).2.2).length := by
  rw [tIpOutput_frames _ _ _ _ _ _ _ _ _ (by rw [hq.payload]) (by rw [hq.payload]; decide),
    tIpOutput_frames _ _ _ _ _ _ _ _ _ (by rw [hq'.payload]) (by rw [hq'.payload]; decide)]
  simp only [AddrPtr.read]
  cases ipNetif net indet arg dst with
  | none => rfl
  | some netif => simp only [List.length_cons]

theorem HeaderOnly.free_alike {p p' q q' : Pbuf} (hq : HeaderOnly p q) (hq' : HeaderOnly p' q')
    {pool pool' : List Pbuf} (hfree : pool.length = pool'.length) (net : Net)
    (indet : Option Netif) (arg : NetifArg) (src dst : UInt32) (ttl tos proto : UInt8) :
    (tPbufFree pool [(tIpOutput net indet arg q (some src) (.val dst) ttl tos proto).2.1]).2.length =
      (tPbufFree pool'
        [(tIpOutput net indet arg q' (some src) (.val dst) ttl tos proto).2.1]).2.length :=
  tPbufFree_alike hfree (by rw [tIpOutput_ref, tIpOutput_ref, hq.ref, hq'.ref])

/-- The identification that an empty acknowledgement is sent with. -/
def ackStale (net : Net) (pools : Pools) (pcb : TcpPcb) : List UInt16 :=
  match pools.pbufPool with
  | [] => []
  | p :: _ =>
      if tIpRoute net pcb.localIp ≠ none ∨ tIpRoute net pcb.remoteIp ≠ none then [tcpIdent p] else []

theorem tTcpOutputAck_alike (env : OutEnv) {pools pools' : Pools} (hpools : pools.Alike pools')
    {pcb pcb' : TcpPcb} (hpcb : pcb.Alike pcb') :
    (tTcpOutputAck env pools pcb).1 = (tTcpOutputAck env pools' pcb').1 ∧
      OutAlike (ackStale env.net pools pcb = ackStale env.net pools' pcb')
        (tTcpOutputAck env pools pcb).2 (tTcpOutputAck env pools' pcb').2 := by
  obtain ⟨unsent, unacked, rfl, hunsent, hunacked⟩ := hpcb.exists_eq
  obtain ⟨pool, segPool⟩ := pools
  obtain ⟨pool', segPool'⟩ := pools'
  obtain ⟨hfree, rfl⟩ := hpools
  unfold tTcpOutputAck ackStale
  cases pool with
  | nil =>
      cases pool' with
      | nil => exact ⟨rfl, ⟨rfl, rfl⟩, ⟨rfl, hunsent, hunacked⟩, rfl, iff_of_true rfl rfl⟩
      | cons p' rest' => cases hfree
  | cons p rest =>
  cases pool' with
  | nil => cases hfree
  | cons p' rest' =>
  have hq := tcpAckBuild_headerOnly pcb p
  have hq' := tcpAckBuild_headerOnly pcb p'
  have hagree := tcpAckBuild_alike pcb p p'
  have hrest : rest.length = rest'.length := by simpa using hfree
  have hpay : ∀ p : Pbuf, (p.fresh tPbufIp 20).payload = 34 := fun p => rfl
  have hbuild : ∀ flags unsent unacked (r : Pbuf),
      tcpAckBuild { pcb with flags, unsent, unacked } r 34 = tcpAckBuild pcb r 34 :=
    fun _ _ _ _ => rfl
  simp only [tPbufAlloc_header, hpay, hbuild]
  have hfreed := hq.free_alike hq' hrest env.net none (.value (tIpRoute env.net pcb.localIp))
    pcb.localIp pcb.remoteIp pcb.ttl pcb.tos tIpProtoTcp
  have hsent := hq.frames_length hq' env.net none (.value (tIpRoute env.net pcb.localIp))
    pcb.localIp pcb.remoteIp pcb.ttl pcb.tos tIpProtoTcp
  have hiff := hq.frames_iff hq' hagree env.net none (.value (tIpRoute env.net pcb.localIp))
    pcb.localIp pcb.remoteIp pcb.ttl pcb.tos tIpProtoTcp
  generalize tIpOutput env.net none (.value (tIpRoute env.net pcb.localIp))
    (tcpAckBuild pcb (p.fresh tPbufIp 20) 34) (some pcb.localIp) (.val pcb.remoteIp) pcb.ttl pcb.tos
    tIpProtoTcp = r at hfreed hsent hiff ⊢
  generalize tIpOutput env.net none (.value (tIpRoute env.net pcb.localIp))
    (tcpAckBuild pcb (p'.fresh tPbufIp 20) 34) (some pcb.localIp) (.val pcb.remoteIp) pcb.ttl pcb.tos
    tIpProtoTcp = r' at hfreed hsent hiff ⊢
  refine ⟨trivial, ⟨hfreed, rfl⟩, ⟨rfl, hunsent, hunacked⟩, hsent, hiff.trans ?_⟩
  have hnetif : ipNetif env.net none (.value (tIpRoute env.net pcb.localIp)) pcb.remoteIp ≠ none ↔
      tIpRoute env.net pcb.localIp ≠ none ∨ tIpRoute env.net pcb.remoteIp ≠ none := by
    rw [ipNetif, NetifArg.resolve]
    cases tIpRoute env.net pcb.localIp with
    | none => simp
    | some n => simp
  rw [hnetif]
  by_cases hroute : tIpRoute env.net pcb.localIp ≠ none ∨ tIpRoute env.net pcb.remoteIp ≠ none
  · rw [if_pos hroute, if_pos hroute]
    simp only [List.cons.injEq, and_true]
    exact ⟨fun hi => hi hroute, fun hi _ => hi⟩
  · rw [if_neg hroute, if_neg hroute]
    exact iff_of_true (fun h => absurd h hroute) rfl

/-- No segment of the queue may be sent. -/
def TcpPcb.idle (pcb : TcpPcb) : Bool :=
  match pcb.unsent with
  | [] => true
  | seg :: _ => !seg.fits pcb.lastack pcb.wnd

theorem tTcpOutput_idle_eq (env : OutEnv) (pools : Pools) (pcb : TcpPcb) :
    tTcpOutput env pools pcb =
      if pcb.flags &&& tfAckNow ≠ 0 ∧ pcb.idle then tTcpOutputAck env pools pcb
      else (errOk, tTcpOutputLoop env pcb.wnd pools pcb pcb.unsent) := rfl

theorem TcpPcb.Alike.idle {pcb pcb' : TcpPcb} (h : pcb.Alike pcb')
    (hplaced : ∀ seg ∈ pcb.unsent, seg.Placed) : pcb'.idle = pcb.idle := by
  have hwnd : pcb'.wnd = pcb.wnd := by
    rw [h.same]
    rfl
  have hlastack : pcb'.lastack = pcb.lastack := by rw [h.same]
  have hunsent := h.unsent
  unfold TcpPcb.idle
  rw [hlastack, hwnd]
  generalize pcb.unsent = unsent at hunsent hplaced
  generalize pcb'.unsent = unsent' at hunsent
  cases hunsent with
  | nil => rfl
  | cons hseg _ =>
      have hseqno := hseg.seqno (hplaced _ List.mem_cons_self).tcphdr
      simp only [TcpSeg.fits, hseqno, hseg.len]

/-- What `t_tcp_output` sends of what its buffers held before. -/
def outputStale (env : OutEnv) (pools : Pools) (pcb : TcpPcb) : List UInt16 :=
  if pcb.flags &&& tfAckNow ≠ 0 ∧ pcb.idle then ackStale env.net pools pcb
  else sentIdents env pcb.wnd pcb pcb.unsent

theorem tTcpOutput_alike (env : OutEnv) {pools pools' : Pools} (hpools : pools.Alike pools')
    {pcb pcb' : TcpPcb} (hpcb : pcb.Alike pcb') (hplaced : ∀ seg ∈ pcb.unsent, seg.Placed) :
    (tTcpOutput env pools pcb).1 = (tTcpOutput env pools' pcb').1 ∧
      OutAlike (outputStale env pools pcb = outputStale env pools' pcb')
        (tTcpOutput env pools pcb).2 (tTcpOutput env pools' pcb').2 := by
  have hflags : pcb'.flags = pcb.flags := by rw [hpcb.same]
  have hwnd : pcb'.wnd = pcb.wnd := by
    rw [hpcb.same]
    rfl
  rw [tTcpOutput_idle_eq, tTcpOutput_idle_eq, outputStale, outputStale, hflags,
    hpcb.idle hplaced, hwnd]
  by_cases hidle : pcb.flags &&& tfAckNow ≠ 0 ∧ pcb.idle = true
  · simp only [if_pos hidle]
    exact tTcpOutputAck_alike env hpools hpcb
  · simp only [if_neg hidle]
    have hloop := tTcpOutputLoop_alike env pcb.wnd hpools hpcb hpcb.unsent hplaced
    have hidents : sentIdents env pcb.wnd pcb pcb'.unsent = sentIdents env pcb.wnd pcb' pcb'.unsent :=
      sentIdents_congr env pcb.wnd (by rw [hpcb.same])
        (fun indet => by rw [hpcb.same]; exact Iff.rfl) pcb'.unsent
    rw [hidents] at hloop
    exact ⟨trivial, hloop⟩

/-- What `tcp_keepalive` sends of what its buffer held before: the identification, and the flags. -/
def keepaliveStale (net : Net) (pools : Pools) (pcb : TcpPcb) : List UInt16 :=
  match pools.pbufPool with
  | [] => []
  | p :: _ => if tIpRoute net pcb.remoteIp ≠ none then [tcpIdent p, tTcphFlags p.mem 34] else []

section
variable (net : Net) (pcb : TcpPcb) (p p' : Pbuf)

/-- A frame that is sent says what the flags are. -/
theorem keepaliveFlags_of_frames (hroute : tIpRoute net pcb.remoteIp ≠ none)
    (h : frames (tIpOutput net none (.value none) (tcpKeepaliveBuild pcb (p.fresh tPbufIp 20) 34)
        (some pcb.localIp) (.val pcb.remoteIp) pcb.ttl 0 tIpProtoTcp).2.2 =
      frames (tIpOutput net none (.value none) (tcpKeepaliveBuild pcb (p'.fresh tPbufIp 20) 34)
        (some pcb.localIp) (.val pcb.remoteIp) pcb.ttl 0 tIpProtoTcp).2.2) :
    tTcphFlags p.mem 34 = tTcphFlags p'.mem 34 := by
  obtain ⟨netif, hsome⟩ := Option.ne_none_iff_exists'.mp hroute
  have hnetif : ipNetif net none (.value none) pcb.remoteIp = some netif := hsome
  have hshape : ∀ r : Pbuf, TcpShape (tcpKeepaliveBuild pcb (r.fresh tPbufIp 20) 34) :=
    fun r => (keepaliveShape pcb rfl rfl rfl).1
  have hroom : ∀ r : Pbuf, IpHeadroom (tcpKeepaliveBuild pcb (r.fresh tPbufIp 20) 34).payload :=
    fun r => by
      rw [(hshape r).payload]
      decide
  rw [tIpOutput_frames_of_headroom _ _ _ _ _ _ _ _ (hroom p),
    tIpOutput_frames_of_headroom _ _ _ _ _ _ _ _ (hroom p'), hnetif] at h
  have hword := congrArg frameTcpWord (Prod.mk.inj (List.cons.inj h).1).2
  rw [(hshape p).frameTcpWord, (hshape p').frameTcpWord, tTcphWord_keepaliveBuild,
    tTcphWord_keepaliveBuild] at hword
  -- the rest of the header word is the same anyway
  have hmask : ∀ m : ByteMem, (0x5000 ||| tTcphFlags m 34) &&& tcpFlags = tTcphFlags m 34 :=
    fun m => by
      rw [or_and_mask, show (0x5000 : UInt16) &&& tcpFlags = 0 from rfl, UInt16.zero_or, tTcphFlags,
        UInt16.and_assoc, UInt16.and_self]
  have hflags := congrArg (· &&& tcpFlags) hword
  simp only [hmask] at hflags
  exact hflags

theorem keepaliveBuild_frames_iff :
    frames (tIpOutput net none (.value none) (tcpKeepaliveBuild pcb (p.fresh tPbufIp 20) 34)
        (some pcb.localIp) (.val pcb.remoteIp) pcb.ttl 0 tIpProtoTcp).2.2 =
      frames (tIpOutput net none (.value none) (tcpKeepaliveBuild pcb (p'.fresh tPbufIp 20) 34)
        (some pcb.localIp) (.val pcb.remoteIp) pcb.ttl 0 tIpProtoTcp).2.2 ↔
    (tIpRoute net pcb.remoteIp ≠ none →
      tcpIdent p = tcpIdent p' ∧ tTcphFlags p.mem 34 = tTcphFlags p'.mem 34) := by
  have hnetif : ipNetif net none (.value none) pcb.remoteIp = tIpRoute net pcb.remoteIp := rfl
  have hiff := fun hflags => (tcpKeepaliveBuild_headerOnly pcb p).frames_iff
    (tcpKeepaliveBuild_headerOnly pcb p') (tcpKeepaliveBuild_alike pcb p p' hflags) net none
    (.value none) pcb.localIp pcb.remoteIp pcb.ttl 0 tIpProtoTcp
  rw [hnetif] at hiff
  constructor
  · intro h hroute
    have hflags := keepaliveFlags_of_frames net pcb p p' hroute h
    exact ⟨(hiff hflags).mp h hroute, hflags⟩
  · intro h
    by_cases hroute : tIpRoute net pcb.remoteIp ≠ none
    · exact (hiff (h hroute).2).mpr fun hroute => (h hroute).1
    · have hnone := fun q => tIpOutput_frames_of_none net none (.value none) q (some pcb.localIp)
        (.val pcb.remoteIp) pcb.ttl 0 tIpProtoTcp (not_not.mp hroute)
      rw [hnone, hnone]

end

theorem tcpKeepalive_alike (net : Net) {pools pools' : Pools} (hpools : pools.Alike pools')
    {pcb pcb' : TcpPcb} (hpcb : pcb.Alike pcb') :
    (tcpKeepalive net pools pcb).1.Alike (tcpKeepalive net pools' pcb').1 ∧
      (frames (tcpKeepalive net pools pcb).2).length =
        (frames (tcpKeepalive net pools' pcb').2).length ∧
      (frames (tcpKeepalive net pools pcb).2 = frames (tcpKeepalive net pools' pcb').2 ↔
        keepaliveStale net pools pcb = keepaliveStale net pools' pcb') := by
  have hsame : tcpKeepalive net pools' pcb' = tcpKeepalive net pools' pcb := by
    obtain ⟨unsent, unacked, rfl, -, -⟩ := hpcb.exists_eq
    rfl
  have hremote : pcb'.remoteIp = pcb.remoteIp := by rw [hpcb.same]
  rw [hsame]
  obtain ⟨pool, segPool⟩ := pools
  obtain ⟨pool', segPool'⟩ := pools'
  obtain ⟨hfree, rfl⟩ := hpools
  unfold tcpKeepalive keepaliveStale
  rw [hremote]
  cases pool with
  | nil =>
      cases pool' with
      | nil => exact ⟨⟨rfl, rfl⟩, rfl, iff_of_true rfl rfl⟩
      | cons p' rest' => cases hfree
  | cons p rest =>
  cases pool' with
  | nil => cases hfree
  | cons p' rest' =>
  have hrest : rest.length = rest'.length := by simpa using hfree
  have hpay : ∀ p : Pbuf, (p.fresh tPbufIp 20).payload = 34 := fun p => rfl
  have hq := tcpKeepaliveBuild_headerOnly pcb p
  have hq' := tcpKeepaliveBuild_headerOnly pcb p'
  have hfreed := hq.free_alike hq' hrest net none (.value none) pcb.localIp pcb.remoteIp pcb.ttl 0
    tIpProtoTcp
  have hsent := hq.frames_length hq' net none (.value none) pcb.localIp pcb.remoteIp pcb.ttl 0
    tIpProtoTcp
  have hiff := keepaliveBuild_frames_iff net pcb p p'
  simp only [tPbufAlloc_header, hpay]
  generalize tIpOutput net none (.value none) (tcpKeepaliveBuild pcb (p.fresh tPbufIp 20) 34)
    (some pcb.localIp) (.val pcb.remoteIp) pcb.ttl 0 tIpProtoTcp = r at hfreed hsent hiff ⊢
  generalize tIpOutput net none (.value none) (tcpKeepaliveBuild pcb (p'.fresh tPbufIp 20) 34)
    (some pcb.localIp) (.val pcb.remoteIp) pcb.ttl 0 tIpProtoTcp = r' at hfreed hsent hiff ⊢
  refine ⟨⟨hfreed, rfl⟩, hsent, hiff.trans ?_⟩
  by_cases hroute : tIpRoute net pcb.remoteIp ≠ none
  · rw [if_pos hroute, if_pos hroute]
    simp only [List.cons.injEq, and_true]
    exact ⟨fun h => h hroute, fun h _ => h⟩
  · rw [if_neg hroute, if_neg hroute]
    exact iff_of_true (fun h => absurd h hroute) rfl

end TTcp
