import TTcp.Ip
import TTcp.Tcp.Write

/-!
# TTcp.Tcp.Output

`t_tcp_output` (`core/t_tcp_out.c`): the transmission of queued segments and
of empty acknowledgements.
-/

namespace TTcp

/-- What output depends on besides the control block and the pools.  `indet`
is what the uninitialised `netif` of `t_tcp_output_segment` holds, by the
number of segments still queued behind the one being sent. -/
structure OutEnv where
  net : Net
  tcpTicks : UInt32
  indet : Nat → Option Netif

/-! ## one segment -/

/-- Start timing a round trip, unless one is being timed. -/
def rttStart (env : OutEnv) (seg : TcpSeg) (pcb : TcpPcb) : TcpPcb :=
  if pcb.rttest = 0 then { pcb with rttest := env.tcpTicks, rtseq := seg.seqno } else pcb

/-- The packet of a segment: the payload pointer moved to the TCP header, and
the checksum filled in. -/
def segPacket (seg : TcpSeg) (pcb : TcpPcb) : Pbuf :=
  let len := UInt16.ofInt ((seg.tcphdr : Int) - seg.p.payload)
  let p := { seg.p with
    len := seg.p.len - len
    totLen := seg.p.totLen - len
    payload := seg.tcphdr }
  let p := p.set16 (seg.tcphdr + 16) 0
  p.set16 (seg.tcphdr + 16)
    (tInetChksumPseudo [p.data] pcb.localIp pcb.remoteIp tIpProtoTcp p.totLen)

/-- The second half of `t_tcp_output_segment`, once the local address is
known. -/
def tTcpOutputSegmentSend (env : OutEnv) (indet : Option Netif) (netif : NetifArg) (seg : TcpSeg)
    (pcb : TcpPcb) : TcpSeg × TcpPcb × List Event :=
  let pcb := rttStart env seg { pcb with rtime := 0 }
  let (_, p, evs) := tIpOutput env.net indet netif (segPacket seg pcb) (some pcb.localIp)
    (.val pcb.remoteIp) pcb.ttl pcb.tos tIpProtoTcp
  ({ seg with p }, pcb, evs)

/-- `t_tcp_output_segment`.  Its `netif` is assigned only when the local
address still has to be found. -/
def tTcpOutputSegment (env : OutEnv) (indet : Option Netif) (seg : TcpSeg) (pcb : TcpPcb) :
    TcpSeg × TcpPcb × List Event :=
  let p := seg.p.set32 (seg.tcphdr + 8) (htonl pcb.rcvNxt)
  let p := p.set16 (seg.tcphdr + 14) (if pcb.rcvWnd < pcb.mss then 0 else htons pcb.rcvWnd)
  let seg := { seg with p }
  if pcb.localIp = 0 then
    match tIpRoute env.net pcb.remoteIp with
    | none => (seg, pcb, [])
    | some netif =>
        tTcpOutputSegmentSend env indet (.value (some netif)) seg { pcb with localIp := netif.ipAddr }
  else tTcpOutputSegmentSend env indet .unassigned seg pcb

/-! ## the queue -/

/-- `ntohl(seg->tcphdr->seqno) - pcb->lastack + seg->len <= wnd`. -/
def TcpSeg.fits (seg : TcpSeg) (lastack wnd : UInt32) : Bool :=
  seg.seqno - lastack + seg.len.toUInt32 ≤ wnd

/-- `snd_nxt` moves behind the segment just sent, and `snd_max` with it. -/
def sndAdvance (pcb : TcpPcb) (seg : TcpSeg) : TcpPcb :=
  let pcb := { pcb with sndNxt := seg.seqno + UInt32.ofNat seg.tcplen }
  if tTcpSeqLt pcb.sndMax pcb.sndNxt then { pcb with sndMax := pcb.sndNxt } else pcb

/-- Put a segment on the unacked queue: at the end, or at the front when it
comes before the last one. -/
def unackedInsert (unacked : List TcpSeg) (seg : TcpSeg) : List TcpSeg :=
  match unacked.getLast? with
  | none => [seg]
  | some useg => if tTcpSeqLt seg.seqno useg.seqno then seg :: unacked else unacked ++ [seg]

/-- One round of the loop of `t_tcp_output`, for the segment just taken off
the unsent queue. -/
def tTcpOutputRound (env : OutEnv) (indet : Option Netif) (pools : Pools) (pcb : TcpPcb)
    (seg : TcpSeg) : Pools × TcpPcb × List Event :=
  let (seg, pcb) :=
    if pcb.state ≠ .synSent then
      (seg.setFlag tcpAck, { pcb with flags := pcb.flags &&& ~~~(tfAckDelay ||| tfAckNow) })
    else (seg, pcb)
  let (seg, pcb, evs) := tTcpOutputSegment env indet seg pcb
  let pcb := sndAdvance pcb seg
  if 0 < seg.tcplen then (pools, { pcb with unacked := unackedInsert pcb.unacked seg }, evs)
  else ((tTcpSegFree pools seg.block).2, pcb, evs)

/-- The loop of `t_tcp_output` over the unsent queue. -/
def tTcpOutputLoop (env : OutEnv) (wnd : UInt32) (pools : Pools) (pcb : TcpPcb) :
    List TcpSeg → Pools × TcpPcb × List Event
  | [] => (pools, pcb, [])
  | seg :: rest =>
      if seg.fits pcb.lastack wnd then
        let (pools, pcb, evs) :=
          tTcpOutputRound env (env.indet rest.length) pools { pcb with unsent := rest } seg
        let (pools, pcb, evs') := tTcpOutputLoop env wnd pools pcb rest
        (pools, pcb, evs ++ evs')
      else (pools, pcb, [])

/-! ## empty acknowledgements -/

/-- The header of an empty acknowledgement. -/
def tcpAckBuild (pcb : TcpPcb) (p : Pbuf) (h : Nat) : Pbuf :=
  let p := p.set16 h (htons pcb.localPort)
  let p := p.set16 (h + 2) (htons pcb.remotePort)
  let p := p.set32 (h + 4) (htonl pcb.sndNxt)
  let p := p.set32 (h + 8) (htonl pcb.rcvNxt)
  let p := tTcphFlagsSet p h tcpAck
  let p := p.set16 (h + 14) (htons pcb.rcvWnd)
  let p := p.set16 (h + 18) 0
  let p := tTcphHdrlenSet p h 5
  let p := p.set16 (h + 16) 0
  p.set16 (h + 16) (tInetChksumPseudo [p.data] pcb.localIp pcb.remoteIp tIpProtoTcp p.totLen)

/-- The acknowledgement branch of `t_tcp_output`. -/
def tTcpOutputAck (env : OutEnv) (pools : Pools) (pcb : TcpPcb) :
    ErrT × Pools × TcpPcb × List Event :=
  let netif := tIpRoute env.net pcb.localIp
  match tPbufAlloc pools.pbufPool tPbufIp (UInt16.ofNat tTcpHlen) tPbufFlagPool with
  | (none, pbufPool) => (errBuf, { pools with pbufPool }, pcb, [])
  | (some p, pbufPool) =>
      let pcb := { pcb with flags := pcb.flags &&& ~~~(tfAckDelay ||| tfAckNow) }
      let p := tcpAckBuild pcb p p.payload
      let (_, p, evs) := tIpOutput env.net none (.value netif) p (some pcb.localIp)
        (.val pcb.remoteIp) pcb.ttl pcb.tos tIpProtoTcp
      (errOk, { pools with pbufPool := (tPbufFree pbufPool [p]).2 }, pcb, evs)

/-- `MIN(pcb->snd_wnd, pcb->cwnd)`. -/
def TcpPcb.wnd (pcb : TcpPcb) : UInt32 :=
  if pcb.cwnd.toUInt32 < pcb.sndWnd then pcb.cwnd.toUInt32 else pcb.sndWnd

/-- `t_tcp_output`. -/
def tTcpOutput (env : OutEnv) (pools : Pools) (pcb : TcpPcb) : ErrT × Pools × TcpPcb × List Event :=
  let idle : Bool := match pcb.unsent with
    | [] => true
    | seg :: _ => !seg.fits pcb.lastack pcb.wnd
  if pcb.flags &&& tfAckNow ≠ 0 ∧ idle then tTcpOutputAck env pools pcb
  else (errOk, tTcpOutputLoop env pcb.wnd pools pcb pcb.unsent)

/-- `t_tcp_output` acknowledges, or goes through the queue. -/
theorem tTcpOutput_cases (env : OutEnv) (pools : Pools) (pcb : TcpPcb) :
    tTcpOutput env pools pcb = tTcpOutputAck env pools pcb ∨
      tTcpOutput env pools pcb = (errOk, tTcpOutputLoop env pcb.wnd pools pcb pcb.unsent) :=
  ite_eq_or_eq ..

/-! ## what is handed to IP -/

/-- The sequence number of a packet handed to `t_ip_output`. -/
def tcpPacketSeqno (p : Pbuf) : UInt32 := tcphSeqno p.mem p.payload

/-- The data of a packet handed to `t_ip_output`, behind its TCP header. -/
def tcpPacketData (p : Pbuf) : List UInt8 :=
  p.data.drop (4 * (tTcphHdrlen p.mem p.payload).toNat)

/-- The packets that a call hands to IP. -/
def ipPackets (evs : List Event) : List Pbuf := evs.filterMap Event.ipPacket?

@[simp] theorem ipPackets_nil : ipPackets [] = [] := rfl

@[simp] theorem ipPackets_append (evs evs' : List Event) :
    ipPackets (evs ++ evs') = ipPackets evs ++ ipPackets evs' := List.filterMap_append

/-- The fields of a control block that output leaves alone. -/
structure TcpPcb.SameConn (pcb pcb' : TcpPcb) : Prop where
  remoteIp : pcb'.remoteIp = pcb.remoteIp
  localPort : pcb'.localPort = pcb.localPort
  remotePort : pcb'.remotePort = pcb.remotePort
  state : pcb'.state = pcb.state
  rcvNxt : pcb'.rcvNxt = pcb.rcvNxt
  mss : pcb'.mss = pcb.mss
  lastack : pcb'.lastack = pcb.lastack
  cwnd : pcb'.cwnd = pcb.cwnd
  sndWnd : pcb'.sndWnd = pcb.sndWnd
  sndLbb : pcb'.sndLbb = pcb.sndLbb
  sndBuf : pcb'.sndBuf = pcb.sndBuf
  sndQueuelen : pcb'.sndQueuelen = pcb.sndQueuelen

namespace TcpPcb.SameConn

variable {pcb pcb' pcb'' : TcpPcb}

theorem refl (pcb : TcpPcb) : pcb.SameConn pcb :=
  ⟨rfl, rfl, rfl, rfl, rfl, rfl, rfl, rfl, rfl, rfl, rfl, rfl⟩

theorem trans (h : pcb.SameConn pcb') (h' : pcb'.SameConn pcb'') : pcb.SameConn pcb'' where
  remoteIp := h'.remoteIp.trans h.remoteIp
  localPort := h'.localPort.trans h.localPort
  remotePort := h'.remotePort.trans h.remotePort
  state := h'.state.trans h.state
  rcvNxt := h'.rcvNxt.trans h.rcvNxt
  mss := h'.mss.trans h.mss
  lastack := h'.lastack.trans h.lastack
  cwnd := h'.cwnd.trans h.cwnd
  sndWnd := h'.sndWnd.trans h.sndWnd
  sndLbb := h'.sndLbb.trans h.sndLbb
  sndBuf := h'.sndBuf.trans h.sndBuf
  sndQueuelen := h'.sndQueuelen.trans h.sndQueuelen

end TcpPcb.SameConn

/-! ## sending one segment -/

/-- There is no local address, and none can be found. -/
def TcpPcb.Unroutable (net : Net) (pcb : TcpPcb) : Prop :=
  pcb.localIp = 0 ∧ tIpRoute net pcb.remoteIp = none

/-- The segment with its acknowledgement number and window filled in. -/
def TcpSeg.completed (seg : TcpSeg) (pcb : TcpPcb) : TcpSeg :=
  let p := seg.p.set32 (seg.tcphdr + 8) (htonl pcb.rcvNxt)
  { seg with p := p.set16 (seg.tcphdr + 14) (if pcb.rcvWnd < pcb.mss then 0 else htons pcb.rcvWnd) }

section
variable (env : OutEnv) (indet : Option Netif) (netif : NetifArg) (seg : TcpSeg) (pcb : TcpPcb)

theorem rttStart_eq : ∃ rttest rtseq, rttStart env seg pcb = { pcb with rttest, rtseq } := by
  unfold rttStart
  split
  · exact ⟨_, _, rfl⟩
  · exact ⟨_, _, rfl⟩

theorem sndAdvance_eq : ∃ sndMax, sndAdvance pcb seg =
    { pcb with sndNxt := seg.seqno + UInt32.ofNat seg.tcplen, sndMax } := by
  unfold sndAdvance
  simp only
  split
  · exact ⟨_, rfl⟩
  · exact ⟨_, rfl⟩

/-- The packet goes to `t_ip_output`; of the control block only the timing
changes. -/
theorem tTcpOutputSegmentSend_eq : ∃ rttest rtseq,
    tTcpOutputSegmentSend env indet netif seg pcb =
      let r := tIpOutput env.net indet netif (segPacket seg pcb) (some pcb.localIp)
        (.val pcb.remoteIp) pcb.ttl pcb.tos tIpProtoTcp
      ({ seg with p := r.2.1 }, { pcb with rtime := 0, rttest, rtseq }, r.2.2) := by
  obtain ⟨rttest, rtseq, hrtt⟩ := rttStart_eq env seg { pcb with rtime := 0 }
  refine ⟨rttest, rtseq, ?_⟩
  unfold tTcpOutputSegmentSend
  rw [hrtt]
  rfl

/-- All that `t_tcp_output_segment` can do. -/
theorem tTcpOutputSegment_cases :
    (pcb.Unroutable env.net ∧
      tTcpOutputSegment env indet seg pcb = (seg.completed pcb, pcb, [])) ∨
    (∃ n, (pcb.localIp = 0 ∧ tIpRoute env.net pcb.remoteIp = some n) ∧
      tTcpOutputSegment env indet seg pcb = tTcpOutputSegmentSend env indet (.value (some n))
        (seg.completed pcb) { pcb with localIp := n.ipAddr }) ∨
    (pcb.localIp ≠ 0 ∧ tTcpOutputSegment env indet seg pcb =
      tTcpOutputSegmentSend env indet .unassigned (seg.completed pcb) pcb) := by
  unfold tTcpOutputSegment
  by_cases hip : pcb.localIp = 0
  · simp only [if_pos hip]
    cases hroute : tIpRoute env.net pcb.remoteIp with
    | none => exact Or.inl ⟨⟨hip, hroute⟩, rfl⟩
    | some n => exact Or.inr (.inl ⟨n, ⟨hip, rfl⟩, rfl⟩)
  · simp only [if_neg hip]
    exact Or.inr (.inr ⟨hip, rfl⟩)

end

/-- `seg'` is `seg` after header fields other than sequence number, length and
flags were filled in. -/
structure TcpSeg.Filled (seg seg' : TcpSeg) : Prop where
  id : seg'.id = seg.id
  len : seg'.len = seg.len
  tcphdr : seg'.tcphdr = seg.tcphdr
  ref : seg'.p.ref = seg.p.ref
  seqno : seg'.seqno = seg.seqno
  word : seg'.word = seg.word
  payload : seg'.payload = seg.payload

theorem TcpSeg.Filled.tcplen {seg seg' : TcpSeg} (h : seg.Filled seg') :
    seg'.tcplen = seg.tcplen := by
  rw [TcpSeg.tcplen, TcpSeg.tcplen, h.len, TcpSeg.flags_eq, TcpSeg.flags_eq, h.word]

/-- `q` is the packet of `seg`: its header, and the rest of its buffer. -/
structure PacketOf (q : Pbuf) (seg : TcpSeg) : Prop where
  payload : q.payload = seg.tcphdr
  len : q.len = seg.p.len
  seqno : tcpPacketSeqno q = seg.seqno
  word : tTcphWord q.mem q.payload = seg.word
  data : ∀ n, q.mem.slice (seg.tcphdr + 20) n = seg.p.mem.slice (seg.tcphdr + 20) n

/-- Memory that differs in the acknowledgement number, the window or the
checksum of a header only. -/
def SameHeader (h : Nat) (m m' : ByteMem) : Prop :=
  ∀ i, h ≤ i → (i < h + 8 ∨ (h + 12 ≤ i ∧ i < h + 14) ∨ h + 18 ≤ i) → m' i = m i

theorem SameHeader.seqno {h : Nat} {m m' : ByteMem} (hs : SameHeader h m m') :
    tcphSeqno m' h = tcphSeqno m h := by
  rw [tcphSeqno, ByteMem.get32_congr fun i hi => hs (h + 4 + i) (by omega) (by omega), tcphSeqno]

theorem SameHeader.word {h : Nat} {m m' : ByteMem} (hs : SameHeader h m m') :
    tTcphWord m' h = tTcphWord m h := by
  rw [tTcphWord, ByteMem.get16_congr fun i hi => hs (h + 12 + i) (by omega) (by omega), tTcphWord]

theorem SameHeader.slice {h : Nat} {m m' : ByteMem} (hs : SameHeader h m m') (n : Nat) :
    m'.slice (h + 20) n = m.slice (h + 20) n :=
  ByteMem.slice_congr fun i _ => hs (h + 20 + i) (by omega) (by omega)

section
variable (env : OutEnv) (indet : Option Netif) (netif : NetifArg) (seg : TcpSeg) (pcb : TcpPcb)

theorem segPacket_spec (h' : seg.p.payload = seg.tcphdr) :
    SameHeader seg.tcphdr seg.p.mem (segPacket seg pcb).mem ∧
      (segPacket seg pcb).payload = seg.tcphdr ∧ (segPacket seg pcb).len = seg.p.len ∧
      (segPacket seg pcb).ref = seg.p.ref := by
  have hlen : UInt16.ofInt ((seg.tcphdr : Int) - seg.p.payload) = 0 := by
    rw [h', sub_self]
    rfl
  refine ⟨fun i hi ho => ?_, rfl, ?_, rfl⟩
  · simp only [segPacket, Pbuf.set16_mem]
    rw [ByteMem.set16_apply_of_disjoint _ _ (by omega),
      ByteMem.set16_apply_of_disjoint _ _ (by omega)]
  · simp [segPacket, hlen]

theorem tTcpOutputSegmentSend_spec (h : seg.tcphdr = 34) (h' : seg.p.payload = 34) :
    let r := tTcpOutputSegmentSend env indet netif seg pcb
    (∃ rttest rtseq, r.2.1 = { pcb with rtime := 0, rttest, rtseq }) ∧
      seg.Filled r.1 ∧ ∃ q, ipPackets r.2.2 = [q] ∧ PacketOf q seg := by
  obtain ⟨hsame, hpay, hlen, href⟩ := segPacket_spec seg pcb (h'.trans h.symm)
  obtain ⟨rttest, rtseq, hsend⟩ := tTcpOutputSegmentSend_eq env indet netif seg pcb
  obtain ⟨q, hq⟩ : ∃ q, q = segPacket seg pcb := ⟨_, rfl⟩
  rw [← hq] at hsame hpay hlen href hsend
  obtain ⟨r, hr⟩ : ∃ r, r = tIpOutput env.net indet netif q (some pcb.localIp)
      (.val pcb.remoteIp) pcb.ttl pcb.tos tIpProtoTcp := ⟨_, rfl⟩
  have hsame' : SameHeader seg.tcphdr seg.p.mem r.2.1.mem := fun i hi ho => by
    rw [hr, tIpOutput_mem_of_le _ _ _ _ _ _ _ _ _ (by omega) (by omega) (by omega),
      hsame i hi ho]
  simp only [← hr] at hsend
  simp only [hsend]
  refine ⟨⟨_, _, rfl⟩, ⟨rfl, rfl, rfl, ?_, hsame'.seqno, hsame'.word, hsame'.slice _⟩,
    q, by simp [ipPackets, hr], ⟨hpay, hlen, ?_, ?_, hsame.slice⟩⟩
  · simp only [hr, tIpOutput_ref, href]
  · rw [tcpPacketSeqno, hpay]
    exact hsame.seqno
  · rw [hpay]
    exact hsame.word

/-- One segment is handed to IP as one packet, unless there is no route.  Of
the control block only the local address and the timing change. -/
theorem tTcpOutputSegment_spec (h : seg.tcphdr = 34) (h' : seg.p.payload = 34) :
    let r := tTcpOutputSegment env indet seg pcb
    (∃ localIp rtime rttest rtseq, r.2.1 = { pcb with localIp, rtime, rttest, rtseq } ∧
        (localIp = pcb.localIp ∨ pcb.localIp = 0 ∧ tIpRoute env.net pcb.remoteIp ≠ none)) ∧
      seg.Filled r.1 ∧ (pcb.Unroutable env.net → ipPackets r.2.2 = []) ∧
      (¬ pcb.Unroutable env.net → ∃ q, ipPackets r.2.2 = [q] ∧ PacketOf q seg) := by
  obtain ⟨seg1, hseg1⟩ : ∃ seg1, seg1 = seg.completed pcb := ⟨_, rfl⟩
  have hsame : SameHeader seg.tcphdr seg.p.mem seg1.p.mem := fun i hi ho => by
    simp only [hseg1, TcpSeg.completed, Pbuf.set16_mem, Pbuf.set32_mem]
    rw [ByteMem.set16_apply_of_disjoint _ _ (by omega),
      ByteMem.set32_apply_of_disjoint _ _ (by omega)]
  have hfill : seg.Filled seg1 := by
    have hid : seg1.id = seg.id := by rw [hseg1]; rfl
    have hlen : seg1.len = seg.len := by rw [hseg1]; rfl
    have hhdr : seg1.tcphdr = seg.tcphdr := by rw [hseg1]; rfl
    have href : seg1.p.ref = seg.p.ref := by rw [hseg1]; rfl
    refine ⟨hid, hlen, hhdr, href, ?_, ?_, ?_⟩
    · rw [TcpSeg.seqno, hhdr, hsame.seqno, TcpSeg.seqno]
    · rw [TcpSeg.word, hhdr, hsame.word, TcpSeg.word]
    · rw [TcpSeg.payload, hhdr, hlen, hsame.slice, TcpSeg.payload]
  have hplen : seg1.p.len = seg.p.len := by rw [hseg1]; rfl
  have hpacket : ∀ q, PacketOf q seg1 → PacketOf q seg := fun q hq => by
    refine ⟨hq.payload.trans hfill.tcphdr, hq.len.trans hplen, hq.seqno.trans hfill.seqno,
      hq.word.trans hfill.word, fun n => ?_⟩
    have hd := hq.data n
    rw [hfill.tcphdr] at hd
    rw [hd, hsame.slice]
  have h1 : seg1.tcphdr = 34 := hfill.tcphdr.trans h
  have h1' : seg1.p.payload = 34 := by rw [hseg1]; exact h'
  have htrans : ∀ seg2, seg1.Filled seg2 → seg.Filled seg2 := fun seg2 h2 =>
    ⟨h2.id.trans hfill.id, h2.len.trans hfill.len, h2.tcphdr.trans hfill.tcphdr,
      h2.ref.trans hfill.ref, h2.seqno.trans hfill.seqno, h2.word.trans hfill.word,
      h2.payload.trans hfill.payload⟩
  obtain ⟨hu, hr⟩ | ⟨n, ⟨hip, hroute⟩, hr⟩ | ⟨hip, hr⟩ :=
    tTcpOutputSegment_cases env indet seg pcb
  · rw [← hseg1] at hr
    simp only [hr]
    exact ⟨⟨_, _, _, _, rfl, Or.inl rfl⟩, hfill, fun _ => rfl, fun hn => absurd hu hn⟩
  · obtain ⟨⟨rttest, rtseq, hpcb⟩, hfill', q, hq, hqp⟩ := tTcpOutputSegmentSend_spec env indet
      (.value (some n)) seg1 { pcb with localIp := n.ipAddr } h1 h1'
    rw [← hseg1] at hr
    rw [hr]
    refine ⟨⟨_, _, _, _, hpcb, Or.inr ⟨hip, by simp [hroute]⟩⟩, htrans _ hfill', fun hu => ?_,
      fun _ => ⟨q, hq, hpacket q hqp⟩⟩
    exact absurd (hu.2.symm.trans hroute) (by simp)
  · obtain ⟨⟨rttest, rtseq, hpcb⟩, hfill', q, hq, hqp⟩ := tTcpOutputSegmentSend_spec env indet
      .unassigned seg1 pcb h1 h1'
    rw [← hseg1] at hr
    rw [hr]
    exact ⟨⟨_, _, _, _, hpcb, Or.inl rfl⟩, htrans _ hfill', fun hu => absurd hu.1 hip,
      fun _ => ⟨q, hq, hpacket q hqp⟩⟩

end

/-! ## sending data -/

/-- A data segment on the unacked queue: ACK is set in its header. -/
structure TcpSeg.Sent (seg : TcpSeg) : Prop where
  len_pos : 0 < seg.len.toNat
  len_le : seg.len.toNat ≤ 1400
  word : seg.word = 0x5010 ∨ seg.word = 0x5018

/-- Packets that follow on one another in the sequence space from `a` on. -/
def PacketsFrom (a : UInt32) : List Pbuf → Prop
  | [] => True
  | q :: qs => tcpPacketSeqno q = a ∧ PacketsFrom (a + UInt32.ofNat (tcpPacketData q).length) qs

@[simp] theorem packetsFrom_nil (a : UInt32) : PacketsFrom a [] := trivial

@[simp] theorem packetsFrom_cons {a : UInt32} {q : Pbuf} {qs : List Pbuf} :
    PacketsFrom a (q :: qs) ↔
      tcpPacketSeqno q = a ∧ PacketsFrom (a + UInt32.ofNat (tcpPacketData q).length) qs := Iff.rfl

theorem packetsFrom_append {a : UInt32} {qs qs' : List Pbuf} : PacketsFrom a (qs ++ qs') ↔
    PacketsFrom a qs ∧ PacketsFrom (a + UInt32.ofNat (qs.flatMap tcpPacketData).length) qs' := by
  induction qs generalizing a with
  | nil => simp
  | cons q qs ih =>
      rw [List.cons_append, packetsFrom_cons, packetsFrom_cons, ih, List.flatMap_cons,
        List.length_append, UInt32.ofNat_add, UInt32.add_assoc, and_assoc]

/-- The data of a packet with a plain 20-byte TCP header. -/
theorem tcpPacketData_eq {q : Pbuf} (hword : tTcphHdrlen q.mem q.payload = 5) {n : Nat}
    (hlen : q.len.toNat = 20 + n) : tcpPacketData q = q.mem.slice (q.payload + 20) n := by
  rw [tcpPacketData, hword, Pbuf.data, hlen]
  exact ByteMem.drop_slice ..

/-- With ACK added, an unsent data segment is one to be sent. -/
theorem TcpSeg.Unsent.setAck {seg : TcpSeg} (h : seg.Unsent) :
    (seg.setFlag tcpAck).word = 0x5010 ∨ (seg.setFlag tcpAck).word = 0x5018 := by
  rw [setFlag_word]
  rcases h.word with hw | hw <;> rw [hw]
  · exact Or.inl rfl
  · exact Or.inr rfl

theorem TcpSeg.Sent.tcplen {seg : TcpSeg} (h : seg.Sent) : seg.tcplen = seg.len.toNat := by
  apply tcplen_of_flags
  all_goals rw [flags_eq]; rcases h.word with hw | hw <;> rw [hw] <;> rfl

/-- A segment as it goes out: with ACK set, except in SYN_SENT. -/
def TcpSeg.outgoing (seg : TcpSeg) (state : TcpState) : TcpSeg :=
  if state ≠ .synSent then seg.setFlag tcpAck else seg

section
variable (seg : TcpSeg) (state : TcpState)

theorem TcpSeg.outgoing_cases : seg.outgoing state = seg.setFlag tcpAck ∨ seg.outgoing state = seg := by
  unfold outgoing
  split <;> simp

@[simp] theorem TcpSeg.outgoing_id : (seg.outgoing state).id = seg.id := by
  unfold outgoing
  split <;> rfl

@[simp] theorem TcpSeg.outgoing_len : (seg.outgoing state).len = seg.len := by
  unfold outgoing
  split <;> rfl

@[simp] theorem TcpSeg.outgoing_tcphdr : (seg.outgoing state).tcphdr = seg.tcphdr := by
  unfold outgoing
  split <;> rfl

@[simp] theorem TcpSeg.outgoing_p_payload : (seg.outgoing state).p.payload = seg.p.payload := by
  unfold outgoing
  split <;> rfl

@[simp] theorem TcpSeg.outgoing_seqno : (seg.outgoing state).seqno = seg.seqno := by
  rcases seg.outgoing_cases state with h | h
  · rw [h, setFlag_seqno]
  · rw [h]

@[simp] theorem TcpSeg.outgoing_payload : (seg.outgoing state).payload = seg.payload := by
  rcases seg.outgoing_cases state with h | h
  · rw [h, setFlag_payload]
  · rw [h]

@[simp] theorem TcpSeg.outgoing_tcplen : (seg.outgoing state).tcplen = seg.tcplen := by
  rcases seg.outgoing_cases state with h | h
  · rw [h, seg.setFlag_tcplen (by decide)]
  · rw [h]

end

theorem unackedInsert_eq {unacked : List TcpSeg} {seg : TcpSeg}
    (h : ∀ useg ∈ unacked.getLast?, tTcpSeqLt seg.seqno useg.seqno = false) :
    unackedInsert unacked seg = unacked ++ [seg] := by
  rcases List.eq_nil_or_concat' unacked with rfl | ⟨us, useg, rfl⟩
  · rfl
  · simp [unackedInsert, h useg (by simp)]

/-- The control block as a round sends from it: no acknowledgement is due any
more, except in SYN_SENT. -/
def TcpPcb.outgoing (pcb : TcpPcb) : TcpPcb :=
  if pcb.state ≠ .synSent then { pcb with flags := pcb.flags &&& ~~~(tfAckDelay ||| tfAckNow) }
  else pcb

theorem TcpPcb.outgoing_eq (pcb : TcpPcb) : ∃ flags, pcb.outgoing = { pcb with flags } := by
  unfold outgoing
  split
  · exact ⟨_, rfl⟩
  · exact ⟨_, rfl⟩

section
variable (env : OutEnv) (pools : Pools)

/-- What a round does with the outcome of `t_tcp_output_segment`. -/
theorem tTcpOutputRound_eq {indet : Option Netif} {pcb : TcpPcb} {seg : TcpSeg}
    {r : TcpSeg × TcpPcb × List Event}
    (hr : r = tTcpOutputSegment env indet (seg.outgoing pcb.state) pcb.outgoing) :
    ∃ sndMax, tTcpOutputRound env indet pools pcb seg =
      if 0 < r.1.tcplen then
        (pools, { r.2.1 with
          sndNxt := r.1.seqno + UInt32.ofNat r.1.tcplen
          sndMax := sndMax
          unacked := unackedInsert r.2.1.unacked r.1 }, r.2.2)
      else
        ((tTcpSegFree pools r.1.block).2, { r.2.1 with
          sndNxt := r.1.seqno + UInt32.ofNat r.1.tcplen
          sndMax := sndMax }, r.2.2) := by
  obtain ⟨sndMax, hadv⟩ := sndAdvance_eq r.1 r.2.1
  have hpair : (if pcb.state ≠ .synSent then
      (seg.setFlag tcpAck, { pcb with flags := pcb.flags &&& ~~~(tfAckDelay ||| tfAckNow) })
    else (seg, pcb)) = (seg.outgoing pcb.state, pcb.outgoing) := by
    unfold TcpSeg.outgoing TcpPcb.outgoing
    split <;> rfl
  refine ⟨sndMax, ?_⟩
  unfold tTcpOutputRound
  simp only [hpair, ← hr, hadv]

/-- One round, for a segment that takes sequence space and does not come before
the last one on the unacked queue: it goes to its end. -/
theorem tTcpOutputRound_spec (indet : Option Netif) (pcb : TcpPcb) {seg : TcpSeg}
    (h : seg.tcphdr = 34) (h' : seg.p.payload = 34) (hpos : 0 < seg.tcplen)
    (hlt : ∀ useg ∈ pcb.unacked.getLast?, tTcpSeqLt seg.seqno useg.seqno = false) :
    let r := tTcpOutputRound env indet pools pcb seg
    ∃ seg', (seg.outgoing pcb.state).Filled seg' ∧ r.1 = pools ∧ pcb.SameConn r.2.1 ∧
      r.2.1.unsent = pcb.unsent ∧ r.2.1.unacked = pcb.unacked ++ [seg'] ∧
      r.2.1.sndNxt = seg.seqno + UInt32.ofNat seg.tcplen ∧
      (r.2.1.Unroutable env.net ↔ pcb.Unroutable env.net) ∧
      (pcb.Unroutable env.net → ipPackets r.2.2 = []) ∧
      (¬ pcb.Unroutable env.net → ∃ q, ipPackets r.2.2 = [q] ∧
        PacketOf q (seg.outgoing pcb.state)) := by
  obtain ⟨flags, hflags⟩ := pcb.outgoing_eq
  obtain ⟨r, hr⟩ : ∃ r, r = tTcpOutputSegment env indet (seg.outgoing pcb.state) pcb.outgoing :=
    ⟨_, rfl⟩
  obtain ⟨sndMax, hround⟩ := tTcpOutputRound_eq env pools hr
  obtain ⟨⟨localIp, rtime, rttest, rtseq, hpcb, hlocal⟩, hfill, hun, hrt⟩ :=
    tTcpOutputSegment_spec env indet (seg.outgoing pcb.state) pcb.outgoing
      (by rw [seg.outgoing_tcphdr, h]) (by rw [seg.outgoing_p_payload, h'])
  rw [← hr] at hpcb hfill hun hrt
  rw [hflags] at hpcb hlocal hun hrt
  have htcplen : r.1.tcplen = seg.tcplen := by rw [hfill.tcplen, seg.outgoing_tcplen]
  have hseq : r.1.seqno = seg.seqno := by rw [hfill.seqno, seg.outgoing_seqno]
  have hunacked : r.2.1.unacked = pcb.unacked := by rw [hpcb]
  have hins : unackedInsert pcb.unacked r.1 = pcb.unacked ++ [r.1] :=
    unackedInsert_eq fun useg hu => by rw [hseq]; exact hlt useg hu
  rw [hunacked, hins, htcplen, hseq, if_pos hpos] at hround
  intro r'
  rw [show r' = _ from hround]
  refine ⟨r.1, hfill, rfl, ?_, ?_, rfl, rfl, ?_, hun, hrt⟩
  · rw [hpcb]
    exact ⟨rfl, rfl, rfl, rfl, rfl, rfl, rfl, rfl, rfl, rfl, rfl, rfl⟩
  · rw [hpcb]
  · simp only [TcpPcb.Unroutable, hpcb]
    rcases hlocal with rfl | ⟨hzero, hne⟩
    · exact Iff.rfl
    · exact iff_of_false (fun h => hne h.2) fun h => hne h.2

/-- One round outside SYN_SENT: the segment goes to the end of the unacked
queue, unless it comes before the last one there. -/
theorem tTcpOutputRound_data (indet : Option Netif) (pcb : TcpPcb) {seg : TcpSeg} (hs : seg.Unsent)
    (hst : pcb.state ≠ .synSent)
    (hlt : ∀ useg ∈ pcb.unacked.getLast?, tTcpSeqLt seg.seqno useg.seqno = false) :
    let r := tTcpOutputRound env indet pools pcb seg
    ∃ seg', seg'.Sent ∧ seg'.seqno = seg.seqno ∧ seg'.len = seg.len ∧
      seg'.payload = seg.payload ∧ r.1 = pools ∧ pcb.SameConn r.2.1 ∧
      r.2.1.unsent = pcb.unsent ∧ r.2.1.unacked = pcb.unacked ++ [seg'] ∧
      r.2.1.sndNxt = seg.seqno + seg.len.toUInt32 ∧
      (r.2.1.Unroutable env.net ↔ pcb.Unroutable env.net) ∧
      (pcb.Unroutable env.net → ipPackets r.2.2 = []) ∧
      (¬ pcb.Unroutable env.net → ∃ q, ipPackets r.2.2 = [q] ∧ tcpPacketSeqno q = seg.seqno ∧
        tcpPacketData q = seg.payload) := by
  have hpos : 0 < seg.tcplen := by
    rw [hs.tcplen]
    exact hs.len_pos
  obtain ⟨seg', hfill, hpools, hconn, hun, hunacked, hnxt, hroute, hno, hyes⟩ :=
    tTcpOutputRound_spec env pools indet pcb hs.tcphdr hs.payload hpos hlt
  have hout : seg.outgoing pcb.state = seg.setFlag tcpAck := if_pos hst
  rw [hout] at hfill hyes
  rw [hs.tcplen, UInt32.ofNat_uInt16ToNat] at hnxt
  refine ⟨seg', ⟨?_, ?_, ?_⟩, by rw [hfill.seqno, TcpSeg.setFlag_seqno], hfill.len,
    by rw [hfill.payload, TcpSeg.setFlag_payload], hpools, hconn, hun, hunacked, hnxt, hroute, hno,
    fun h => ?_⟩
  · rw [hfill.len]
    exact hs.len_pos
  · rw [hfill.len]
    exact hs.len_le
  · rw [hfill.word]
    exact hs.setAck
  · obtain ⟨q, hq, hp⟩ := hyes h
    have hplen : q.len.toNat = 20 + seg.len.toNat := by
      have hle := hs.len_le
      rw [hp.len, show (seg.setFlag tcpAck).p.len = seg.p.len from rfl, hs.plen, UInt16.toNat_add,
        show (20 : UInt16).toNat = 20 from rfl]
      omega
    have hword : tTcphHdrlen q.mem q.payload = 5 := by
      rw [tTcphHdrlen, hp.word]
      rcases hs.setAck with hw | hw <;> rw [hw] <;> rfl
    refine ⟨q, hq, hp.seqno.trans (TcpSeg.setFlag_seqno ..), ?_⟩
    rw [tcpPacketData_eq hword hplen, hp.payload, hp.data]
    exact TcpSeg.setFlag_payload seg tcpAck

/-- The segment behind a queue of sent data never comes before its last
one. -/
theorem DataQueue.seqLt_getLast {a b : UInt32} {q : List TcpSeg} {bytes : List UInt8}
    (h : DataQueue TcpSeg.Sent a q b bytes) :
    ∀ useg ∈ q.getLast?, tTcpSeqLt b useg.seqno = false := by
  rcases List.eq_nil_or_concat' q with rfl | ⟨us, useg, rfl⟩
  · simp
  · intro useg' hu
    obtain rfl : useg = useg' := by simpa using hu
    obtain ⟨c, bs, bs', -, hl, -⟩ := dataQueue_append.mp h
    have hs := hl.ok useg (List.mem_singleton_self _)
    obtain ⟨hseq, rfl, -⟩ := (dataQueue_singleton hs hs.tcplen).mp hl
    have hle := hs.len_le
    rw [hseq, tTcpSeqLt, UInt32.add_comm, UInt32.add_sub_cancel, UInt16.toNat_toUInt32]
    simp
    omega

/-- What the loop of `t_tcp_output` did: `sent` went from the front of the
unsent queue to the end of the unacked one, as `new`, in the packets `pkts`. -/
structure Transmission (net : Net) (pcb pcb' : TcpPcb) (pkts : List Pbuf) (a c b : UInt32)
    (sent rest new : List TcpSeg) (bs bs' : List UInt8) : Prop where
  conn : pcb.SameConn pcb'
  unsent : pcb'.unsent = rest
  unacked : pcb'.unacked = pcb.unacked ++ new
  sndNxt : pcb'.sndNxt = c
  sent_queue : DataQueue TcpSeg.Sent a new c bs
  rest_queue : DataQueue TcpSeg.Unsent c rest b bs'
  length : new.length = sent.length
  route : pcb'.Unroutable net ↔ pcb.Unroutable net
  no_packets : pcb.Unroutable net → pkts = []
  packets : ¬ pcb.Unroutable net → PacketsFrom a pkts ∧ pkts.flatMap tcpPacketData = bs
  data : ∀ q ∈ pkts, ∃ seg ∈ sent, tcpPacketData q = seg.payload

/-- The loop outside SYN_SENT sends the data segments that fit into the
window, in order. -/
theorem tTcpOutputLoop_data (wnd : UInt32) {pcb : TcpPcb} {unsent : List TcpSeg} {u a b : UInt32}
    {bytes0 bytes : List UInt8} (hst : pcb.state ≠ .synSent)
    (hu : DataQueue TcpSeg.Sent u pcb.unacked a bytes0)
    (hq : DataQueue TcpSeg.Unsent a unsent b bytes) (hnxt : pcb.sndNxt = a)
    (hun : pcb.unsent = unsent) :
    let r := tTcpOutputLoop env wnd pools pcb unsent
    r.1 = pools ∧ ∃ sent rest new c bs bs', unsent = sent ++ rest ∧ bytes = bs ++ bs' ∧
      (∀ seg ∈ sent, seg.fits pcb.lastack wnd) ∧
      Transmission env.net pcb r.2.1 (ipPackets r.2.2) a c b sent rest new bs bs' := by
  induction unsent generalizing pcb a bytes0 bytes with
  | nil =>
      refine ⟨rfl, [], [], [], a, [], bytes, rfl, rfl, by simp, ?_⟩
      exact ⟨.refl _, hun, by simp [tTcpOutputLoop], hnxt, dataQueue_nil _, hq, rfl, Iff.rfl,
        fun _ => rfl, fun _ => ⟨trivial, rfl⟩, by simp [tTcpOutputLoop]⟩
  | cons seg rest ih =>
      by_cases hfit : seg.fits pcb.lastack wnd
      · obtain ⟨hseg, htl, hseq, bs1, hrest, rfl⟩ := dataQueue_cons.mp hq
        obtain ⟨r, hr⟩ : ∃ r, r = tTcpOutputRound env (env.indet rest.length) pools
            { pcb with unsent := rest } seg := ⟨_, rfl⟩
        obtain ⟨seg', hsent, hseq', hlen', hpay', hpools, hconn, hun', hunacked', hnxt', hroute',
          hno, hyes⟩ := tTcpOutputRound_data env pools (env.indet rest.length)
            { pcb with unsent := rest } hseg hst
            (by rw [hseq]; exact hu.seqLt_getLast)
        simp only [← hr] at hpools hconn hun' hunacked' hnxt' hroute' hno hyes
        have hnew : DataQueue TcpSeg.Sent a [seg'] (a + seg.len.toUInt32) seg.payload :=
          (dataQueue_singleton hsent hsent.tcplen).mpr ⟨hseq'.trans hseq, by rw [hlen'], hpay'⟩
        have hu' : DataQueue TcpSeg.Sent u r.2.1.unacked (a + seg.len.toUInt32)
            (bytes0 ++ seg.payload) := by
          rw [hunacked']
          exact dataQueue_append.mpr ⟨a, _, _, hu, hnew, rfl⟩
        obtain ⟨hpools2, sent, rest2, new, c, bs, bs', hsplit, rfl, hfits, ht⟩ :=
          ih (by rw [hconn.state]; exact hst) hu' hrest (by rw [hnxt', hseq]) hun'
        rw [hconn.lastack] at hfits
        have hloop : tTcpOutputLoop env wnd pools pcb (seg :: rest) =
            ((tTcpOutputLoop env wnd pools r.2.1 rest).1,
              (tTcpOutputLoop env wnd pools r.2.1 rest).2.1,
              r.2.2 ++ (tTcpOutputLoop env wnd pools r.2.1 rest).2.2) := by
          rw [tTcpOutputLoop, if_pos hfit]
          simp only [← hr, hpools]
        intro r'
        rw [show r' = _ from hloop]
        refine ⟨hpools2, seg :: sent, rest2, seg' :: new, c, seg.payload ++ bs, bs',
          by rw [hsplit]; rfl, by rw [List.append_assoc], ?_, ?_⟩
        · intro s hs
          rcases List.mem_cons.mp hs with rfl | hs
          · exact hfit
          · exact hfits s hs
        · have hroute : r.2.1.Unroutable env.net ↔ pcb.Unroutable env.net := hroute'
          refine ⟨?_, ht.unsent, ?_, ht.sndNxt, ?_, ht.rest_queue, by simp [ht.length],
            ht.route.trans hroute, fun h => ?_, fun h => ?_, fun q hq => ?_⟩
          · have hconn' : pcb.SameConn r.2.1 :=
              ⟨hconn.remoteIp, hconn.localPort, hconn.remotePort, hconn.state, hconn.rcvNxt,
                hconn.mss, hconn.lastack, hconn.cwnd, hconn.sndWnd, hconn.sndLbb, hconn.sndBuf,
                hconn.sndQueuelen⟩
            exact hconn'.trans ht.conn
          · rw [ht.unacked, hunacked', List.append_assoc]
            rfl
          · exact dataQueue_append (q := [seg']).mpr ⟨_, _, _, hnew, ht.sent_queue, rfl⟩
          · rw [ipPackets_append, hno h, ht.no_packets (hroute.mpr h)]
            rfl
          · obtain ⟨q, hq, hqs, hqd⟩ := hyes h
            obtain ⟨hfrom, hbytes⟩ := ht.packets fun h' => h (hroute.mp h')
            rw [ipPackets_append, hq]
            refine ⟨⟨hqs.trans hseq, ?_⟩, ?_⟩
            · rw [hqd, TcpSeg.length_payload, UInt32.ofNat_uInt16ToNat]
              exact hfrom
            · rw [List.singleton_append, List.flatMap_cons, hqd, hbytes]
          · rw [ipPackets_append] at hq
            rcases List.mem_append.mp hq with hq | hq
            · by_cases h : pcb.Unroutable env.net
              · rw [hno h] at hq
                contradiction
              · obtain ⟨q', hq', -, hqd⟩ := hyes h
                rw [hq', List.mem_singleton] at hq
                exact ⟨seg, List.mem_cons_self, hq ▸ hqd⟩
            · obtain ⟨s, hs, hd⟩ := ht.data q hq
              exact ⟨s, List.mem_cons_of_mem _ hs, hd⟩
      · have hloop : tTcpOutputLoop env wnd pools pcb (seg :: rest) = (pools, pcb, []) := by
          rw [tTcpOutputLoop, if_neg hfit]
        intro r'
        rw [show r' = _ from hloop]
        refine ⟨rfl, [], seg :: rest, [], a, [], bytes, rfl, rfl, by simp, ?_⟩
        exact ⟨.refl _, hun, by simp, hnxt, dataQueue_nil _, hq, rfl, Iff.rfl, fun _ => rfl,
          fun _ => ⟨trivial, rfl⟩, by simp⟩

end

/-! ## `t_tcp_output` -/

/-- The packets with data that a call hands to IP. -/
def dataPackets (evs : List Event) : List Pbuf :=
  (ipPackets evs).filter fun q => !(tcpPacketData q).isEmpty

@[simp] theorem dataPackets_nil : dataPackets [] = [] := rfl

/-- Nothing of what was in the header word before is left in an
acknowledgement. -/
theorem tTcphWord_ackBuild (pcb : TcpPcb) (p : Pbuf) (h : Nat) :
    tTcphWord (tcpAckBuild pcb p h).mem h = 0x5010 := by
  rw [tcpAckBuild, tTcphWord, Pbuf.set16_mem, ByteMem.get16_set16_of_disjoint _ _ (by omega),
    Pbuf.set16_mem, ByteMem.get16_set16_of_disjoint _ _ (by omega), ← tTcphWord,
    tTcphWord_hdrlenSet, tTcphFlags, tTcphWord, Pbuf.set16_mem,
    ByteMem.get16_set16_of_disjoint _ _ (by omega), Pbuf.set16_mem,
    ByteMem.get16_set16_of_disjoint _ _ (by omega), ← tTcphWord, ← tTcphFlags]
  have hh := tTcphWord_flagsSet_hdrlenSet ((((p.set16 h (htons pcb.localPort)).set16 (h + 2)
    (htons pcb.remotePort)).set32 (h + 4) (htonl pcb.sndNxt)).set32 (h + 8) (htonl pcb.rcvNxt))
    h tcpAck 5
  rw [tTcphWord_hdrlenSet] at hh
  rw [hh]
  rfl

theorem tcpAckBuild_spec (pcb : TcpPcb) (p : Pbuf) (h : Nat) :
    (tcpAckBuild pcb p h).payload = p.payload ∧ (tcpAckBuild pcb p h).len = p.len ∧
      (tcpAckBuild pcb p h).ref = p.ref ∧ tTcphHdrlen (tcpAckBuild pcb p h).mem h = 5 := by
  refine ⟨by simp [tcpAckBuild, tTcphFlagsSet, tTcphHdrlenSet],
    by simp [tcpAckBuild, tTcphFlagsSet, tTcphHdrlenSet],
    by simp [tcpAckBuild, tTcphFlagsSet, tTcphHdrlenSet], ?_⟩
  rw [tTcphHdrlen, tTcphWord_ackBuild]
  rfl

section
variable (env : OutEnv) (pools : Pools)

/-- An empty acknowledgement changes only flags, and carries no data. -/
theorem tTcpOutputAck_spec (pcb : TcpPcb) :
    let r := tTcpOutputAck env pools pcb
    (∃ flags, r.2.2.1 = { pcb with flags }) ∧ r.2.1.segPool = pools.segPool ∧
      ∀ q ∈ ipPackets r.2.2.2, tcpPacketData q = [] := by
  unfold tTcpOutputAck
  cases ha : tPbufAlloc pools.pbufPool tPbufIp (UInt16.ofNat tTcpHlen) tPbufFlagPool with
  | mk p pbufPool =>
  cases p with
  | none => exact ⟨⟨pcb.flags, rfl⟩, rfl, by simp⟩
  | some p =>
      obtain ⟨-, -, q', -, rfl⟩ := tPbufAlloc_eq_some ha
      obtain ⟨pcb', hpcb⟩ : ∃ pcb' : TcpPcb,
          pcb' = { pcb with flags := pcb.flags &&& ~~~(tfAckDelay ||| tfAckNow) } := ⟨_, rfl⟩
      obtain ⟨p, hp⟩ : ∃ p : Pbuf, p = { q' with
          ref := 1
          payload := tPbufIp.toNat
          totLen := UInt16.ofNat tTcpHlen
          len := UInt16.ofNat tTcpHlen } := ⟨_, rfl⟩
      obtain ⟨hpay, hlen, -, hhdr⟩ := tcpAckBuild_spec pcb' p tPbufIp.toNat
      have hpay' : p.payload = tPbufIp.toNat := by rw [hp]
      simp only [← hpcb, ← hp]
      refine ⟨⟨_, hpcb⟩, trivial, fun q hq => ?_⟩
      rw [ipPackets, tIpOutput_ipPackets, List.mem_singleton] at hq
      subst hq
      rw [tcpPacketData_eq (n := 0) (by rw [hpay, hpay']; exact hhdr) (by rw [hlen, hp]; rfl)]
      exact ByteMem.slice_zero ..

/-- `t_tcp_output` outside SYN_SENT. -/
theorem tTcpOutput_data {pcb : TcpPcb} {u a b : UInt32} {bytes0 bytes : List UInt8}
    (hst : pcb.state ≠ .synSent) (hu : DataQueue TcpSeg.Sent u pcb.unacked a bytes0)
    (hq : DataQueue TcpSeg.Unsent a pcb.unsent b bytes) (hnxt : pcb.sndNxt = a) :
    let r := tTcpOutput env pools pcb
    ∃ sent rest new c bs bs', pcb.unsent = sent ++ rest ∧ bytes = bs ++ bs' ∧
      (∀ seg ∈ sent, seg.fits pcb.lastack pcb.wnd) ∧
      Transmission env.net pcb r.2.2.1 (dataPackets r.2.2.2) a c b sent rest new bs bs' := by
  obtain hout | hout := tTcpOutput_cases env pools pcb
  · rw [hout]
    obtain ⟨⟨flags, hpcb⟩, -, hempty⟩ := tTcpOutputAck_spec env pools pcb
    have hnone : dataPackets (tTcpOutputAck env pools pcb).2.2.2 = [] := by
      rw [dataPackets, List.filter_eq_nil_iff]
      intro q hq
      simp [hempty q hq]
    refine ⟨[], pcb.unsent, [], a, [], bytes, rfl, rfl, by simp, ?_⟩
    rw [hnone, hpcb]
    exact ⟨⟨rfl, rfl, rfl, rfl, rfl, rfl, rfl, rfl, rfl, rfl, rfl, rfl⟩, rfl, by simp, hnxt,
      dataQueue_nil _, hq, rfl, Iff.rfl, fun _ => rfl, fun _ => ⟨trivial, rfl⟩, by simp⟩
  · rw [hout]
    obtain ⟨-, sent, rest, new, c, bs, bs', hsplit, hbytes, hfits, ht⟩ :=
      tTcpOutputLoop_data env pools pcb.wnd hst hu hq hnxt rfl
    have hall : dataPackets (tTcpOutputLoop env pcb.wnd pools pcb pcb.unsent).2.2 =
        ipPackets (tTcpOutputLoop env pcb.wnd pools pcb pcb.unsent).2.2 := by
      rw [dataPackets, List.filter_eq_self]
      intro q hqm
      obtain ⟨seg, hseg, hd⟩ := ht.data q hqm
      have hpos := (hq.ok seg (by rw [hsplit]; simp [hseg])).len_pos
      have hlen := TcpSeg.length_payload seg
      rw [hd]
      cases hp : seg.payload with
      | nil => rw [hp, List.length_nil] at hlen; omega
      | cons b bs => rfl
    refine ⟨sent, rest, new, c, bs, bs', hsplit, hbytes, hfits, ?_⟩
    rw [hall]
    exact ht

/-- With nothing to acknowledge and nothing that fits, `t_tcp_output` does
nothing. -/
theorem tTcpOutput_idle {pcb : TcpPcb} (hack : pcb.flags &&& tfAckNow = 0)
    (hidle : ∀ seg ∈ pcb.unsent.head?, seg.fits pcb.lastack pcb.wnd = false) :
    tTcpOutput env pools pcb = (0, pools, pcb, []) := by
  unfold tTcpOutput
  simp only [hack, ne_eq, not_true_eq_false, false_and, if_false]
  cases hun : pcb.unsent with
  | nil => rfl
  | cons seg rest =>
      have hfit := hidle seg (by simp [hun])
      rw [tTcpOutputLoop, hfit]
      rfl

/-- When nothing fits, `t_tcp_output` sends an empty acknowledgement at most. -/
theorem tTcpOutput_of_not_fits {pcb : TcpPcb}
    (hidle : ∀ seg ∈ pcb.unsent.head?, seg.fits pcb.lastack pcb.wnd = false) :
    ∃ flags, (tTcpOutput env pools pcb).2.2.1 = { pcb with flags } := by
  by_cases hack : pcb.flags &&& tfAckNow = 0
  · rw [tTcpOutput_idle env pools hack hidle]
    exact ⟨_, rfl⟩
  · have hflag : (match pcb.unsent with
        | [] => true
        | seg :: _ => !seg.fits pcb.lastack pcb.wnd) = true := by
      cases hun : pcb.unsent with
      | nil => rfl
      | cons seg rest => simp [hidle seg (by simp [hun])]
    unfold tTcpOutput
    simp only [hflag, hack, ne_eq, not_false_eq_true, and_self, if_true]
    exact (tTcpOutputAck_spec env pools pcb).1

/-! ## the state of the connection -/

theorem tTcpOutputSegment_state (indet : Option Netif) (seg : TcpSeg) (pcb : TcpPcb) :
    (tTcpOutputSegment env indet seg pcb).2.1.state = pcb.state := by
  have hsend : ∀ netif seg pcb, (tTcpOutputSegmentSend env indet netif seg pcb).2.1.state =
      pcb.state := fun netif seg pcb => by
    obtain ⟨rttest, rtseq, h⟩ := tTcpOutputSegmentSend_eq env indet netif seg pcb
    rw [h]
  obtain ⟨-, h⟩ | ⟨n, -, h⟩ | ⟨-, h⟩ := tTcpOutputSegment_cases env indet seg pcb
  · rw [h]
  · rw [h, hsend]
  · rw [h, hsend]

theorem tTcpOutputRound_state (indet : Option Netif) (pcb : TcpPcb) (seg : TcpSeg) :
    (tTcpOutputRound env indet pools pcb seg).2.1.state = pcb.state := by
  obtain ⟨r, hr⟩ : ∃ r, r = tTcpOutputSegment env indet (seg.outgoing pcb.state) pcb.outgoing :=
    ⟨_, rfl⟩
  obtain ⟨sndMax, hround⟩ := tTcpOutputRound_eq env pools hr
  have hstate : r.2.1.state = pcb.state := by
    obtain ⟨flags, hflags⟩ := pcb.outgoing_eq
    rw [hr, tTcpOutputSegment_state, hflags]
  rw [hround]
  split
  · exact hstate
  · exact hstate

theorem tTcpOutputLoop_state (wnd : UInt32) (pcb : TcpPcb) (unsent : List TcpSeg) :
    (tTcpOutputLoop env wnd pools pcb unsent).2.1.state = pcb.state := by
  induction unsent generalizing pools pcb with
  | nil => rfl
  | cons seg rest ih =>
      rw [tTcpOutputLoop]
      split
      · exact (ih _ _).trans (tTcpOutputRound_state ..)
      · rfl

/-- `t_tcp_output` leaves the state of the connection alone. -/
theorem tTcpOutput_state (pcb : TcpPcb) : (tTcpOutput env pools pcb).2.2.1.state = pcb.state := by
  obtain h | h := tTcpOutput_cases env pools pcb
  · obtain ⟨⟨flags, hpcb⟩, -⟩ := tTcpOutputAck_spec env pools pcb
    rw [h, hpcb]
  · rw [h]
    exact tTcpOutputLoop_state ..

end

end TTcp
