import TTcp.Tcp.Queue

/-!
# TTcp.Tcp.Frame

The frames of `t_tcp_output`, byte for byte: a segment of the unsent queue
with its header completed, or an empty acknowledgement, each behind the
headers of `t_ip_output`.
-/

namespace TTcp

/-! ## one segment -/

/-- A segment with its header completed but for the checksum, as
`t_tcp_output` and `t_tcp_output_segment` do it. -/
def segFill (pcb : TcpPcb) (seg : TcpSeg) : TcpSeg :=
  let seg := if pcb.state ≠ .synSent then seg.setFlag tcpAck else seg
  { seg with
    p := (seg.p.set32 (seg.tcphdr + 8) (htonl pcb.rcvNxt)).set16 (seg.tcphdr + 14)
      (if pcb.rcvWnd < pcb.mss then 0 else htons pcb.rcvWnd) }

/-- A TCP packet that a call for a control block hands to IP, sent from the
address `src`. -/
inductive TcpPacket (pcb : TcpPcb) (src : UInt32) : Pbuf → Prop
  | seg (seg : TcpSeg) (hseg : seg ∈ pcb.unsent) :
      TcpPacket pcb src (segPacket (segFill pcb seg) { pcb with localIp := src })
  | ack (p : Pbuf) (payload : p.payload = 34) (totLen : p.totLen = 20) (len : p.len = 20)
      (href : p.ref = 1) (hsrc : src = pcb.localIp) : TcpPacket pcb src (tcpAckBuild pcb p 34)

/-- Every frame among these events is a TCP packet of the control block behind
its IP and Ethernet headers. -/
def TcpFrames (pcb : TcpPcb) (evs : List Event) : Prop :=
  ∀ e ∈ frames evs, ∃ src q, TcpPacket pcb src q ∧ q ∈ ipPackets evs ∧
    e.2 = (ipFrame q e.1 src (.val pcb.remoteIp) pcb.ttl pcb.tos tIpProtoTcp).bytes

theorem TcpFrames.nil (pcb : TcpPcb) : TcpFrames pcb [] := fun _ h => absurd h List.not_mem_nil

theorem TcpFrames.append {pcb : TcpPcb} {evs evs' : List Event} (h : TcpFrames pcb evs)
    (h' : TcpFrames pcb evs') : TcpFrames pcb (evs ++ evs') := fun e he => by
  rw [frames_append] at he
  rw [ipPackets_append]
  rcases List.mem_append.mp he with he | he
  · obtain ⟨src, q, hq, hmem, hbytes⟩ := h e he
    exact ⟨src, q, hq, List.mem_append_left _ hmem, hbytes⟩
  · obtain ⟨src, q, hq, hmem, hbytes⟩ := h' e he
    exact ⟨src, q, hq, List.mem_append_right _ hmem, hbytes⟩

/-- A packet only depends on what `t_tcp_output` leaves alone. -/
theorem TcpPacket.of_outputs {pcb pcb' : TcpPcb} (h : pcb.Outputs pcb')
    (hun : pcb'.unsent ⊆ pcb.unsent) {src : UInt32} {seg : TcpSeg} (hseg : seg ∈ pcb'.unsent) :
    TcpPacket pcb src (segPacket (segFill pcb' seg) { pcb' with localIp := src }) := by
  have hfill : segFill pcb' seg = segFill pcb seg := by
    rw [segFill, segFill, h.conn.state, h.conn.rcvNxt, h.conn.mss, h.rcvWnd]
  have hpacket : segPacket (segFill pcb' seg) { pcb' with localIp := src } =
      segPacket (segFill pcb seg) { pcb with localIp := src } := by
    rw [hfill, segPacket, segPacket]
    simp only [h.conn.remoteIp]
  rw [hpacket]
  exact .seg seg (hun hseg)

section
variable (env : OutEnv) (pools : Pools)

/-- What a call of `t_ip_output` with headroom hands on. -/
theorem tIpOutput_frame {indet : Option Netif} {arg : NetifArg} {p : Pbuf} (hp : p.payload = 34)
    {src : UInt32} {dst : UInt32} {ttl tos proto : UInt8} {e : Netif × List UInt8}
    (he : e ∈ frames (tIpOutput env.net indet arg p (some src) (.val dst) ttl tos proto).2.2) :
    e.2 = (ipFrame p e.1 src (.val dst) ttl tos proto).bytes := by
  rw [tIpOutput_frames _ _ _ _ _ _ _ _ _ (by omega) (by omega)] at he
  split at he
  · rw [List.mem_singleton.mp he]
  · contradiction

theorem tTcpOutputSegmentSend_frames (indet : Option Netif) (arg : NetifArg) (seg : TcpSeg)
    (pcb : TcpPcb) (htcphdr : seg.tcphdr = 34) (e : Netif × List UInt8)
    (he : e ∈ frames (tTcpOutputSegmentSend env indet arg seg pcb).2.2) :
    segPacket seg pcb ∈ ipPackets (tTcpOutputSegmentSend env indet arg seg pcb).2.2 ∧
      e.2 = (ipFrame (segPacket seg pcb) e.1 pcb.localIp (.val pcb.remoteIp) pcb.ttl pcb.tos
        tIpProtoTcp).bytes := by
  obtain ⟨rttest, rtseq, hsend⟩ := tTcpOutputSegmentSend_eq env indet arg seg pcb
  rw [hsend] at he ⊢
  exact ⟨by rw [ipPackets, tIpOutput_ipPackets]; exact List.mem_singleton_self _,
    tIpOutput_frame env htcphdr he⟩

/-- One round sends the segment with its header completed. -/
theorem tTcpOutputRound_frames (indet : Option Netif) (pcb : TcpPcb) {seg : TcpSeg}
    (hseg : seg.tcphdr = 34) (e : Netif × List UInt8)
    (he : e ∈ frames (tTcpOutputRound env indet pools pcb seg).2.2) :
    ∃ src, segPacket (segFill pcb seg) { pcb with localIp := src } ∈
        ipPackets (tTcpOutputRound env indet pools pcb seg).2.2 ∧
      e.2 = (ipFrame (segPacket (segFill pcb seg) { pcb with localIp := src }) e.1 src
        (.val pcb.remoteIp) pcb.ttl pcb.tos tIpProtoTcp).bytes := by
  obtain ⟨flags, hflags⟩ := pcb.outgoing_eq
  obtain ⟨r, hr⟩ : ∃ r, r = tTcpOutputSegment env indet (seg.outgoing pcb.state) pcb.outgoing :=
    ⟨_, rfl⟩
  obtain ⟨sndMax, hround⟩ := tTcpOutputRound_eq env pools hr
  have hevs : (tTcpOutputRound env indet pools pcb seg).2.2 = r.2.2 := by
    rw [hround]
    split <;> rfl
  obtain ⟨seg2, hseg2⟩ : ∃ seg2, seg2 = segFill pcb seg := ⟨_, rfl⟩
  have hfill : (seg.outgoing pcb.state).completed pcb.outgoing = seg2 := by
    rw [hseg2, hflags]
    rfl
  have htcphdr : seg2.tcphdr = 34 := by
    rw [hseg2]
    exact (seg.outgoing_tcphdr _).trans hseg
  have hsend : ∀ (arg : NetifArg) (pcb2 : TcpPcb), pcb2.remoteIp = pcb.remoteIp ∧
      pcb2.ttl = pcb.ttl ∧ pcb2.tos = pcb.tos →
      ∀ e ∈ frames (tTcpOutputSegmentSend env indet arg seg2 pcb2).2.2,
        ∃ src, segPacket seg2 { pcb with localIp := src } ∈
            ipPackets (tTcpOutputSegmentSend env indet arg seg2 pcb2).2.2 ∧
          e.2 = (ipFrame (segPacket seg2 { pcb with localIp := src }) e.1 src
            (.val pcb.remoteIp) pcb.ttl pcb.tos tIpProtoTcp).bytes := fun arg pcb2 h2 e he => by
    obtain ⟨hmem, hbytes⟩ := tTcpOutputSegmentSend_frames env indet arg seg2 pcb2 htcphdr e he
    have hpacket : segPacket seg2 pcb2 = segPacket seg2 { pcb with localIp := pcb2.localIp } := by
      rw [segPacket, segPacket, h2.1]
    rw [hpacket] at hmem hbytes
    rw [h2.1, h2.2.1, h2.2.2] at hbytes
    exact ⟨pcb2.localIp, hmem, hbytes⟩
  rw [hevs, hr] at he ⊢
  rw [← hseg2]
  obtain ⟨-, h⟩ | ⟨n, -, h⟩ | ⟨-, h⟩ :=
    tTcpOutputSegment_cases env indet (seg.outgoing pcb.state) pcb.outgoing
  · rw [h] at he
    cases he
  · rw [h, hfill] at he ⊢
    exact hsend _ _ (by rw [hflags]; exact ⟨rfl, rfl, rfl⟩) e he
  · rw [h, hfill] at he ⊢
    exact hsend _ _ (by rw [hflags]; exact ⟨rfl, rfl, rfl⟩) e he

theorem tTcpOutputLoop_frames (wnd : UInt32) {pcb pcb0 : TcpPcb} {unsent : List TcpSeg}
    (hun : pcb.unsent = unsent) (h : pcb0.Outputs pcb) (hsub : unsent ⊆ pcb0.unsent)
    (hq : ∀ seg ∈ unsent, seg.tcphdr = 34) :
    TcpFrames pcb0 (tTcpOutputLoop env wnd pools pcb unsent).2.2 := by
  induction unsent generalizing pools pcb with
  | nil => exact .nil _
  | cons seg rest ih =>
      rw [tTcpOutputLoop]
      split
      · have hset : pcb0.Outputs { pcb with unsent := rest } :=
          ⟨⟨h.conn.remoteIp, h.conn.localPort, h.conn.remotePort, h.conn.state, h.conn.rcvNxt,
            h.conn.mss, h.conn.lastack, h.conn.cwnd, h.conn.sndWnd, h.conn.sndLbb, h.conn.sndBuf,
            h.conn.sndQueuelen⟩, h.rcvWnd, h.ttl, h.tos, h.localIp⟩
        obtain ⟨hout, hrest⟩ := tTcpOutputRound_outputs env pools (env.indet rest.length)
          { pcb with unsent := rest } seg
        refine TcpFrames.append (fun e he => ?_) (ih _ hrest (hset.trans hout)
          (fun s hs => hsub (List.mem_cons_of_mem _ hs)) fun s hs =>
            hq s (List.mem_cons_of_mem _ hs))
        obtain ⟨src, hmem, hbytes⟩ := tTcpOutputRound_frames env pools _ _
          (hq seg List.mem_cons_self) e he
        have hp : TcpPacket pcb0 src
            (segPacket (segFill pcb seg) { pcb with localIp := src }) :=
          .of_outputs h (by rw [hun]; exact hsub) (by rw [hun]; exact List.mem_cons_self)
        refine ⟨src, _, hp, hmem, ?_⟩
        rw [hbytes]
        simp only [h.conn.remoteIp, h.ttl, h.tos]
        rfl
      · exact .nil _

theorem tTcpOutputAck_frames (pcb : TcpPcb) :
    TcpFrames pcb (tTcpOutputAck env pools pcb).2.2.2 := by
  intro e he
  unfold tTcpOutputAck at he ⊢
  cases ha : tPbufAlloc pools.pbufPool tPbufIp (UInt16.ofNat tTcpHlen) tPbufFlagPool with
  | mk p pbufPool =>
  rw [ha] at he
  cases p with
  | none => contradiction
  | some p =>
      obtain ⟨-, -, q', -, hp⟩ := tPbufAlloc_eq_some ha
      have hpay : p.payload = 34 := by rw [hp]; rfl
      obtain ⟨hbpay, -⟩ := tcpAckBuild_spec pcb p 34
      simp only [hpay] at he ⊢
      refine ⟨pcb.localIp, tcpAckBuild pcb p 34,
        .ack p hpay (by rw [hp]; rfl) (by rw [hp]; rfl) (by rw [hp]) rfl, ?_, ?_⟩
      · rw [ipPackets, tIpOutput_ipPackets]
        exact List.mem_singleton_self _
      · exact tIpOutput_frame env (hbpay.trans hpay) he

/-- The frames of `t_tcp_output`. -/
theorem tTcpOutput_tcpFrames {pcb : TcpPcb} (h : pcb.Queues) :
    TcpFrames pcb (tTcpOutput env pools pcb).2.2.2 := by
  rcases tTcpOutput_cases env pools pcb with heq | heq
  · rw [heq]
    exact tTcpOutputAck_frames env pools pcb
  · rw [heq]
    exact tTcpOutputLoop_frames env pools pcb.wnd rfl (.refl pcb) (List.Subset.refl _)
      fun seg hs => (h.unsent seg hs).tcphdr

end

/-! ## what a packet says -/

/-- The packet of a segment says what the segment does; acknowledgement
number, window and checksum apart. -/
theorem segPacket_segFill (pcb pcb' : TcpPcb) {seg : TcpSeg} (h : seg.Queued) :
    let q := segPacket (segFill pcb seg) pcb'
    q.payload = 34 ∧ q.len = seg.p.len ∧ q.totLen = seg.p.len ∧
      tTcphWord q.mem 34 = (if pcb.state ≠ .synSent then seg.word ||| tcpAck else seg.word) ∧
      tcphSeqno q.mem 34 = seg.seqno ∧ ∀ i, 54 ≤ i → q.mem i = seg.p.mem i := by
  obtain ⟨seg1, hseg1⟩ : ∃ seg1 : TcpSeg,
      seg1 = if pcb.state ≠ .synSent then seg.setFlag tcpAck else seg := ⟨_, rfl⟩
  have hw : seg.p.WritesOnly seg1.p 46 48 := by
    rw [hseg1]
    split
    · have hset := seg.setFlag_writesOnly tcpAck
      rwa [h.tcphdr] at hset
    · exact .refl ..
  have hword : tTcphWord seg1.p.mem 34 =
      if pcb.state ≠ .synSent then seg.word ||| tcpAck else seg.word := by
    rw [hseg1]
    split
    · rw [← seg.setFlag_word, TcpSeg.word, TcpSeg.setFlag_tcphdr, h.tcphdr]
    · rw [TcpSeg.word, h.tcphdr]
  have htcphdr : seg1.tcphdr = 34 := by
    rw [hseg1]
    split <;> exact h.tcphdr
  obtain ⟨seg2, hseg2⟩ : ∃ seg2, seg2 = segFill pcb seg := ⟨_, rfl⟩
  have hfill : seg2 = { seg1 with
      p := (seg1.p.set32 42 (htonl pcb.rcvNxt)).set16 48
        (if pcb.rcvWnd < pcb.mss then 0 else htons pcb.rcvWnd) } := by
    rw [hseg2, segFill, ← hseg1, htcphdr]
  have htcphdr2 : seg2.tcphdr = 34 := by rw [hfill]; exact htcphdr
  have hpay : seg2.p.payload = 34 := by
    rw [hfill]
    exact hw.payload.trans h.payload
  obtain ⟨hsame, hqpay, hqlen, -⟩ := segPacket_spec seg2 pcb' (hpay.trans htcphdr2.symm)
  have htot : (segPacket seg2 pcb').totLen = seg2.p.totLen := by
    have hzero : UInt16.ofInt ((seg2.tcphdr : Int) - seg2.p.payload) = 0 := by
      rw [hpay, htcphdr2]
      rfl
    simp [segPacket, hzero]
  rw [htcphdr2] at hsame
  -- the header of the packet differs from that of `seg1` in these fields only
  have hmem : ∀ i, 34 ≤ i → (i < 42 ∨ (46 ≤ i ∧ i < 48) ∨ 52 ≤ i) →
      (segPacket seg2 pcb').mem i = seg1.p.mem i := fun i hi ho => by
    rw [hsame i hi ho, hfill]
    simp only [Pbuf.set16_mem, Pbuf.set32_mem]
    rw [ByteMem.set16_apply_of_disjoint _ _ (by omega),
      ByteMem.set32_apply_of_disjoint _ _ (by omega)]
  have hlen2 : seg2.p.len = seg.p.len ∧ seg2.p.totLen = seg.p.totLen := by
    rw [hfill]
    exact ⟨hw.len, hw.totLen⟩
  simp only [← hseg2]
  refine ⟨hqpay.trans htcphdr2, hqlen.trans hlen2.1,
    (htot.trans hlen2.2).trans h.totLen, ?_, ?_, fun i hi => ?_⟩
  · rw [← hword, tTcphWord, tTcphWord,
      ByteMem.get16_congr fun i hi => hmem (46 + i) (by omega) (by omega)]
  · rw [TcpSeg.seqno, h.tcphdr, tcphSeqno, tcphSeqno,
      ByteMem.get32_congr fun i hi => hmem (38 + i) (by omega) (by omega),
      hw.get32 (by omega)]
  · rw [hmem i (by omega) (by omega), hw.mem i (by omega)]

theorem tcpAckBuild_totLen (pcb : TcpPcb) (p : Pbuf) (h : Nat) :
    (tcpAckBuild pcb p h).totLen = p.totLen := by
  simp [tcpAckBuild, tTcphFlagsSet, tTcphHdrlenSet]

/-! ## the calls of `t_tcp_output` -/

/-- `t_tcp_connect` up to its `t_tcp_enqueue`: what that returns, and the host
it is called on. -/
def tTcpConnectEnqueue (h : TcpHost) (i : TcpPcbId) (ipaddr : UInt32) (port : UInt16)
    (connected : Option Nat) : (ErrT × Pools × TcpPcb) × TcpHost :=
  let (localPort, h) := if (h.pcb i).localPort = 0 then tTcpNewPort h else ((h.pcb i).localPort, h)
  let (iss, h) := tTcpNextIss h
  let pcb := tcpConnectPcb (h.pcb i) ipaddr port localPort iss connected
  let h := tTcpReg h i
  (tTcpEnqueue h.pools pcb none 0 tcpSyn.toUInt8 false (some (mssOption pcb.mss)) 4, h)

theorem tTcpConnect_eq (h : TcpHost) (indet : Nat → Option Netif) (i : TcpPcbId)
    (ipaddr : UInt32) (port : UInt16) (connected : Option Nat) :
    tTcpConnect h indet i ipaddr port connected =
      let ((ret, pools, pcb), h) := tTcpConnectEnqueue h i ipaddr port connected
      if ret = errOk then
        let (_, pools, pcb, evs) := tTcpOutput (h.outEnv indet) pools pcb
        (⟨.returns ret, some i, evs⟩, { h.setPcb i pcb with pools })
      else (⟨.returns ret, some i, []⟩, { h.setPcb i pcb with pools }) := by
  unfold tTcpConnect tTcpConnectEnqueue
  cases hport : if (h.pcb i).localPort = 0 then tTcpNewPort h else ((h.pcb i).localPort, h) with
  | mk localPort h' => simp only

/-- The control block that the SYN is queued on, and the host around it. -/
theorem tTcpConnectEnqueue_eq (h : TcpHost) (i : TcpPcbId) (ipaddr : UInt32) (port : UInt16)
    (connected : Option Nat) : ∃ localPort iss h',
    tTcpConnectEnqueue h i ipaddr port connected =
      (tTcpEnqueue h.pools (tcpConnectPcb (h.pcb i) ipaddr port localPort iss connected) none 0
        tcpSyn.toUInt8 false (some (mssOption tTcpMss)) 4, h') ∧
      h'.pools = h.pools ∧ h'.pcb = h.pcb ∧ h'.tcpPcbPool = h.tcpPcbPool := by
  unfold tTcpConnectEnqueue
  by_cases hport : (h.pcb i).localPort = 0
  · rw [if_pos hport]
    exact ⟨_, _, _, rfl, rfl, rfl, rfl⟩
  · rw [if_neg hport]
    exact ⟨_, _, _, rfl, rfl, rfl, rfl⟩

theorem TcpPcb.Queues.connectEnqueue {h : TcpHost} {i : TcpPcbId} (hq : (h.pcb i).Queues)
    (ipaddr : UInt32) (port : UInt16) (connected : Option Nat) :
    (tTcpConnectEnqueue h i ipaddr port connected).1.2.2.Queues := by
  obtain ⟨localPort, iss, h', heq, -⟩ := tTcpConnectEnqueue_eq h i ipaddr port connected
  rw [heq]
  exact (hq.connectPcb ipaddr port localPort iss connected).enqueueSyn _ _

/-- The event is neither a packet for IP nor a frame. -/
def Event.Inner (e : Event) : Prop := e.ipPacket? = none ∧ e.frame? = none

/-- All that `t_tcp_process` itself does to the world is to call back, or to use the
head of an empty queue. -/
theorem tTcpProcess_evs (env : OutEnv) (cbRet : ErrT) (pools : Pools) (pcb : TcpPcb)
    (s : Incoming) : ∀ e ∈ (tTcpProcess env cbRet pools pcb s).2.2.2.2,
      e = .nullUnacked ∨ ∃ fn err, e = .tcpConnected fn err := by
  have hnil : ∀ e ∈ ([] : List Event), e = .nullUnacked ∨ ∃ fn err, e = .tcpConnected fn err :=
    fun e he => absurd he List.not_mem_nil
  unfold tTcpProcess
  simp only
  split
  · split
    · exact fun e he => Or.inl (List.mem_singleton.mp he)
    · split
      · split
        · exact hnil
        · cases pcb.connected with
          | none => exact hnil
          | some fn => exact fun e he => Or.inr ⟨fn, errOk, List.mem_singleton.mp he⟩
      · exact hnil
  · exact hnil

/-- `t_tcp_process` itself sends nothing. -/
theorem tTcpProcess_inner (env : OutEnv) (cbRet : ErrT) (pools : Pools) (pcb : TcpPcb)
    (s : Incoming) : ∀ e ∈ (tTcpProcess env cbRet pools pcb s).2.2.2.2, e.Inner := by
  intro e he
  obtain rfl | ⟨fn, err, rfl⟩ := tTcpProcess_evs env cbRet pools pcb s e he
  · exact ⟨rfl, rfl⟩
  · exact ⟨rfl, rfl⟩

namespace TcpHost

variable (h : TcpHost)

/-- The call of `t_tcp_output` in `t_tcp_connect`. -/
def connectOutput (indet : Nat → Option Netif) (i : TcpPcbId) (ipaddr : UInt32) (port : UInt16)
    (connected : Option Nat) : Option (OutEnv × Pools × TcpPcb) :=
  let ((ret, pools, pcb), h) := tTcpConnectEnqueue h i ipaddr port connected
  if ret = errOk then some (h.outEnv indet, pools, pcb) else none

/-- The call of `t_tcp_output` after `t_tcp_process`. -/
def processOutput (indet : Nat → Option Netif) (cbRet : ErrT) (i : TcpPcbId) (s : Incoming) :
    Option (OutEnv × Pools × TcpPcb) :=
  match tTcpProcess (h.outEnv indet) cbRet h.pools (h.pcb i) s with
  | (.returns err, pools, pcb, _, _) =>
      if err = errOk then some (h.outEnv indet, pools, pcb) else none
  | _ => none

/-- The call of `t_tcp_output` in `t_tcp_input`. -/
def inputOutput (indet : Nat → Option Netif) (cbRet : ErrT) :
    Option (Incoming × TcpKey) → Option (OutEnv × Pools × TcpPcb)
  | none => none
  | some (s, k) => match demux h k with
    | some (some (i, prev)) => (moveToFront h i prev).processOutput indet cbRet i s
    | _ => none

/-- The call of `t_tcp_output` inside a call into the TCP layer: its
environment, its pools and its control block. -/
def outputCall : TcpOp → Option (OutEnv × Pools × TcpPcb)
  | .connect i ipaddr port connected indet => h.connectOutput indet i ipaddr port connected
  | .output i indet => some (h.outEnv indet, h.pools, h.pcb i)
  | .input p cbRet indet => h.inputOutput indet cbRet (tTcpInputHeader p).2
  | _ => none

/-- The control block of the call is in order. -/
theorem AllQueues.outputCall {h : TcpHost} (hq : h.AllQueues) (hlink : h.Linked) {op : TcpOp}
    (hop : h.Legal op) {env : OutEnv} {pools : Pools} {pcb : TcpPcb}
    (hc : h.outputCall op = some (env, pools, pcb)) : pcb.Queues := by
  cases op with
  | connect i ipaddr port connected indet =>
      have henq := (hq i hop).connectEnqueue ipaddr port connected
      replace hc : h.connectOutput indet i ipaddr port connected = some (env, pools, pcb) := hc
      unfold connectOutput at hc
      generalize tTcpConnectEnqueue h i ipaddr port connected = e at hc henq
      obtain ⟨⟨ret, pools1, pcb1⟩, h1⟩ := e
      simp only at hc
      split at hc
      · obtain ⟨-, -, rfl⟩ : _ ∧ _ ∧ pcb1 = pcb := by simpa using hc
        exact henq
      · cases hc
  | output i indet =>
      obtain rfl : h.pcb i = pcb := congrArg (fun r => r.2.2) (Option.some.inj hc)
      exact hq i hop
  | input p cbRet indet =>
      replace hc : h.inputOutput indet cbRet (tTcpInputHeader p).2 = some (env, pools, pcb) := hc
      generalize (tTcpInputHeader p).2 = e at hc
      cases e with
      | none => cases hc
      | some r =>
      obtain ⟨s, k⟩ := r
      unfold inputOutput at hc
      simp only at hc
      cases hd : demux h k with
      | none => rw [hd] at hc; cases hc
      | some r =>
      cases r with
      | none => rw [hd] at hc; cases hc
      | some r =>
      obtain ⟨i, prev⟩ := r
      have hproc := (hq i (hlink.demux hd).1).process ((moveToFront h i prev).outEnv indet) cbRet
        (moveToFront h i prev).pools s
      rw [hd] at hc
      simp only [processOutput, moveToFront_pcb] at hc
      generalize tTcpProcess ((moveToFront h i prev).outEnv indet) cbRet
        (moveToFront h i prev).pools (h.pcb i) s = e at hc hproc
      obtain ⟨fate, pools1, pcb1, p1, evs1⟩ := e
      cases fate with
      | returns err =>
          simp only at hc
          split at hc
          · obtain ⟨-, -, rfl⟩ : _ ∧ _ ∧ pcb1 = pcb := by simpa using hc
            exact hproc
          · cases hc
      | hangs => cases hc
      | crashes => cases hc
  | new => cases hc
  | write i arg len copy => cases hc
  | other pools tcpTicks => cases hc

/-- What `t_tcp_output` does in a call, if there is such a call. -/
def outputEvents : Option (OutEnv × Pools × TcpPcb) → List Event
  | some (env, pools, pcb) => (tTcpOutput env pools pcb).2.2.2
  | none => []

theorem receive_events (indet : Nat → Option Netif) (cbRet : ErrT) (i : TcpPcbId) (s : Incoming) :
    ∃ evs, (tTcpReceive (h.outEnv indet) cbRet h.pools (h.pcb i) s).2.2.2.2 =
      evs ++ outputEvents (h.processOutput indet cbRet i s) ∧ ∀ e ∈ evs, e.Inner := by
  have hproc := tTcpProcess_inner (h.outEnv indet) cbRet h.pools (h.pcb i) s
  unfold tTcpReceive processOutput
  generalize tTcpProcess (h.outEnv indet) cbRet h.pools (h.pcb i) s = e at hproc
  obtain ⟨fate, pools1, pcb1, p2, evs1⟩ := e
  refine ⟨evs1, ?_, hproc⟩
  cases fate with
  | returns err =>
      by_cases herr : err = errOk
      · simp only [if_pos herr, outputEvents]
      · simp only [if_neg herr, outputEvents, List.append_nil]
  | hangs => simp only [outputEvents, List.append_nil]
  | crashes => simp only [outputEvents, List.append_nil]

/-- All packets and frames of a call come from its `t_tcp_output`. -/
theorem exec_events (op : TcpOp) : ∃ evs, (h.exec op).1.evs =
    evs ++ outputEvents (h.outputCall op) ∧ ∀ e ∈ evs, e.Inner := by
  have hnil : ∀ e ∈ ([] : List Event), e.Inner := fun e he => absurd he List.not_mem_nil
  cases op with
  | new => exact ⟨[], rfl, hnil⟩
  | connect i ipaddr port connected indet =>
      have hexec : h.exec (.connect i ipaddr port connected indet) =
          tTcpConnect h indet i ipaddr port connected := rfl
      have hcall : h.outputCall (.connect i ipaddr port connected indet) =
          h.connectOutput indet i ipaddr port connected := rfl
      rw [hexec, hcall, tTcpConnect_eq]
      unfold connectOutput
      generalize tTcpConnectEnqueue h i ipaddr port connected = e
      obtain ⟨⟨ret, pools1, pcb1⟩, h1⟩ := e
      refine ⟨[], ?_, hnil⟩
      simp only
      split <;> rfl
  | write i arg len copy => exact ⟨[], rfl, hnil⟩
  | output i indet => exact ⟨[], rfl, hnil⟩
  | input p cbRet indet =>
      have hexec : h.exec (.input p cbRet indet) =
          ((tTcpInput h indet cbRet p).1, (tTcpInput h indet cbRet p).2.2) := by simp only [exec]
      have hcall : h.outputCall (.input p cbRet indet) =
          h.inputOutput indet cbRet (tTcpInputHeader p).2 := rfl
      simp only [hexec, hcall]
      unfold tTcpInput
      generalize tTcpInputHeader p = e
      obtain ⟨p1, e⟩ := e
      cases e with
      | none => exact ⟨[], rfl, hnil⟩
      | some r =>
      obtain ⟨s, k⟩ := r
      unfold inputOutput
      simp only
      cases demux h k with
      | none => exact ⟨[], rfl, hnil⟩
      | some r =>
      cases r with
      | none => exact ⟨[], rfl, hnil⟩
      | some r =>
      obtain ⟨i, prev⟩ := r
      exact (moveToFront h i prev).receive_events indet cbRet i s
  | other pools tcpTicks => exact ⟨[], rfl, hnil⟩

/-- Everything a call hands to an interface comes from its `t_tcp_output`. -/
theorem frames_exec (op : TcpOp) : frames (h.exec op).1.evs = match h.outputCall op with
    | some (env, pools, pcb) => frames (tTcpOutput env pools pcb).2.2.2
    | none => [] := by
  obtain ⟨evs, hevs, hinner⟩ := h.exec_events op
  have hnone : frames evs = [] := List.filterMap_eq_nil_iff.mpr fun e he => (hinner e he).2
  rw [hevs, frames_append, hnone, List.nil_append]
  cases h.outputCall op <;> rfl

end TcpHost

end TTcp
