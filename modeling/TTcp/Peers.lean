import TTcp.Calls
import TTcp.Lib.Network
import TTcp.Tcp.Agreement
import TTcp.Tcp.Batch
import TTcp.Tcp.HalfOpen
import TTcp.Udp.RoundTrip

/-!
# TTcp.Peers

Hosts that all run this stack, with a network between them that may lose, repeat and reorder
frames.

A control block leaves SYN_SENT on a SYN|ACK only, and a segment gets both flags only after its
control block has left SYN_SENT: `t_tcp_output` sets ACK in every other state, and nothing answers
a SYN.  So among such hosts no connection is ever established (`peers_never_connect`).
`tcp_keepalive`, which sends whatever flags are in its buffer, is not among the calls.
-/

namespace TTcp

/-! ## what is under way -/

/-- Both flags of a SYN|ACK. -/
def Incoming.SynAck (s : Incoming) : Prop := s.flags &&& tcpAck ≠ 0 ∧ s.flags &&& tcpSyn ≠ 0

/-- An ARP packet, a datagram, of which `U` holds, or a segment that is no SYN|ACK, in whatever
buffer the frame is received. -/
inductive PeerKind (U : Prop) (frame : List UInt8) : Prop
  | arp (length : 14 ≤ frame.length)
      (type : htons ((frameMem frame).get16 12) = tArpFrameType) : PeerKind U frame
  | udp (sent : U) (h : ∀ p, Holds p frame → (rawDemux p).1 = .udp) : PeerKind U frame
  | tcp (h : ∀ p, Holds p frame → ∃ s k, Decodes p s k ∧ ¬ s.SynAck) : PeerKind U frame

/-- A frame that one of the hosts has sent. -/
structure PeerFrame (U : Prop) (frame : List UInt8) : Prop where
  lt : frame.length < 65536
  kind : PeerKind U frame

theorem PeerKind.peerFrame {U : Prop} {p : Pbuf} (h : PeerKind U p.bytes) : PeerFrame U p.bytes :=
  ⟨by rw [p.length_bytes]; exact p.totLen.toNat_lt, h⟩

theorem PeerFrame.imp {U V : Prop} (hUV : U → V) {frame : List UInt8} (h : PeerFrame U frame) :
    PeerFrame V frame where
  lt := h.lt
  kind := by
    cases h.kind with
    | arp length type => exact .arp length type
    | udp sent hdemux => exact .udp (hUV sent) hdemux
    | tcp hdec => exact .tcp hdec

/-- A control block that was never answered. -/
def TcpPcb.Unanswered (pcb : TcpPcb) : Prop :=
  pcb.state = .synSent ∨ pcb.state = .closed ∧ pcb.unsent = []

/-- No control block in use was ever answered. -/
structure TcpHost.Unanswered (h : TcpHost) : Prop where
  linked : h.Linked
  queues : h.AllQueues
  pcbs : ∀ i, i ∉ h.tcpPcbPool → (h.pcb i).Unanswered

theorem TcpHost.Boot.unanswered {h : TcpHost} (hb : h.Boot) : h.Unanswered where
  linked := hb.linked
  queues := hb.allQueues
  pcbs i hi := absurd (by rw [hb.pool]; exact List.mem_finRange i) hi

/-! ## one control block -/

section
variable {pcb : TcpPcb}

/-- What it sends is no SYN|ACK. -/
theorem TcpPcb.Unanswered.output_frames (h : pcb.Unanswered) (hq : pcb.Queues) (env : OutEnv)
    (pools : Pools) : ∀ e ∈ frames (tTcpOutput env pools pcb).2.2.2, PeerFrame False e.2 := by
  intro e he
  obtain ⟨src, q, hpacket, -, hbytes⟩ := tTcpOutput_tcpFrames env pools hq e he
  rw [hbytes]
  refine PeerKind.peerFrame (.tcp fun p hp => ?_)
  obtain ⟨s, k, hdec, hag, -⟩ := hpacket.decodes hq hp
  refine ⟨s, k, hdec, ?_⟩
  rw [Incoming.SynAck, hag.flags]
  cases hpacket with
  | seg seg hseg =>
      obtain hst | ⟨-, hnil⟩ := h
      · -- the flags are those the segment was queued with
        have hqueued := hq.unsent seg hseg
        obtain ⟨hpay, -, -, hword, -⟩ :=
          segPacket_segFill pcb { pcb with localIp := src } hqueued
        rw [if_neg (not_not.mpr hst)] at hword
        rw [hpay, tTcphFlags, hword]
        rcases hqueued.kind with hu | hs
        · rcases hu.word with hw | hw <;> rw [hw] <;> decide
        · rw [hs.word]
          decide
      · rw [hnil] at hseg
        exact absurd hseg List.not_mem_nil
  | ack ack payload totLen len href hsrc =>
      obtain ⟨hshape, -, hflags⟩ := ackShape pcb payload totLen len
      rw [hshape.payload, hflags]
      decide

theorem TcpPcb.Unanswered.output (h : pcb.Unanswered) (env : OutEnv) (pools : Pools) :
    (tTcpOutput env pools pcb).2.2.1.Unanswered := by
  rw [TcpPcb.Unanswered, tTcpOutput_state]
  refine h.imp_right ?_
  rintro ⟨hst, hnil⟩
  refine ⟨hst, ?_⟩
  have hsub := (tTcpOutput_outputs env pools pcb).2
  rw [hnil] at hsub
  exact List.subset_nil.mp hsub

theorem TcpPcb.Unanswered.write (h : pcb.Unanswered) (pools : Pools) (arg : ByteMem)
    (len : UInt16) (copy : Bool) : (tTcpWrite pools pcb arg len copy).2.2.Unanswered := by
  obtain hst | ⟨hst, hnil⟩ := h
  · exact .inl ((tTcpWrite_state ..).trans hst)
  · rw [tTcpWrite, if_neg (by simp [hst])]
    exact .inr ⟨hst, hnil⟩

/-- Anything but a SYN|ACK is ignored. -/
theorem tTcpProcess_of_not_synAck (env : OutEnv) (cbRet : ErrT) (pools : Pools) (pcb : TcpPcb)
    {s : Incoming} (hs : ¬ s.SynAck) : ∃ fate pools' p evs,
      tTcpProcess env cbRet pools pcb s = (fate, pools', pcb.touch env.tcpTicks, p, evs) := by
  obtain ⟨-, ⟨hpcb, -⟩ | ⟨-, hack, hsyn, -⟩⟩ := tTcpProcess_cases env cbRet pools pcb s
  · exact ⟨_, _, _, _, by rw [← hpcb]⟩
  · exact absurd ⟨hack, hsyn⟩ hs

end

/-! ## one host -/

/-- A connect asks, whether or not there is room for the SYN. -/
theorem tTcpConnectEnqueue_state (h : TcpHost) (i : TcpPcbId) (ipaddr : UInt32) (port : UInt16)
    (connected : Option Nat) :
    (tTcpConnectEnqueue h i ipaddr port connected).1.2.2.state = .synSent := by
  obtain ⟨localPort, iss, h', heq, -⟩ := tTcpConnectEnqueue_eq h i ipaddr port connected
  rw [heq]
  exact (tTcpEnqueue_kept (a := ⟨none, tcpSyn.toUInt8, false, some (mssOption tTcpMss), 4⟩) rfl).1

namespace TcpHost

variable {h : TcpHost}

/-- The control blocks after a call that is not a SYN|ACK coming in. -/
theorem Unanswered.exec (hu : h.Unanswered) {op : TcpOp} (hop : h.Legal op)
    (hin : ∀ p cbRet indet s k, op = .input p cbRet indet → (tTcpInputHeader p).2 = some (s, k) →
      ¬ s.SynAck) : (h.exec op).2.Unanswered := by
  refine ⟨hu.linked.exec hop, hu.queues.exec hop, fun i hi => ?_⟩
  by_cases hc : op.Connects i
  · cases op with
    | connect j ipaddr port connected indet =>
        obtain rfl : j = i := hc
        have hst := tTcpConnectEnqueue_state h j ipaddr port connected
        have hexec : h.exec (.connect j ipaddr port connected indet) =
            tTcpConnect h indet j ipaddr port connected := rfl
        rw [hexec, tTcpConnect_eq]
        generalize tTcpConnectEnqueue h j ipaddr port connected = e at hst
        obtain ⟨⟨ret, pools1, pcb1⟩, h1⟩ := e
        simp only at hst ⊢
        split
        · rw [setPcb_pcb_self]
          exact TcpPcb.Unanswered.output (.inl hst) _ _
        · rw [setPcb_pcb_self]
          exact .inl hst
    | _ => exact hc.elim
  · by_cases hpool : i ∈ h.tcpPcbPool
    · obtain ⟨iss, ticks, hpcb⟩ := exec_pcb_of_mem_pool hpool hi
      rw [hpcb]
      exact .inr ⟨rfl, rfl⟩
    · have hstep := h.exec_pcbStep op hpool hc
      generalize (h.exec op).2.pcb i = pcb' at hstep
      generalize acceptedBy i (op, (h.exec op).1) = bytes at hstep
      generalize evsOf i (h.exec op).1 = evs at hstep
      cases hstep with
      | idle => exact hu.pcbs i hpool
      | write pools arg len copy => exact (hu.pcbs i hpool).write pools arg len copy
      | output env pools indet hnet => exact (hu.pcbs i hpool).output env pools
      | receive env pools p cbRet indet s k hnet hhdr hmatch =>
          obtain ⟨fate, pools', p', evs', hproc⟩ := tTcpProcess_of_not_synAck env cbRet pools
            (h.pcb i) (hin p cbRet indet s k rfl hhdr)
          have htouch : ((h.pcb i).touch env.tcpTicks).Unanswered := hu.pcbs i hpool
          obtain ⟨hpcb, -⟩ | ⟨hpcb, -⟩ := tTcpReceive_eq (h.pcb i) env cbRet pools s
          · rw [hpcb, hproc]
            exact htouch
          · rw [hpcb, hproc]
            exact htouch.output env _

/-- What it sends is no SYN|ACK. -/
theorem Unanswered.exec_frames (hu : h.Unanswered) {op : TcpOp} (hop : h.Legal op)
    (hin : ∀ p cbRet indet s k, op = .input p cbRet indet → (tTcpInputHeader p).2 = some (s, k) →
      ¬ s.SynAck) : ∀ e ∈ frames (h.exec op).1.evs, PeerFrame False e.2 := by
  rw [frames_exec]
  cases hcall : h.outputCall op with
  | none => exact fun e he => absurd he List.not_mem_nil
  | some r =>
      obtain ⟨env, pools, pcb⟩ := r
      have hq := hu.queues.outputCall hu.linked hop hcall
      refine TcpPcb.Unanswered.output_frames ?_ hq env pools
      cases op with
      | connect i ipaddr port connected indet =>
          have hst := tTcpConnectEnqueue_state h i ipaddr port connected
          replace hcall : h.connectOutput indet i ipaddr port connected =
            some (env, pools, pcb) := hcall
          unfold connectOutput at hcall
          generalize tTcpConnectEnqueue h i ipaddr port connected = e at hcall hst
          obtain ⟨⟨ret, pools1, pcb1⟩, h1⟩ := e
          simp only at hcall
          split at hcall
          · obtain ⟨-, -, rfl⟩ : _ ∧ _ ∧ pcb1 = pcb := by simpa using hcall
            exact .inl hst
          · cases hcall
      | output i indet =>
          obtain rfl : h.pcb i = pcb := congrArg (fun r => r.2.2) (Option.some.inj hcall)
          exact hu.pcbs i hop
      | input p cbRet indet =>
          replace hcall : h.inputOutput indet cbRet (tTcpInputHeader p).2 =
            some (env, pools, pcb) := hcall
          have hhdr := hin p cbRet indet
          generalize (tTcpInputHeader p).2 = e at hcall hhdr
          cases e with
          | none => cases hcall
          | some r =>
          obtain ⟨s, k⟩ := r
          unfold inputOutput at hcall
          simp only at hcall
          cases hd : demux h k with
          | none => rw [hd] at hcall; cases hcall
          | some r =>
          cases r with
          | none => rw [hd] at hcall; cases hcall
          | some r =>
          obtain ⟨i, prev⟩ := r
          rw [hd] at hcall
          obtain ⟨fate, pools', p', evs', hproc⟩ := tTcpProcess_of_not_synAck
            ((moveToFront h i prev).outEnv indet) cbRet (moveToFront h i prev).pools (h.pcb i)
            (hhdr s k rfl rfl)
          simp only [processOutput, moveToFront_pcb, hproc] at hcall
          cases fate with
          | returns err =>
              simp only at hcall
              split at hcall
              · obtain rfl : (h.pcb i).touch _ = pcb :=
                  congrArg (fun r => r.2.2) (Option.some.inj hcall)
                exact hu.pcbs i (hu.linked.demux hd).1
              · cases hcall
          | hangs => cases hcall
          | crashes => cases hcall
      | new => cases hcall
      | write i arg len copy => cases hcall
      | other pools tcpTicks => cases hcall

end TcpHost

/-- The pools do not matter. -/
theorem TcpHost.Unanswered.setPools {h : TcpHost} (hu : h.Unanswered) (pools : Pools) :
    TcpHost.Unanswered { h with pools } :=
  ⟨⟨hu.linked.head, hu.linked.next⟩, hu.queues, hu.pcbs⟩

/-- An ARP packet goes to ARP. -/
theorem rawDemux_arp {p : Pbuf} {frame : List UInt8} (hp : Holds p frame)
    (length : 14 ≤ frame.length) (type : htons ((frameMem frame).get16 12) = tArpFrameType) :
    htons (p.mem.get16 12) = tArpFrameType ∧ rawDemux p = (.arp, p.see 14) := by
  have htype : htons (p.mem.get16 12) = tArpFrameType := by
    rw [hp.get16 (by omega)]
    exact type
  refine ⟨htype, ?_⟩
  unfold rawDemux
  simp only [Pbuf.rd16_fst, Pbuf.rd16_snd, hp.payload, Nat.zero_add, if_pos htype]

/-- ARP is answered with ARP. -/
theorem tArpInput_peerFrame (table : ArpTable) (netif : Netif) {p : Pbuf}
    (htype : htons (p.mem.get16 (p.payload + 12)) = tArpFrameType) :
    ∀ e ∈ frames (tArpInput table netif p).2.2.2, PeerFrame False e.2 := by
  intro e he
  by_cases hlen : sizeofEtharpHdr ≤ p.totLen.toNat
  swap
  · rw [tArpInput_of_short table netif (not_le.mp hlen)] at he
    exact absurd he List.not_mem_nil
  by_cases hip : p.mem.get32 (p.payload + 38) = netif.ipAddr
  swap
  · rw [tArpInput_of_ne table hlen hip] at he
    exact absurd he List.not_mem_nil
  by_cases hreq : htons (p.mem.get16 (p.payload + 20)) = tArpRequestOp
  · obtain ⟨q, hq, hmem, heq⟩ := tArpInput_of_request table hlen hip hreq
    rw [heq] at he
    obtain rfl := List.mem_singleton.mp he
    have hsame := hq.trans (arpReplyWrite_same q p.payload netif)
    have hlen' : 42 ≤ (arpReplyWrite q p.payload netif).totLen.toNat := by
      rw [hsame.totLen]
      exact hlen
    refine PeerKind.peerFrame (.arp (by rw [Pbuf.length_bytes]; omega) ?_)
    rw [frameMem_get16 _ (by omega), hsame.payload, ← htype, ← hmem]
    -- the reply leaves the frame type alone
    refine congrArg htons (ByteMem.get16_congr fun i hi => ?_)
    rw [arpReplyWrite, arpSwapBytes_apply netif p.payload _ (le_refl 6), if_neg (by omega),
      if_neg (by omega), if_neg (by omega), if_neg (by omega)]
    simp only [arpReplyAddrs, Pbuf.rd32_fst, Pbuf.rd32_snd, Pbuf.set32_mem, Pbuf.see_mem,
      Pbuf.set16_mem]
    rw [ByteMem.set32_apply_of_disjoint _ _ (by omega),
      ByteMem.set32_apply_of_disjoint _ _ (by omega), ByteMem.set16_apply_of_disjoint _ _ (by omega)]
  · have hnone : frames (tArpInput table netif p).2.2.2 = [] := by
      by_cases hop : htons (p.mem.get16 (p.payload + 20)) = tArpReplyOp
      · rw [tArpInput_of_reply table hlen hip hop, frames_nil]
      · rw [tArpInput_of_other table hlen hip hreq hop, frames_nil]
    rw [hnone] at he
    exact absurd he List.not_mem_nil

/-- A request is ARP. -/
theorem tArpRequest_peerFrame (pool : List Pbuf) (netif : Netif) (ip : UInt32) :
    ∀ e ∈ frames (tArpRequest pool netif ip).2.2, PeerFrame False e.2 := by
  intro e he
  unfold tArpRequest at he
  cases halloc : tPbufAlloc pool 0 (UInt16.ofNat sizeofEtharpHdr) tPbufFlagPool with
  | mk p pool' =>
      rw [halloc] at he
      cases p with
      | none => exact absurd he List.not_mem_nil
      | some p =>
          obtain ⟨-, -, q, -, hp⟩ := tPbufAlloc_eq_some halloc
          have hsame := arpRequestWrite_same p p.payload netif ip
          obtain rfl := List.mem_singleton.mp he
          have hlen : (arpRequestWrite p p.payload netif ip).totLen.toNat = 42 := by
            rw [hsame.totLen, hp]
            rfl
          refine PeerKind.peerFrame (.arp (by rw [Pbuf.length_bytes]; omega) ?_)
          rw [frameMem_get16 _ (by omega), hsame.payload]
          simp only [arpRequestWrite, Pbuf.set16_mem]
          rw [ByteMem.get16_set16_self, htons_htons]

namespace Host

/-- A frame of a peer leaves the host unanswered, and is answered with such a frame at most. -/
theorem receive_peer {h : Host} (hu : h.tcp.Unanswered) {frame : List UInt8} (hf : PeerFrame True frame)
    (netif : Netif) (indet : Nat → Option Netif) (cbRet : ErrT) :
    (h.receive frame netif indet cbRet).1.tcp.Unanswered ∧
      ∀ e ∈ frames (h.receive frame netif indet cbRet).2, PeerFrame False e.2 := by
  have hnil : ∀ e ∈ frames [], PeerFrame False e.2 := fun e he => absurd he List.not_mem_nil
  unfold Host.receive
  cases hrecv : ether0RecvData h.pbufPool frame with
  | mk p pool =>
  cases p with
  | none => exact ⟨hu.setPools _, hnil⟩
  | some p =>
  have hp := ether0RecvData_holds hf.lt hrecv
  simp only
  obtain ⟨host, hhost⟩ : ∃ host, host = h.setPbufPool pool := ⟨_, rfl⟩
  have hu' : host.tcp.Unanswered := by
    rw [hhost]
    exact hu.setPools _
  rw [← hhost]
  have hhandle : (handle host indet cbRet netif (rawDemux p)).2.2.1.tcp.Unanswered ∧
      ∀ e ∈ frames (handle host indet cbRet netif (rawDemux p)).2.2.2, PeerFrame False e.2 := by
    cases hf.kind with
    | arp length type =>
        obtain ⟨htype, hdemux⟩ := rawDemux_arp hp length type
        rw [hdemux]
        simp only [handle]
        exact ⟨hu', tArpInput_peerFrame _ _ (by rw [Pbuf.see_payload, hp.payload]; exact htype)⟩
    | udp sent hdemux =>
        obtain ⟨r, hr⟩ : ∃ r, rawDemux p = (.udp, r) := ⟨_, Prod.ext (hdemux p hp) rfl⟩
        rw [hr]
        cases hudp : tUdpInput host.udp r with
        | none =>
            simp only [handle, hudp]
            exact ⟨hu', hnil⟩
        | some res =>
            simp only [handle, hudp, tUdpInput_frames hudp]
            exact ⟨hu', hnil⟩
    | tcp hdec =>
        obtain ⟨s, k, ⟨r, p', hdemux, hhdr⟩, hno⟩ := hdec p hp
        have hin : ∀ q cbRet' indet' s' k', TcpOp.input r cbRet indet = .input q cbRet' indet' →
            (tTcpInputHeader q).2 = some (s', k') → ¬ s'.SynAck := fun q cbRet' indet' s' k' heq hs => by
          rw [← (TcpOp.input.inj heq).1, hhdr] at hs
          obtain ⟨rfl, -⟩ := Prod.mk.inj (Option.some.inj hs)
          exact hno
        have hexec : host.tcp.exec (.input r cbRet indet) =
            ((tTcpInput host.tcp indet cbRet r).1, (tTcpInput host.tcp indet cbRet r).2.2) := by
          simp only [TcpHost.exec]
        have hstate : (host.tcp.exec (.input r cbRet indet)).2.Unanswered := hu'.exec trivial hin
        have hsent : ∀ e ∈ frames (host.tcp.exec (.input r cbRet indet)).1.evs, PeerFrame False e.2 :=
          hu'.exec_frames trivial hin
        rw [hexec] at hstate hsent
        rw [hdemux, handle_tcp_eq]
        generalize tTcpInput host.tcp indet cbRet r = res at hstate hsent ⊢
        exact ⟨hstate, hsent⟩
  rw [tRawInput_evs]
  refine ⟨?_, hhandle.2⟩
  unfold tRawInput
  generalize handle host indet cbRet netif (rawDemux p) = r at hhandle
  obtain ⟨fate, q, h', evs⟩ := r
  cases fate with
  | returns ret => exact hhandle.1.setPools _
  | hangs => exact hhandle.1
  | crashes => exact hhandle.1

/-- The calls of a program: it uses control blocks that it was given, sends datagrams from pbufs
with room for the headers, and makes up no segments. -/
def ByProgram (h : Host) : HostOp → Prop
  | .tcp (.input _ _ _) => False
  | .tcp op => h.tcp.Legal op
  | .udpSend _ p => UdpRoom p
  | _ => True

/-- The call sends this frame for a datagram. -/
structure SendsUdp (h : Host) (op : HostOp) (frame : List UInt8) (i : UdpPcbId) (p : Pbuf)
    (out : Netif) : Prop where
  op : op = .udpSend i p
  room : UdpRoom p
  payload : p.payload - 8 < 1481
  route : tIpRoute h.tcp.net (h.udp.pcb i).remoteIp = some out
  frame : frame = (ipFrame (udpPacket (h.udp.pcb i) p) out out.ipAddr
    (.val (h.udp.pcb i).remoteIp) (h.udp.pcb i).ttl (h.udp.pcb i).tos tIpProtoUdp).bytes

theorem exec_peer {h : Host} (hu : h.tcp.Unanswered) {op : HostOp} (hop : h.ByProgram op)
    (hf : ∀ frame ∈ op.frame?, PeerFrame True frame) :
    (h.exec op).1.tcp.Unanswered ∧
      ∀ e ∈ frames (h.exec op).2, PeerFrame (∃ i p out, h.SendsUdp op e.2 i p out) e.2 := by
  cases op with
  | tcp op =>
      have hin : h.tcp.Legal op ∧ ∀ p cbRet indet s k, op = .input p cbRet indet →
          (tTcpInputHeader p).2 = some (s, k) → ¬ s.SynAck := by
        cases op with
        | input p cbRet indet => exact hop.elim
        | _ => exact ⟨hop, fun _ _ _ _ _ heq => by cases heq⟩
      exact ⟨hu.exec hin.1 hin.2, fun e he => (hu.exec_frames hin.1 hin.2 e he).imp False.elim⟩
  | udp op => exact ⟨hu, fun e he => absurd he List.not_mem_nil⟩
  | udpSend i p =>
      refine ⟨hu.setPools _, fun e he => ?_⟩
      have hroom : UdpRoom p := hop
      have hsent : e ∈ frames (tUdpSend h.tcp.net h.pbufPool (h.udp.pcb i) p).2.2 := he
      rw [tUdpSend_frames_route hroom.headroom] at hsent
      split at hsent
      · next hlt =>
        split at hsent
        · next netif hroute =>
          obtain rfl := List.mem_singleton.mp hsent
          refine PeerKind.peerFrame (.udp ⟨i, p, netif, rfl, hroom, hlt, hroute, rfl⟩ fun q hq => ?_)
          obtain ⟨r, hdemux, -⟩ := rawDemux_udpFrame hroom hlt (h.udp.pcb i) netif rfl hq
          rw [hdemux]
        · exact absurd hsent List.not_mem_nil
      · exact absurd hsent List.not_mem_nil
  | arpRequest netif ip =>
      exact ⟨hu.setPools _, fun e he => (tArpRequest_peerFrame _ _ _ e he).imp False.elim⟩
  | receive frame netif indet cbRet =>
      obtain ⟨hu', hsent⟩ := receive_peer hu (hf frame rfl) netif indet cbRet
      exact ⟨hu', fun e he => (hsent e he).imp False.elim⟩

end Host

/-! ## the network -/

section
variable {ι : Type*}

/-- Hosts that run the stack, and the frames they send each other. -/
def peers (ι : Type*) : Network.Nodes ι Host HostOp (List UInt8) where
  act _ h op := ((h.exec op).1, (frames (h.exec op).2).map Prod.snd)
  takes := HostOp.frame?

theorem PeerFrame.not_synAck {frame : List UInt8} (hf : PeerFrame True frame) {p : Pbuf}
    (hp : Holds p frame) {s : Incoming} {k : TcpKey} (hdec : Decodes p s k) : ¬ s.SynAck := by
  obtain ⟨r, p', hdemux, hhdr⟩ := hdec
  cases hf.kind with
  | arp length type =>
      rw [(rawDemux_arp hp length type).2] at hdemux
      cases (Prod.mk.inj hdemux).1
  | udp sent h =>
      have hudp := h p hp
      rw [hdemux] at hudp
      cases hudp
  | tcp h =>
      obtain ⟨s', k', ⟨r', p'', hdemux', hhdr'⟩, hno⟩ := h p hp
      rw [hdemux'] at hdemux
      obtain ⟨-, rfl⟩ := Prod.mk.inj hdemux
      rw [hhdr'] at hhdr
      obtain ⟨rfl, -⟩ := Prod.mk.inj (Option.some.inj (Prod.mk.inj hhdr).2)
      exact hno

/-- No host was answered, and what is under way came from one of them. -/
theorem peers_inv [DecidableEq ι] {s : Network.State ι Host (List UInt8)}
    (hboot : ∀ i, (s.node i).tcp.Boot) (hsent : s.sent = []) {as : List (ι × HostOp)}
    (hl : Run.Along (Network.step (peers ι)) (Network.Legal (peers ι) fun _ => Host.ByProgram) s as) :
    Network.Inv (fun _ (h : Host) => h.tcp.Unanswered) (PeerFrame True)
      (Run.final (Network.step (peers ι)) s as) := by
  have hinv : Network.Inv (fun _ (h : Host) => h.tcp.Unanswered) (PeerFrame True) s :=
    ⟨fun i => (hboot i).unanswered, fun f hf => absurd (hsent ▸ hf) List.not_mem_nil⟩
  refine Network.inv_of_along hinv hl fun i h op hu hop hf => ?_
  obtain ⟨hu', hsent'⟩ := Host.exec_peer hu hop hf
  refine ⟨hu', fun f hf' => ?_⟩
  obtain ⟨e, he, rfl⟩ := List.mem_map.mp hf'
  exact (hsent' e he).imp fun _ => trivial

/-- **No connection between peers**: hosts that all run this stack, whatever their programs call
and whatever the network does with the frames, never send a SYN|ACK, and none of their control
blocks is ever established. -/
theorem peers_never_connect [DecidableEq ι] {s : Network.State ι Host (List UInt8)}
    (hboot : ∀ i, (s.node i).tcp.Boot) (hsent : s.sent = []) {as : List (ι × HostOp)}
    (hl : Run.Along (Network.step (peers ι)) (Network.Legal (peers ι) fun _ => Host.ByProgram) s as) :
    let s' := Run.final (Network.step (peers ι)) s as
    (∀ frame ∈ s'.sent, ∀ p, Holds p frame → ∀ seg k, Decodes p seg k → ¬ seg.SynAck) ∧
      ∀ i j, j ∉ (s'.node i).tcp.tcpPcbPool →
        ((s'.node i).tcp.pcb j).state = .closed ∨ ((s'.node i).tcp.pcb j).state = .synSent := by
  obtain ⟨hnode, hframes⟩ := peers_inv hboot hsent hl
  refine ⟨fun frame hf p hp seg k hdec => (hframes frame hf).not_synAck hp hdec, fun i j hj => ?_⟩
  exact ((hnode i).pcbs j hj).symm.imp_left And.left

end

/-- Two hosts after their start. -/
def twoHosts : Network.State Bool Host (List UInt8) := ⟨fun _ => ⟨sampleHost, .initial, []⟩, []⟩

/-- The first of them connects. -/
def firstConnects : List (Bool × HostOp) := [(false, .tcp .new), (false, .tcp sampleConnect)]

/-- The frames under way then: the SYN. -/
def synFrames : List (List UInt8) :=
  (Run.final (Network.step (peers Bool)) twoHosts firstConnects).sent

/-- The SYN comes in at the second host, and again at the first. -/
theorem peers_never_connect_two :
    let netif : Netif := ⟨0x0200000a, 0, 0, #v[0, 0, 0, 0, 0, 1]⟩
    let s' := Run.final (Network.step (peers Bool)) twoHosts (firstConnects ++
      [(true, .receive (synFrames.headD []) netif (fun _ => none) 0),
        (false, .receive (synFrames.headD []) netif (fun _ => none) 0)])
    (∀ frame ∈ s'.sent, ∀ p, Holds p frame → ∀ seg k, Decodes p seg k → ¬ seg.SynAck) ∧
      ∀ i j, j ∉ (s'.node i).tcp.tcpPcbPool →
        ((s'.node i).tcp.pcb j).state = .closed ∨ ((s'.node i).tcp.pcb j).state = .synSent := by
  intro netif
  have hsyn : synFrames ≠ [] := by decide +kernel
  have hmem : synFrames.headD [] ∈ synFrames := by
    obtain ⟨f, fs, hfs⟩ := List.exists_cons_of_ne_nil hsyn
    rw [hfs]
    exact List.mem_cons_self
  refine peers_never_connect (fun _ => TcpHost.initial_boot _ _) rfl ?_
  rw [Run.along_append]
  refine ⟨⟨⟨trivial, fun _ hm => by cases hm⟩, ⟨?_, fun _ hm => by cases hm⟩, trivial⟩,
    ⟨trivial, fun m hm => ?_⟩, ⟨trivial, fun m hm => ?_⟩, trivial⟩
  · show (0 : TcpPcbId) ∉ _
    decide +kernel
  · obtain rfl := Option.some.inj hm
    exact hmem
  · obtain rfl := Option.some.inj hm
    exact List.mem_append_left _ hmem

end TTcp
