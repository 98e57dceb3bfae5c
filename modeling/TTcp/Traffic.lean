import TTcp.Ip.Report
import TTcp.Lib.Cost
import TTcp.Owners
import TTcp.Tcp.HalfOpen

/-!
# TTcp.Traffic

How much can a host be made to send?

A call hands one frame to an interface, but for `t_tcp_output`, which sends all that fits.  Each
segment that it sends goes to an unacked queue, with its block, and leaves it only when a SYN is
acknowledged.  So what goes out beyond one frame a call is paid for with a block or a connect.
-/

namespace TTcp

/-! ## one control block -/

/-- What a control block has sent and keeps.  In SYN_SENT one segment may still be freed. -/
def TcpPcb.credit (pcb : TcpPcb) : ℤ :=
  pcb.unacked.length - (if pcb.state = .synSent then 1 else 0)

theorem TcpPcb.credit_congr {pcb pcb' : TcpPcb} (hun : pcb'.unacked = pcb.unacked)
    (hst : pcb'.state = pcb.state) : pcb'.credit = pcb.credit := by
  rw [credit, credit, hun, hst]

theorem TcpSeg.Queued.tcplen_pos {seg : TcpSeg} (h : seg.Queued) : 0 < seg.tcplen := by
  rcases h.kind with hu | hs
  · rw [hu.tcplen]
    exact hu.len_pos
  · rw [TcpSeg.BareSyn.tcplen ⟨hs.len, hs.word⟩]
    exact Nat.one_pos

theorem length_frames_tIpOutput (net : Net) (indet : Option Netif) (arg : NetifArg) (p : Pbuf)
    (src : Option UInt32) (dst : AddrPtr) (ttl tos proto : UInt8) :
    (frames (tIpOutput net indet arg p src dst ttl tos proto).2.2).length ≤ 1 := by
  obtain h | ⟨f, h⟩ := tIpOutput_frames_cases net indet arg p src dst ttl tos proto
  · rw [h]
    exact Nat.zero_le 1
  · rw [h]
    exact Nat.le_refl 1

section
variable (env : OutEnv) (pools : Pools)

theorem length_frames_tTcpOutputSegment (indet : Option Netif) (seg : TcpSeg) (pcb : TcpPcb) :
    (frames (tTcpOutputSegment env indet seg pcb).2.2).length ≤ 1 := by
  have hsend : ∀ (arg : NetifArg) (seg : TcpSeg) (pcb : TcpPcb),
      (frames (tTcpOutputSegmentSend env indet arg seg pcb).2.2).length ≤ 1 := fun arg seg pcb => by
    obtain ⟨rttest, rtseq, h⟩ := tTcpOutputSegmentSend_eq env indet arg seg pcb
    rw [h]
    exact length_frames_tIpOutput ..
  obtain ⟨-, h⟩ | ⟨n, -, h⟩ | ⟨-, h⟩ := tTcpOutputSegment_cases env indet seg pcb
  · rw [h]
    exact Nat.zero_le 1
  · rw [h]
    exact hsend ..
  · rw [h]
    exact hsend ..

/-- A round sends one frame at most, and its segment goes to the unacked queue. -/
theorem tTcpOutputRound_credit (indet : Option Netif) (pcb : TcpPcb) {seg : TcpSeg}
    (hseg : seg.Queued) :
    let r := tTcpOutputRound env indet pools pcb seg
    ((frames r.2.2).length : ℤ) ≤ r.2.1.credit - pcb.credit := by
  obtain ⟨flags, hflags⟩ := pcb.outgoing_eq
  obtain ⟨r, hr⟩ : ∃ r, r = tTcpOutputSegment env indet (seg.outgoing pcb.state) pcb.outgoing :=
    ⟨_, rfl⟩
  obtain ⟨sndMax, hround⟩ := tTcpOutputRound_eq env pools hr
  obtain ⟨-, -, hunacked⟩ :=
    tTcpOutputSegment_kept env indet (seg.outgoing pcb.state) pcb.outgoing
  obtain ⟨⟨localIp, rtime, rttest, rtseq, hpcb, -⟩, hfill, -⟩ :=
    tTcpOutputSegment_spec env indet (seg.outgoing pcb.state) pcb.outgoing
      (by rw [seg.outgoing_tcphdr, hseg.tcphdr]) (by rw [seg.outgoing_p_payload, hseg.payload])
  have hone := length_frames_tTcpOutputSegment env indet (seg.outgoing pcb.state) pcb.outgoing
  rw [← hr] at hunacked hpcb hfill hone
  rw [hflags] at hunacked hpcb
  have hpos : 0 < r.1.tcplen := by
    rw [hfill.tcplen, seg.outgoing_tcplen]
    exact hseg.tcplen_pos
  have hst : r.2.1.state = pcb.state := by rw [hpcb]
  have hlen : (unackedInsert r.2.1.unacked r.1).length = pcb.unacked.length + 1 := by
    rw [(unackedInsert_perm _ _).length_eq, hunacked, List.length_cons]
  rw [hround, if_pos hpos]
  simp only [TcpPcb.credit, hst, hlen]
  push_cast
  omega

theorem tTcpOutputLoop_credit (wnd : UInt32) {pcb : TcpPcb} {unsent : List TcpSeg}
    (hun : pcb.unsent = unsent) (hq : ∀ seg ∈ unsent, seg.Queued) :
    let r := tTcpOutputLoop env wnd pools pcb unsent
    ((frames r.2.2).length : ℤ) ≤ r.2.1.credit - pcb.credit := by
  induction unsent generalizing pools pcb with
  | nil => simp [tTcpOutputLoop]
  | cons seg rest ih =>
      rw [tTcpOutputLoop]
      split
      · have hround := tTcpOutputRound_credit env pools (env.indet rest.length)
          { pcb with unsent := rest } (hq seg List.mem_cons_self)
        have hun' := (tTcpOutputRound_outputs env pools (env.indet rest.length)
          { pcb with unsent := rest } seg).2
        have hcredit : ({ pcb with unsent := rest } : TcpPcb).credit = pcb.credit := rfl
        rw [hcredit] at hround
        generalize tTcpOutputRound env (env.indet rest.length) pools
          { pcb with unsent := rest } seg = r at hround hun'
        have hrest := ih r.1 hun' fun seg' hs => hq seg' (List.mem_cons_of_mem _ hs)
        show ((frames (r.2.2 ++ (tTcpOutputLoop env wnd r.1 r.2.1 rest).2.2)).length : ℤ) ≤
          (tTcpOutputLoop env wnd r.1 r.2.1 rest).2.1.credit - pcb.credit
        rw [frames_append, List.length_append, Nat.cast_add]
        linarith
      · simp

/-- `t_tcp_output`: an empty acknowledgement, or segments. -/
theorem tTcpOutput_credit {pcb : TcpPcb} (hq : pcb.Queues) :
    let r := tTcpOutput env pools pcb
    ((frames r.2.2.2).length : ℤ) ≤ r.2.2.1.credit - pcb.credit + 1 := by
  rcases tTcpOutput_cases env pools pcb with h | h
  · obtain ⟨⟨flags, hpcb⟩, -⟩ := tTcpOutputAck_spec env pools pcb
    have hone : (frames (tTcpOutputAck env pools pcb).2.2.2).length ≤ 1 := by
      unfold tTcpOutputAck
      simp only
      split
      · exact Nat.zero_le 1
      · exact length_frames_tIpOutput ..
    have hcredit : (tTcpOutputAck env pools pcb).2.2.1.credit = pcb.credit := by
      rw [hpcb]
      rfl
    rw [h]
    simp only [hcredit]
    omega
  · have hloop := tTcpOutputLoop_credit env pools pcb.wnd rfl hq.unsent
    rw [h]
    simp only at hloop ⊢
    omega

theorem tTcpProcess_frames (cbRet : ErrT) (pcb : TcpPcb) (s : Incoming) :
    frames (tTcpProcess env cbRet pools pcb s).2.2.2.2 = [] :=
  List.filterMap_eq_nil_iff.mpr fun e he => (tTcpProcess_inner env cbRet pools pcb s e he).2

/-- Processing sends nothing.  The segment that an accepted SYN|ACK frees is paid for by leaving
SYN_SENT. -/
theorem tTcpProcess_credit (cbRet : ErrT) (pcb : TcpPcb) (s : Incoming) :
    let r := tTcpProcess env cbRet pools pcb s
    frames r.2.2.2.2 = [] ∧ pcb.credit ≤ r.2.2.1.credit := by
  obtain ⟨-, ⟨hpcb, -⟩ | ⟨hst, -, -, rseg, unacked, wnd, mss, flags, hcons, -, -, hpcb, -⟩⟩ :=
    tTcpProcess_cases env cbRet pools pcb s
  · exact ⟨tTcpProcess_frames env pools cbRet pcb s, by rw [hpcb]; exact le_refl pcb.credit⟩
  · refine ⟨tTcpProcess_frames env pools cbRet pcb s, ?_⟩
    rw [hpcb]
    simp [TcpPcb.credit, hst, hcons, tcpAcceptPcb]

theorem tTcpReceive_credit (cbRet : ErrT) {pcb : TcpPcb} (hq : pcb.Queues) (s : Incoming) :
    let r := tTcpReceive env cbRet pools pcb s
    ((frames r.2.2.2.2).length : ℤ) ≤ r.2.2.1.credit - pcb.credit + 1 := by
  obtain ⟨hnone, hproc⟩ := tTcpProcess_credit env pools cbRet pcb s
  obtain ⟨hpcb, hevs⟩ | ⟨hpcb, hevs⟩ := tTcpReceive_eq pcb env cbRet pools s
  · simp only [hpcb, hevs, hnone, List.length_nil]
    push_cast
    omega
  · have hout := tTcpOutput_credit env (tTcpProcess env cbRet pools pcb s).2.1
      (hq.process env cbRet pools s)
    simp only [hpcb, hevs, frames_append, hnone, List.nil_append] at hout ⊢
    omega

end

theorem tTcpWrite_credit (pools : Pools) (pcb : TcpPcb) (arg : ByteMem) (len : UInt16)
    (copy : Bool) : (tTcpWrite pools pcb arg len copy).2.2.credit = pcb.credit := by
  unfold tTcpWrite
  split
  · split
    · obtain ⟨hst, hun⟩ := tTcpEnqueue_kept (a := ⟨some arg, 0, copy, none, 0⟩)
        (rfl : tTcpEnqueue pools pcb (some arg) len 0 copy none 0 = _)
      exact TcpPcb.credit_congr hun hst
    · rfl
  · rfl

/-! ## a host -/

namespace TcpHost

/-- The credit of the control blocks in use. -/
def credit (h : TcpHost) : ℤ := ∑ i, h.ofUsed 0 TcpPcb.credit i

/-- What one control block gains, the host gains. -/
theorem credit_of_pcb (h h' : TcpHost) {i : TcpPcbId} (hi : i ∉ h.tcpPcbPool)
    (hpool : h'.tcpPcbPool = h.tcpPcbPool) (hother : ∀ j, j ≠ i → h'.pcb j = h.pcb j) :
    h'.credit - h.credit = (h'.pcb i).credit - (h.pcb i).credit := by
  have hrest : ∑ j ∈ Finset.univ.erase i, h'.ofUsed 0 TcpPcb.credit j =
      ∑ j ∈ Finset.univ.erase i, h.ofUsed 0 TcpPcb.credit j :=
    Finset.sum_congr rfl fun j hj => ofUsed_congr hpool (hother j (Finset.ne_of_mem_erase hj))
  have hsplit : ∀ f : TcpPcbId → ℤ, ∑ j, f j = f i + ∑ j ∈ Finset.univ.erase i, f j := fun f =>
    (Finset.add_sum_erase _ _ (Finset.mem_univ i)).symm
  rw [credit, credit, hsplit, hsplit, hrest, ofUsed_of_not_mem hi, ofUsed_of_not_mem (hpool ▸ hi)]
  omega

/-- All credit is in segments that are queued. -/
theorem credit_le (h : TcpHost) : h.credit ≤ h.queued.length := by
  have hpcb : ∀ pcb : TcpPcb, pcb.credit ≤ pcb.queued.length := fun pcb => by
    rw [TcpPcb.credit, TcpPcb.queued, List.length_append]
    split <;> push_cast <;> omega
  rw [credit, queued, List.length_flatMap, ← Fin.sum_univ_def, Nat.cast_sum]
  refine Finset.sum_le_sum fun i _ => ?_
  unfold ofUsed
  split
  · exact le_refl 0
  · exact hpcb _

theorem Boot.credit {h : TcpHost} (hb : h.Boot) : h.credit = 0 := by
  simp [TcpHost.credit, ofUsed, hb.pool]

/-- A new control block has none. -/
theorem new_credit (h : TcpHost) : (tTcpNew h).2.credit = h.credit :=
  Finset.sum_congr rfl fun j _ => new_ofUsed (fun _ _ => rfl) j

variable {h : TcpHost}

theorem connect_credit (hq : h.AllQueues) {i : TcpPcbId} (hi : i ∉ h.tcpPcbPool)
    (indet : Nat → Option Netif) (ipaddr : UInt32) (port : UInt16) (connected : Option Nat) :
    let r := tTcpConnect h indet i ipaddr port connected
    ((frames r.1.evs).length : ℤ) ≤ r.2.credit - h.credit + 2 := by
  have hqueues := (hq i hi).connectEnqueue ipaddr port connected
  obtain ⟨localPort, iss, h1, heq, -, hpcb, hpool⟩ :=
    tTcpConnectEnqueue_eq h i ipaddr port connected
  rw [heq] at hqueues
  have hcredit : (h.pcb i).credit - 1 ≤ (tTcpEnqueue h.pools
      (tcpConnectPcb (h.pcb i) ipaddr port localPort iss connected) none 0 tcpSyn.toUInt8 false
      (some (mssOption tTcpMss)) 4).2.2.credit := by
    obtain ⟨hst, hun⟩ := tTcpEnqueue_kept
      (a := ⟨none, tcpSyn.toUInt8, false, some (mssOption tTcpMss), 4⟩)
      (rfl : tTcpEnqueue h.pools (tcpConnectPcb (h.pcb i) ipaddr port localPort iss connected) none 0
        tcpSyn.toUInt8 false (some (mssOption tTcpMss)) 4 = _)
    rw [TcpPcb.credit_congr hun hst, TcpPcb.credit, TcpPcb.credit]
    simp only [tcpConnectPcb, if_pos]
    split <;> omega
  rw [tTcpConnect_eq, heq]
  generalize tTcpEnqueue h.pools (tcpConnectPcb (h.pcb i) ipaddr port localPort iss connected) none
    0 tcpSyn.toUInt8 false (some (mssOption tTcpMss)) 4 = r at hcredit hqueues
  obtain ⟨ret, pools, pcb⟩ := r
  simp only at hcredit hqueues ⊢
  have hset : ∀ (pools : Pools) (pcb : TcpPcb),
      credit { h1.setPcb i pcb with pools } - h.credit = pcb.credit - (h.pcb i).credit :=
    fun pools pcb => by
      have hdiff := credit_of_pcb h _ (i := i) hi (show
        (TcpHost.tcpPcbPool { h1.setPcb i pcb with pools }) = h.tcpPcbPool from hpool)
        (fun j hj => by rw [← hpcb]; exact setPcb_pcb_of_ne _ hj _)
      simpa only [setPcb_pcb_self] using hdiff
  split
  · have hout := tTcpOutput_credit (h1.outEnv indet) pools hqueues
    generalize tTcpOutput (h1.outEnv indet) pools pcb = o at hout
    have hgain := hset o.2.1 o.2.2.1
    show ((frames o.2.2.2).length : ℤ) ≤
      credit { h1.setPcb i o.2.2.1 with pools := o.2.1 } - h.credit + 2
    replace hout : ((frames o.2.2.2).length : ℤ) ≤ o.2.2.1.credit - pcb.credit + 1 := hout
    omega
  · have hgain := hset pools pcb
    simp only [frames_nil, List.length_nil] at hgain ⊢
    omega

theorem input_credit (hl : h.Linked) (hq : h.AllQueues) (indet : Nat → Option Netif)
    (cbRet : ErrT) (p : Pbuf) :
    let r := tTcpInput h indet cbRet p
    ((frames r.1.evs).length : ℤ) ≤ r.2.2.credit - h.credit + 1 := by
  have hcases := h.tTcpInput_cases indet cbRet p
  generalize tTcpInput h indet cbRet p = r at hcases ⊢
  obtain ⟨-, hevs, -, hh⟩ | ⟨i, prev, s, k, -, hd, -, hout, hh⟩ := hcases
  · simp only [hevs, hh, frames_nil, List.length_nil]
    omega
  · have hi := (hl.demux hd).1
    have hreceive := tTcpReceive_credit (h.outEnv indet) h.pools cbRet (hq i hi) s
    have hgain := credit_of_pcb h r.2.2 hi
      (by rw [hh]; exact h.moveToFront_tcpPcbPool i prev)
      (fun j hj => by
        rw [hh]
        exact (setPcb_pcb_of_ne _ hj _).trans (congrFun (h.moveToFront_pcb i prev) j))
    have hpcb : r.2.2.pcb i = (tTcpReceive (h.outEnv indet) cbRet h.pools (h.pcb i) s).2.2.1 := by
      rw [hh]
      exact setPcb_pcb_self _ i _
    rw [hpcb] at hgain
    simp only [hout, hgain]
    exact hreceive

end TcpHost

/-- One frame a call, and another for a SYN. -/
def TcpOp.budget : TcpOp → ℕ
  | .connect _ _ _ _ _ => 2
  | _ => 1

/-- A call on the TCP layer sends no more than its budget and what it gains. -/
theorem TcpHost.exec_credit {h : TcpHost} (hl : h.Linked) (hq : h.AllQueues) {op : TcpOp}
    (hop : h.Legal op) :
    ((frames (h.exec op).1.evs).length : ℤ) ≤ (h.exec op).2.credit - h.credit + op.budget := by
  have hset : ∀ {i : TcpPcbId} (pools : Pools) (pcb : TcpPcb), i ∉ h.tcpPcbPool →
      credit { h.setPcb i pcb with pools } - h.credit = pcb.credit - (h.pcb i).credit :=
    fun {i} pools pcb hi => by
      have hdiff := credit_of_pcb h { h.setPcb i pcb with pools } (i := i) hi rfl
        (fun j hj => setPcb_pcb_of_ne _ hj _)
      simpa only [setPcb_pcb_self] using hdiff
  cases op with
  | new =>
      have hnew : (h.exec .new).2.credit = h.credit := new_credit h
      rw [hnew]
      simp [exec, TcpOp.budget]
  | connect i ipaddr port connected indet => exact connect_credit hq hop indet ipaddr port connected
  | write i arg len copy =>
      have hgain := hset (tTcpWrite h.pools (h.pcb i) arg len copy).2.1
        (tTcpWrite h.pools (h.pcb i) arg len copy).2.2 hop
      rw [tTcpWrite_credit] at hgain
      show ((0 : ℕ) : ℤ) ≤ credit { h.setPcb i (tTcpWrite h.pools (h.pcb i) arg len copy).2.2 with
        pools := (tTcpWrite h.pools (h.pcb i) arg len copy).2.1 } - h.credit + ((1 : ℕ) : ℤ)
      omega
  | output i indet =>
      have hout := tTcpOutput_credit (h.outEnv indet) h.pools (hq i hop)
      have hgain := hset (tTcpOutput (h.outEnv indet) h.pools (h.pcb i)).2.1
        (tTcpOutput (h.outEnv indet) h.pools (h.pcb i)).2.2.1 hop
      generalize hr : tTcpOutput (h.outEnv indet) h.pools (h.pcb i) = r at hout hgain
      have hexec : h.exec (.output i indet) = (⟨.returns r.1, some i, r.2.2.2⟩,
          { h.setPcb i r.2.2.1 with pools := r.2.1 }) := by rw [← hr]; rfl
      rw [hexec]
      replace hout : ((frames r.2.2.2).length : ℤ) ≤ r.2.2.1.credit - (h.pcb i).credit + 1 := hout
      rw [← hgain] at hout
      exact hout
  | input p cbRet indet =>
      have hexec : h.exec (.input p cbRet indet) =
          ((tTcpInput h indet cbRet p).1, (tTcpInput h indet cbRet p).2.2) := by simp only [exec]
      have hin := input_credit hl hq indet cbRet p
      rw [hexec]
      generalize tTcpInput h indet cbRet p = r at hin ⊢
      exact hin
  | other pools tcpTicks =>
      have hsame : (h.exec (.other pools tcpTicks)).2.credit = h.credit := rfl
      rw [hsame]
      simp [exec, TcpOp.budget]

/-! ## the other protocols -/

theorem length_frames_tArpInput (table : ArpTable) (netif : Netif) (p : Pbuf) :
    (frames (tArpInput table netif p).2.2.2).length ≤ 1 := by
  by_cases hlen : sizeofEtharpHdr ≤ p.totLen.toNat
  swap
  · rw [tArpInput_of_short table netif (not_le.mp hlen)]
    exact Nat.zero_le 1
  by_cases hip : p.mem.get32 (p.payload + 38) = netif.ipAddr
  swap
  · rw [tArpInput_of_ne table hlen hip]
    exact Nat.zero_le 1
  by_cases hreq : htons (p.mem.get16 (p.payload + 20)) = tArpRequestOp
  · obtain ⟨q, -, -, heq⟩ := tArpInput_of_request table hlen hip hreq
    rw [heq]
    exact Nat.le_refl 1
  · by_cases hop : htons (p.mem.get16 (p.payload + 20)) = tArpReplyOp
    · rw [tArpInput_of_reply table hlen hip hop]
      exact Nat.zero_le 1
    · rw [tArpInput_of_other table hlen hip hreq hop]
      exact Nat.zero_le 1

theorem length_frames_tIcmpInput (net : Net) (netif : Netif) (p : Pbuf) :
    (frames (tIcmpInput net netif p).2.2).length ≤ 1 := by
  unfold tIcmpInput
  simp only
  split
  · split
    · generalize Pbuf.rd16 _ (p.payload + 8) = r
      obtain ⟨ttlProto, q⟩ := r
      exact length_frames_tIpOutput ..
    · exact Nat.zero_le 1
  · exact Nat.zero_le 1

theorem length_frames_tUdpSend (net : Net) (pool : List Pbuf) (pcb : UdpPcb) (p : Pbuf) :
    (frames (tUdpSend net pool pcb p).2.2).length ≤ 1 := by
  unfold tUdpSend
  simp only
  repeat' split
  · exact Nat.zero_le 1
  · exact Nat.zero_le 1
  · exact length_frames_tIpOutput ..

theorem length_frames_tArpRequest (pool : List Pbuf) (netif : Netif) (ip : UInt32) :
    (frames (tArpRequest pool netif ip).2.2).length ≤ 1 := by
  unfold tArpRequest
  split
  · exact Nat.zero_le 1
  · exact Nat.le_refl 1

/-! ## the whole host -/

/-- One frame a call, and another for a SYN. -/
def HostOp.budget : HostOp → ℕ
  | .tcp op => op.budget
  | _ => 1

namespace Host

variable {h : Host} {blocks : List SegId}

/-- A packet is answered with one frame, or makes segments go out. -/
theorem handle_credit (hl : h.tcp.Linked) (hq : h.tcp.AllQueues) (indet : Nat → Option Netif)
    (cbRet : ErrT) (netif : Netif) (p : Pbuf) (d : Handler) :
    let r := handle h indet cbRet netif (d, p)
    ((frames r.2.2.2).length : ℤ) ≤ r.2.2.1.tcp.credit - h.tcp.credit + 1 ∧
      r.2.2.1.tcp.AllQueues := by
  have hone : ∀ evs : List Event, (frames evs).length ≤ 1 →
      ((frames evs).length : ℤ) ≤ h.tcp.credit - h.tcp.credit + 1 := fun evs hle => by omega
  cases d with
  | arp => exact ⟨hone _ (length_frames_tArpInput h.arpTable netif p), hq⟩
  | icmp => exact ⟨hone _ (length_frames_tIcmpInput h.tcp.net netif p), hq⟩
  | udp =>
      cases hudp : tUdpInput h.udp p with
      | none =>
          simp only [handle, hudp]
          exact ⟨hone [] (Nat.zero_le 1), hq⟩
      | some r =>
          simp only [handle, hudp]
          exact ⟨hone r.2.2 (by rw [tUdpInput_frames hudp]; exact Nat.zero_le 1), hq⟩
  | tcp =>
      have hin := TcpHost.input_credit hl hq indet cbRet p
      have hqueues : (h.tcp.exec (.input p cbRet indet)).2.AllQueues := hq.exec trivial
      have hexec : (h.tcp.exec (.input p cbRet indet)).2 = (tTcpInput h.tcp indet cbRet p).2.2 := by
        simp only [TcpHost.exec]
      rw [hexec] at hqueues
      rw [handle_tcp_eq]
      generalize tTcpInput h.tcp indet cbRet p = r at hin hqueues ⊢
      exact ⟨hin, hqueues⟩
  | drop ret => exact ⟨hone [] (Nat.zero_le 1), hq⟩

/-- A frame that comes in. -/
theorem receive_credit (hl : h.tcp.Linked) (hq : h.tcp.AllQueues) (frame : List UInt8)
    (netif : Netif) (indet : Nat → Option Netif) (cbRet : ErrT) :
    let r := h.receive frame netif indet cbRet
    ((frames r.2).length : ℤ) ≤ r.1.tcp.credit - h.tcp.credit + 1 ∧ r.1.tcp.AllQueues := by
  unfold Host.receive
  cases hrecv : ether0RecvData h.pbufPool frame with
  | mk p pool =>
  cases p with
  | none =>
      refine ⟨?_, hq⟩
      have hsame : (h.setPbufPool pool).tcp.credit = h.tcp.credit := rfl
      simp only [hsame, frames_nil, List.length_nil]
      omega
  | some p =>
  obtain ⟨host, hhost⟩ : ∃ host, host = h.setPbufPool pool := ⟨_, rfl⟩
  have hl' : host.tcp.Linked := by
    rw [hhost]
    exact ⟨hl.head, hl.next⟩
  have hq' : host.tcp.AllQueues := by
    rw [hhost]
    exact hq
  have hsame : host.tcp.credit = h.tcp.credit := by
    rw [hhost]
    rfl
  simp only
  rw [← hhost, ← hsame]
  have hhandle := handle_credit hl' hq' indet cbRet netif (rawDemux p).2 (rawDemux p).1
  rw [tRawInput_evs]
  unfold tRawInput
  generalize handle host indet cbRet netif (rawDemux p) = r at hhandle
  obtain ⟨fate, q, h', evs⟩ := r
  cases fate with
  | returns ret => exact hhandle
  | hangs => exact hhandle
  | crashes => exact hhandle

/-- A call sends no more than its budget and what it gains. -/
theorem exec_credit (hl : h.tcp.Linked) (hq : h.tcp.AllQueues) {op : HostOp} (hop : h.Fair op) :
    ((frames (h.exec op).2).length : ℤ) ≤ (h.exec op).1.tcp.credit - h.tcp.credit + op.budget ∧
      (h.exec op).1.tcp.AllQueues := by
  have hone : ∀ evs : List Event, (frames evs).length ≤ 1 →
      ((frames evs).length : ℤ) ≤ h.tcp.credit - h.tcp.credit + ((1 : ℕ) : ℤ) :=
    fun evs hle => by omega
  cases op with
  | tcp op => exact ⟨TcpHost.exec_credit hl hq hop.1, hq.exec hop.1⟩
  | udp op => exact ⟨hone [] (Nat.zero_le 1), hq⟩
  | udpSend i p =>
      exact ⟨hone _ (length_frames_tUdpSend h.tcp.net h.pbufPool (h.udp.pcb i) p), hq⟩
  | arpRequest netif ip => exact ⟨hone _ (length_frames_tArpRequest h.pbufPool netif ip), hq⟩
  | receive frame netif indet cbRet => exact receive_credit hl hq frame netif indet cbRet

/-- **No amplification**: all frames that a host sends in a run, whatever comes in, are no more
than its calls and the frames that came in, one more for each connect, and the segment blocks. -/
theorem traffic_le (hb : h.tcp.Boot) (hn : (h.pbufPool.map Pbuf.id).Nodup) {ops : List HostOp}
    (hl : Run.Along (fun h op => (exec h op).1) Fair h ops) :
    Run.total (fun h op => (exec h op).1) (fun h op => (frames (exec h op).2).length) h ops ≤
      (ops.map HostOp.budget).sum + h.tcp.pools.segPool.length := by
  have htotal := Run.total_le (Φ := fun h : Host => h.tcp.credit) (b := HostOp.budget)
    (I := fun h' : Host => h'.tcp.Owned h.tcp.pools.segPool ∧ h'.tcp.AllQueues)
    (fun s op hs hop => ⟨exec_owned hs.1 hop, (exec_credit hs.1.linked hs.2 hop).2⟩)
    (fun s op hs hop => (exec_credit hs.1.linked hs.2 hop).1) ⟨hb.owned hn, hb.allQueues⟩ hl
  have howned := Run.final_of_along (P := fun h' : Host => h'.tcp.Owned h.tcp.pools.segPool)
    (fun _ _ ho hop => exec_owned ho hop) (hb.owned hn) hl
  have hle := TcpHost.credit_le (Run.final (fun h op => (exec h op).1) h ops).tcp
  have hblocks := howned.blocks.length_eq
  rw [List.length_append, List.length_map] at hblocks
  have hzero : h.tcp.credit = 0 := hb.credit
  simp only [hzero] at htotal
  omega

/-- A connect, and a frame that no layer knows. -/
theorem traffic_le_connect :
    let h : Host := ⟨sampleHost, .initial, []⟩
    let netif : Netif := ⟨0x0200000a, 0, 0, #v[0, 0, 0, 0, 0, 1]⟩
    let ops : List HostOp := [.tcp .new, .tcp sampleConnect,
      .receive (List.replicate 54 7) netif (fun _ => none) 0]
    Run.total (fun h op => (exec h op).1) (fun h op => (frames (exec h op).2).length) h ops ≤
      (ops.map HostOp.budget).sum + h.tcp.pools.segPool.length := by
  intro h netif ops
  refine traffic_le (TcpHost.initial_boot _ _) (by decide +kernel) ?_
  refine ⟨⟨trivial, trivial⟩, ⟨?_, trivial⟩, trivial, trivial⟩
  show (0 : TcpPcbId) ∉ _
  decide +kernel

end Host

end TTcp
