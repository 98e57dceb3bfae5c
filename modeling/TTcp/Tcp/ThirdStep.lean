import TTcp.Ip.Netif
import TTcp.Tcp.Accept
import TTcp.Tcp.Handed
import TTcp.Tcp.Handshake
import TTcp.Tcp.Mss

/-!
# TTcp.Tcp.ThirdStep

The third step of the handshake.

Accepting the SYN|ACK makes an acknowledgement due, and `t_tcp_output` sends it
with the first segment that fits the window, or alone when none does: one
branch covers what the other leaves (`tTcpOutput_acks_iff`).  The empty
acknowledgement always finds a pbuf, as the SYN has just given its own back.
A segment that fits is dropped when there is no local address and no route to
find one by, but `t_netif_add` makes every interface the default one, so there
is a route once a SYN|ACK can come in (`third_step`).
-/

namespace TTcp

/-! ## an acknowledgement that is due -/

/-- The first packet acknowledges all that was received and comes next in the
sequence, and no acknowledgement is due any more. -/
structure AckSent (pcb pcb' : TcpPcb) (evs : List Event) : Prop where
  first : ∃ q qs, ipPackets evs = q :: qs ∧ pcb.AckedBy q ∧ tcpPacketSeqno q = pcb.sndNxt
  flag : pcb'.flags &&& tfAckNow = 0

theorem clear_and_tfAckNow (f : UInt8) : f &&& ~~~(tfAckDelay ||| tfAckNow) &&& tfAckNow = 0 := by
  rw [UInt8.and_assoc, show ~~~(tfAckDelay ||| tfAckNow) &&& tfAckNow = 0 from by decide,
    UInt8.and_zero]

theorem or_tfAckNow_ne_zero (f : UInt8) : (f ||| tfAckNow) &&& tfAckNow ≠ 0 := by
  rw [show (f ||| tfAckNow) &&& tfAckNow = (f &&& tfAckNow) ||| (tfAckNow &&& tfAckNow) from
    UInt8.toBitVec_inj.1 BitVec.and_or_distrib_right]
  exact fun h => absurd (UInt8.or_eq_zero_iff.mp h).2 (by decide)

/-- The header of an empty acknowledgement. -/
theorem tcpAckBuild_ackedBy (pcb : TcpPcb) (p : Pbuf) :
    pcb.AckedBy (tcpAckBuild pcb p p.payload) ∧
      tcpPacketSeqno (tcpAckBuild pcb p p.payload) = pcb.sndNxt := by
  have hpay := (tcpAckBuild_spec pcb p p.payload).1
  obtain ⟨h, hh⟩ : ∃ h, h = p.payload := ⟨_, rfl⟩
  rw [← hh] at hpay ⊢
  refine ⟨⟨?_, ?_⟩, ?_⟩
  · rw [hpay, tTcphFlags, tTcphWord_ackBuild]
    decide
  · rw [hpay, tcpAckBuild]
    simp (disch := omega) only [tTcphFlagsSet, tTcphHdrlenSet, Pbuf.set16_mem, Pbuf.set32_mem,
      ByteMem.get32_set16_of_disjoint, ByteMem.get32_set32_self]
    exact htonl_htonl _
  · rw [tcpPacketSeqno, hpay, tcphSeqno, tcpAckBuild]
    simp (disch := omega) only [tTcphFlagsSet, tTcphHdrlenSet, Pbuf.set16_mem, Pbuf.set32_mem,
      ByteMem.get32_set16_of_disjoint, ByteMem.get32_set32_of_disjoint, ByteMem.get32_set32_self]
    exact htonl_htonl _

section
variable (env : OutEnv) (pools : Pools)

/-- Outside SYN_SENT, a round clears what its segment acknowledges. -/
theorem tTcpOutputRound_flags (indet : Option Netif) (pcb : TcpPcb) (hst : pcb.state ≠ .synSent)
    (seg : TcpSeg) : (tTcpOutputRound env indet pools pcb seg).2.1.flags &&& tfAckNow = 0 := by
  obtain ⟨r, hr⟩ : ∃ r, r = tTcpOutputSegment env indet (seg.outgoing pcb.state) pcb.outgoing :=
    ⟨_, rfl⟩
  obtain ⟨sndMax, hround⟩ := tTcpOutputRound_eq env pools hr
  obtain ⟨-, -, hflags, -⟩ := tTcpOutputSegment_handed env indet (seg.outgoing pcb.state)
    pcb.outgoing
  have hclear : r.2.1.flags &&& tfAckNow = 0 := by
    rw [hr, hflags, TcpPcb.outgoing, if_pos hst]
    exact clear_and_tfAckNow _
  rw [hround]
  split
  · exact hclear
  · exact hclear

theorem tTcpOutputLoop_flags (wnd : UInt32) {pcb : TcpPcb} (hst : pcb.state ≠ .synSent)
    (hflags : pcb.flags &&& tfAckNow = 0) (unsent : List TcpSeg) :
    (tTcpOutputLoop env wnd pools pcb unsent).2.1.flags &&& tfAckNow = 0 := by
  induction unsent generalizing pools pcb with
  | nil => exact hflags
  | cons seg rest ih =>
      obtain ⟨r, hr⟩ : ∃ r, r = tTcpOutputRound env (env.indet rest.length) pools
          { pcb with unsent := rest } seg := ⟨_, rfl⟩
      have hst' : r.2.1.state ≠ .synSent := by
        rw [hr, tTcpOutputRound_state]
        exact hst
      have hflags' : r.2.1.flags &&& tfAckNow = 0 := by
        rw [hr]
        exact tTcpOutputRound_flags env pools _ { pcb with unsent := rest } hst seg
      rw [tTcpOutputLoop]
      simp only [← hr]
      split
      · exact ih r.1 hst' hflags'
      · exact hflags

/-- With a free pbuf, an acknowledgement alone is sent. -/
theorem tTcpOutputAck_ackSent (pcb : TcpPcb) (hpool : pools.pbufPool ≠ []) :
    AckSent pcb (tTcpOutputAck env pools pcb).2.2.1 (tTcpOutputAck env pools pcb).2.2.2 := by
  obtain ⟨p0, rest, hp0⟩ := List.exists_cons_of_ne_nil hpool
  obtain ⟨p, hp⟩ : ∃ p : Pbuf, p = { p0 with
      ref := 1
      payload := tPbufIp.toNat
      totLen := UInt16.ofNat tTcpHlen
      len := UInt16.ofNat tTcpHlen } := ⟨_, rfl⟩
  obtain ⟨pcb', hpcb⟩ : ∃ pcb' : TcpPcb,
      pcb' = { pcb with flags := pcb.flags &&& ~~~(tfAckDelay ||| tfAckNow) } := ⟨_, rfl⟩
  obtain ⟨⟨hflag, hackno⟩, hseqno⟩ := tcpAckBuild_ackedBy pcb' p
  have halloc : tPbufAlloc pools.pbufPool tPbufIp (UInt16.ofNat tTcpHlen) tPbufFlagPool =
      (some p, rest) := by
    rw [tPbufAlloc_pool _ _ _ (by decide), hp0, hp]
  unfold tTcpOutputAck
  simp only [halloc, ← hpcb]
  refine ⟨⟨_, [], by rw [ipPackets]; exact tIpOutput_ipPackets .., ⟨hflag, ?_⟩, ?_⟩, ?_⟩
  · rw [hackno, hpcb]
  · rw [hseqno, hpcb]
  · rw [hpcb]
    exact clear_and_tfAckNow _

variable {env pools} {pcb : TcpPcb}

/-- **An acknowledgement that is due** is sent, alone or with the first segment,
unless that segment has no route. -/
theorem tTcpOutput_acks_iff (hst : pcb.state ≠ .synSent) (hdue : pcb.flags &&& tfAckNow ≠ 0)
    (hpool : pools.pbufPool ≠ []) (hnext : ∀ seg ∈ pcb.unsent.head?, seg.seqno = pcb.sndNxt) :
    AckSent pcb (tTcpOutput env pools pcb).2.2.1 (tTcpOutput env pools pcb).2.2.2 ↔
      ¬ pcb.Unroutable env.net ∨ pcb.PassesNone := by
  by_cases hpass : pcb.PassesNone
  · refine iff_of_true ?_ (.inr hpass)
    rw [tTcpOutput_of_acksOnly env pools ⟨hdue, hpass⟩]
    exact tTcpOutputAck_ackSent env pools pcb hpool
  · have hack : ¬ pcb.AcksOnly := fun hack => hpass hack.2
    obtain ⟨seg, hseg, hfit⟩ : ∃ seg ∈ pcb.unsent.head?, seg.fits pcb.lastack pcb.wnd := by
      simpa [TcpPcb.PassesNone] using hpass
    obtain ⟨rest, hun⟩ : ∃ rest, pcb.unsent = seg :: rest := List.head?_eq_some_iff.mp hseg
    obtain ⟨r, hr⟩ : ∃ r, r = tTcpOutputRound env (env.indet rest.length) pools
        { pcb with unsent := rest } seg := ⟨_, rfl⟩
    have hloop : tTcpOutput env pools pcb = (errOk,
        (tTcpOutputLoop env pcb.wnd r.1 r.2.1 rest).1,
        (tTcpOutputLoop env pcb.wnd r.1 r.2.1 rest).2.1,
        r.2.2 ++ (tTcpOutputLoop env pcb.wnd r.1 r.2.1 rest).2.2) := by
      rw [tTcpOutput_of_not_acksOnly env pools hack, hun, tTcpOutputLoop, if_pos hfit]
      simp only [← hr]
    by_cases hu : pcb.Unroutable env.net
    · refine iff_of_false ?_ (by rintro (h | h); exacts [h hu, hpass h])
      rintro ⟨⟨q, qs, hq, -⟩, -⟩
      obtain ⟨gone, -, -, -, -, hno, -⟩ :=
        tTcpOutputLoop_handed env pools pcb.wnd (rfl : pcb.unsent = _)
      rw [tTcpOutput_of_not_acksOnly env pools hack] at hq
      rw [hno hu] at hq
      contradiction
    · refine iff_of_true ?_ (.inl hu)
      obtain ⟨-, -, hyes⟩ := tTcpOutputRound_handed env pools (env.indet rest.length)
        { pcb with unsent := rest } seg
      rw [← hr] at hyes
      obtain ⟨q, hq, hqs, hacked⟩ := hyes hu
      obtain ⟨hflag, hackno⟩ := hacked hst
      rw [hloop]
      refine ⟨⟨q, ipPackets (tTcpOutputLoop env pcb.wnd r.1 r.2.1 rest).2.2, ?_, ⟨hflag, hackno⟩,
        ?_⟩, ?_⟩
      · rw [ipPackets_append, hq]
        rfl
      · rw [hqs.seqno, hnext seg hseg]
      · refine tTcpOutputLoop_flags env r.1 pcb.wnd ?_ ?_ rest
        · rw [hr, tTcpOutputRound_state]
          exact hst
        · rw [hr]
          exact tTcpOutputRound_flags env pools _ { pcb with unsent := rest } hst seg

end

/-! ## accepting the SYN|ACK -/

/-- The third step of the handshake begun by `syn`, in answer to the segment
`s`: the first packet acknowledges it. -/
structure ThirdStepSent (syn : TcpSeg) (s : Incoming) (pcb' : TcpPcb) (evs : List Event) :
    Prop where
  first : ∃ q qs, ipPackets evs = q :: qs ∧ tTcphFlags q.mem q.payload &&& tcpAck ≠ 0 ∧
    tcpPacketSeqno q = syn.seqno + 1 ∧ ntohl (q.mem.get32 (q.payload + 8)) = s.seqno + 1
  flag : pcb'.flags &&& tfAckNow = 0

section
variable {first : UInt32} {pcb pcb' : TcpPcb} {syn : TcpSeg} {rest : List UInt8}

/-- The SYN stays what it is until it is acknowledged. -/
theorem SynSent.unacked_step (h : SynSent first pcb syn rest) {net : Net} {i : TcpPcbId}
    {op : TcpOp} {evs : List Event} {bytes : List UInt8}
    (hstep : PcbStep net i pcb op pcb' evs bytes) (hst : pcb'.state = .synSent) :
    pcb'.unacked = pcb.unacked := by
  cases hstep with
  | idle => rfl
  | write pools arg len copy =>
      obtain ⟨-, ⟨_, _, _, _, hpcb⟩, -⟩ := h.sender.write pools arg len copy
      rw [hpcb]
  | output env pools indet hnet => rw [h.output env pools]
  | receive env pools p cbRet indet s k hnet hhdr hmatch =>
      have hsess := (Connected.synSent h).receive_session env cbRet pools s
      obtain ⟨-, ⟨htouch, -⟩ | ⟨-, -, -, rseg, unacked, wnd, mss, flags, -, -, -, hpcb, -⟩⟩ :=
        tTcpProcess_cases env cbRet pools pcb s
      · have ht : SynSent first (pcb.touch env.tcpTicks) syn rest :=
          ⟨h.sender.touch _, h.state, h.bare, h.seqno, h.lastack, h.cwnd, h.sndWnd, h.flags⟩
        obtain ⟨hr, -⟩ | ⟨hr, -⟩ := tTcpReceive_eq pcb env cbRet pools s
        · rw [hr, htouch]
          rfl
        · rw [hr, htouch, ht.output]
          rfl
      · rw [hsess.state, hpcb] at hst
        cases hst

/-- In SYN_SENT, the third step is taken at once, unless data goes out with it
and has no route. -/
theorem SynSent.ack_iff (h : SynSent first pcb syn rest) (href : syn.p.ref = 1) (env : OutEnv)
    {cbRet : ErrT} (pools : Pools) {s : Incoming} (hacc : pcb.Accepts s) (hopt : s.options ≠ none)
    (hcb : pcb.connected = none ∨ cbRet = errOk) :
    let r := tTcpReceive env cbRet pools pcb s
    ThirdStepSent syn s r.2.2.1 r.2.2.2.2 ↔ ¬ pcb.Unroutable env.net ∨
      ∀ seg ∈ pcb.unsent.head?, ¬ seg.fits s.ackno (openedWnd pcb s) := by
  obtain ⟨rseg, unacked, p, hcons, hack, -, hreturns⟩ :=
    tTcpProcess_of_accepts env cbRet pools hacc
  have hunacked := h.sender.unacked
  rw [hcons, List.cons_append, List.nil_append, List.cons.injEq] at hunacked
  obtain ⟨rfl, rfl⟩ := hunacked
  obtain ⟨mss, hmss⟩ := Option.ne_none_iff_exists'.mp hopt
  have herr : (if pcb.connected = none then 0 else cbRet) = errOk := by
    rcases hcb with hno | hok
    · rw [if_pos hno]
      rfl
    · rw [hok]
      exact ite_self _
  obtain ⟨pcb1, hpcb1⟩ : ∃ pcb1, pcb1 = { tcpAcceptPcb (pcb.touch env.tcpTicks) s s.wnd [] with
      mss := negotiatedMss pcb.mss mss, flags := pcb.flags ||| tfAckNow } := ⟨_, rfl⟩
  obtain ⟨pools1, hpools1⟩ : ∃ pools1, pools1 = (tTcpSegFree pools rseg.block).2 := ⟨_, rfl⟩
  have hproc := hreturns mss hmss
  rw [herr, ← hpcb1, ← hpools1] at hproc
  intro r
  have hr : r.2.2.1 = (tTcpOutput env pools1 pcb1).2.2.1 ∧
      ipPackets r.2.2.2.2 = ipPackets (tTcpOutput env pools1 pcb1).2.2.2 := by
    have hevs : ipPackets (pcb.connected.toList.map fun fn => .tcpConnected fn errOk) = [] := by
      cases pcb.connected <;> rfl
    show (tTcpReceive env cbRet pools pcb s).2.2.1 = _ ∧
      ipPackets (tTcpReceive env cbRet pools pcb s).2.2.2.2 = _
    rw [tTcpReceive, hproc]
    simp only [↓reduceIte]
    refine ⟨trivial, ?_⟩
    rw [ipPackets_append, hevs, List.nil_append]
  have hfirst : pcb.sndNxt = rseg.seqno + 1 := by
    have hnxt := h.sender.sndNxt_eq
    rw [hnxt, h.seqno, UInt32.sub_add_cancel]
    simp
  have hsent : AckSent pcb1 (tTcpOutput env pools1 pcb1).2.2.1 (tTcpOutput env pools1 pcb1).2.2.2 ↔
      ThirdStepSent rseg s r.2.2.1 r.2.2.2.2 := by
    have hnxt : pcb1.sndNxt = rseg.seqno + 1 := by rw [hpcb1]; exact hfirst
    have hrcv : pcb1.rcvNxt = s.seqno + 1 := by rw [hpcb1]; rfl
    constructor
    · rintro ⟨⟨q, qs, hq, ⟨hflag, hackno⟩, hseq⟩, hclear⟩
      exact ⟨⟨q, qs, hr.2.trans hq, hflag, hseq.trans hnxt, hackno.trans hrcv⟩, by
        rw [hr.1]; exact hclear⟩
    · rintro ⟨⟨q, qs, hq, hflag, hseq, hackno⟩, hclear⟩
      exact ⟨⟨q, qs, hr.2.symm.trans hq, ⟨hflag, hackno.trans hrcv.symm⟩, hseq.trans hnxt.symm⟩, by
        rw [← hr.1]; exact hclear⟩
  have hst : pcb1.state ≠ .synSent := by
    rw [hpcb1]
    exact show TcpState.established ≠ .synSent by decide
  have hdue : pcb1.flags &&& tfAckNow ≠ 0 := by
    rw [hpcb1]
    exact or_tfAckNow_ne_zero _
  have hpool : pools1.pbufPool ≠ [] := by
    rw [hpools1]
    simp [tTcpSegFree, TcpSeg.block, tPbufFree, tPbufFreeLoop, href, Pbuf.flags]
  have hnext : ∀ seg ∈ pcb1.unsent.head?, seg.seqno = pcb1.sndNxt := by
    rw [hpcb1]
    intro seg hseg
    obtain ⟨q, hun⟩ : ∃ q, pcb.unsent = seg :: q := List.head?_eq_some_iff.mp hseg
    have hq := h.sender.rest_queue
    rw [hun] at hq
    exact (dataQueue_cons.mp hq).2.2.1
  have hroute : pcb1.Unroutable env.net ↔ pcb.Unroutable env.net := by
    rw [hpcb1]
    exact Iff.rfl
  have hpass : pcb1.PassesNone ↔
      ∀ seg ∈ pcb.unsent.head?, ¬ seg.fits s.ackno (openedWnd pcb s) := by
    rw [hpcb1]
    exact Iff.rfl
  rw [← hsent, tTcpOutput_acks_iff hst hdue hpool hnext, hroute, hpass]

end

/-! ## runs -/

namespace ConnectedOnce

variable {h : TcpHost} {i : TcpPcbId} {pre post : List TcpOp} {c : TcpOp}

/-- In SYN_SENT, the SYN of the connect waits alone, and it alone holds its
pbuf. -/
theorem syn_waits (r : ConnectedOnce h i pre c post)
    (hst : ((Run.final TcpHost.step h (pre ++ c :: post)).pcb i).state = .synSent) :
    ∃ syn rest, ((connectedHost h pre c).pcb i).unacked = [syn] ∧ syn.p.ref = 1 ∧
      SynSent ((connectedHost h pre c).pcb i).sndLbb
        ((Run.final TcpHost.step h (pre ++ c :: post)).pcb i) syn rest := by
  obtain ⟨hpool, syn, hsyn, href⟩ := r.synSent_ref
  have hunacked : ((connectedHost h pre c).pcb i).unacked = [syn] := hsyn.sender.unacked
  obtain ⟨-, hend⟩ : i ∉ (Run.final TcpHost.step h (pre ++ c :: post)).tcpPcbPool ∧
      ((∃ rest, SynSent ((connectedHost h pre c).pcb i).sndLbb
        ((Run.final TcpHost.step h (pre ++ c :: post)).pcb i) syn rest) ∨
        ∃ data sent rest, Established ((connectedHost h pre c).pcb i).sndLbb
          ((Run.final TcpHost.step h (pre ++ c :: post)).pcb i) data sent rest) := by
    rw [Run.final_append, Run.final_cons]
    refine Run.final_of_along (P := fun h' => i ∉ h'.tcpPcbPool ∧
        ((∃ rest, SynSent ((connectedHost h pre c).pcb i).sndLbb (h'.pcb i) syn rest) ∨
          ∃ data sent rest, Established ((connectedHost h pre c).pcb i).sndLbb (h'.pcb i) data
            sent rest))
      (fun h' op hs hop => ?_) ⟨hpool, .inl ⟨_, hsyn⟩⟩ r.legal_post
    obtain ⟨hpool, hphase⟩ := hs
    have hstep := h'.exec_pcbStep op hpool hop.2
    refine ⟨h'.not_mem_tcpPcbPool_exec hpool, ?_⟩
    rcases hphase with ⟨rest, hs⟩ | ⟨data, sent, rest, hs⟩
    · obtain ⟨new, rest', hconn, -⟩ := (Connected.synSent hs).step hstep
      cases hconn with
      | established h1 => exact .inr ⟨_, _, _, h1⟩
      | @synSent syn' rest' h1 =>
          have hsame := hs.unacked_step hstep h1.state
          rw [hs.sender.unacked, h1.sender.unacked] at hsame
          obtain rfl : syn' = syn := List.head_eq_of_cons_eq hsame
          exact .inl ⟨_, h1⟩
    · obtain ⟨new, rest', hconn, -⟩ := (Connected.established hs).step hstep
      generalize sent ++ new = sent' at hconn
      cases hconn with
      | established h1 => exact .inr ⟨_, _, _, h1⟩
      | synSent h1 => exact absurd (h1.state.symm.trans (hs.state_step hstep)) (by decide)
  rcases hend with ⟨rest, hs⟩ | ⟨_, _, _, hs⟩
  · exact ⟨syn, rest, hunacked, href, hs⟩
  · exact absurd (hst.symm.trans hs.state) (by decide)

/-- **The third step** of the handshake is taken at once, whatever the pools
hold and whatever interfaces have been set up, when the SYN|ACK comes in by one
of them. -/
theorem third_step (r : ConnectedOnce h i pre c post) (pools : Pools) {net : Net} (hnet : net.Built)
    {inp : Netif} (hinp : inp ∈ net.netifList) {p : Pbuf} {cbRet : ErrT}
    {indet : Nat → Option Netif} {s : Incoming} {k : TcpKey} :
    let h' := { Run.final TcpHost.step h (pre ++ c :: post) with pools, net }
    let out := h'.exec (.input p cbRet indet)
    (tTcpInputHeader p).2 = some (s, k) → out.1.pcb = some i → (h'.pcb i).Accepts s →
    s.options ≠ none → ((h'.pcb i).connected = none ∨ cbRet = errOk) →
    ∃ syn, ((connectedHost h pre c).pcb i).unacked = [syn] ∧
      ThirdStepSent syn s (out.2.pcb i) out.1.evs := by
  intro h' out hhdr hfor hacc hopt hcb
  obtain ⟨syn, rest, hunacked, href, hsyn⟩ := r.syn_waits hacc.1
  refine ⟨syn, hunacked, ?_⟩
  have hexec : out = ((tTcpInput h' indet cbRet p).1, (tTcpInput h' indet cbRet p).2.2) := by
    show h'.exec (.input p cbRet indet) = _
    simp only [TcpHost.exec]
  obtain ⟨hnone, -⟩ | ⟨j, prev, s', k', hhdr', -, -, hout, hpost⟩ :=
    TcpHost.tTcpInput_cases h' indet cbRet p
  · have hnone' : out.1.pcb = none := by rw [hexec, hnone]
    exact absurd (hnone'.symm.trans hfor) (by simp)
  · rw [hhdr] at hhdr'
    obtain ⟨rfl, rfl⟩ : s = s' ∧ k = k' := by simpa using hhdr'
    have hfor' : out.1.pcb = some j := by rw [hexec, hout]
    obtain rfl : j = i := Option.some.inj (hfor'.symm.trans hfor)
    have hpcb : out.2.pcb j =
        (tTcpReceive (h'.outEnv indet) cbRet h'.pools (h'.pcb j) s).2.2.1 := by
      rw [hexec, hpost]
      exact TcpHost.setPcb_pcb_self _ j _
    have hevs : out.1.evs =
        (tTcpReceive (h'.outEnv indet) cbRet h'.pools (h'.pcb j) s).2.2.2.2 := by
      rw [hexec, hout]
    have hroute : ¬ (h'.pcb j).Unroutable net := fun hu =>
      hnet.tIpRoute_ne_none hinp _ hu.2
    rw [hpcb, hevs]
    exact (hsyn.ack_iff href (h'.outEnv indet) h'.pools hacc hopt hcb).mpr (.inl hroute)

/-- A byte is written before the SYN|ACK comes, and then no pbuf is free. -/
theorem sampleRun_third_step :
    let h' := { Run.final TcpHost.step sampleHost
      ([.new] ++ sampleConnect :: [.write 0 (fun _ => 0) 1 true]) with
        pools := ⟨[], []⟩
        net := sampleNet }
    let out := h'.exec (.input (sampleSynAck 100) 0 fun _ => none)
    ∃ syn, ((connectedHost sampleHost [.new] sampleConnect).pcb 0).unacked = [syn] ∧
      ThirdStepSent syn (sampleSegment 100).1 (out.2.pcb 0) out.1.evs := by
  refine third_step (k := (sampleSegment 100).2) (sampleRun (by simp [TcpOp.OnlyUses])) ⟨[], []⟩
    (Net.built_singleton _) List.mem_cons_self (sampleSegment_eq (by decide +kernel))
    (by decide +kernel) ⟨?_, ?_, ?_, ?_⟩ ?_ ?_
  · decide +kernel
  · decide +kernel
  · decide +kernel
  · have hany : (((Run.final TcpHost.step sampleHost ([.new] ++ sampleConnect ::
        [.write 0 (fun _ => 0) 1 true])).pcb 0).unacked.head?.any fun rseg =>
          (sampleSegment 100).1.ackno == rseg.seqno + 1) = true := by decide +kernel
    obtain ⟨rseg, hrseg, hack⟩ := exists_mem_of_any hany
    exact ⟨rseg, hrseg, by simpa using hack⟩
  · exact Option.isSome_iff_ne_none.mp (by decide +kernel)
  · exact .inl (Option.isNone_iff_eq_none.mp (by decide +kernel))

end ConnectedOnce

end TTcp
