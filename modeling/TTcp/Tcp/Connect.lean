import TTcp.Tcp.Host

/-!
# TTcp.Tcp.Connect

What `t_tcp_connect` does to the control block.

The SYN takes one segment block, one pbuf and one queue slot.  If one of them
is missing, `t_tcp_connect` fails with the control block already registered
and in SYN_SENT; otherwise the SYN is queued, and sent if nothing is queued
before it.
-/

namespace TTcp

/-! ## queueing the SYN -/

/-- The loop of `t_tcp_enqueue` is left once something is queued and nothing
is left. -/
theorem tTcpEnqueueLoop_done {pcb : TcpPcb} {a : EnqueueArgs} {st : EnqueueState}
    (h : st.queue ≠ [] ∧ st.left = 0) (segPool : List SegId) :
    tTcpEnqueueLoop pcb a st segPool = .ok (segPool, st) := by
  cases segPool <;> rw [tTcpEnqueueLoop, if_pos h]

/-- A SYN as `t_tcp_connect` queues it: no data, four bytes of options. -/
structure TcpSeg.Syn (seg : TcpSeg) : Prop where
  tcphdr : seg.tcphdr = 34
  payload : seg.p.payload = 34
  plen : seg.p.len = 24
  len : seg.len = 0
  word : seg.word = 0x6002

/-- There is room for a SYN. -/
def SynRoom (pools : Pools) (pcb : TcpPcb) : Prop :=
  pools.segPool ≠ [] ∧ pools.pbufPool ≠ [] ∧ pcb.sndQueuelen < tTcpSndQueuelen

instance (pools : Pools) (pcb : TcpPcb) : Decidable (SynRoom pools pcb) := by
  unfold SynRoom
  infer_instance

section
variable {pools : Pools} {pcb : TcpPcb} (opt : ByteMem)

/-- The round that builds the SYN. -/
theorem tTcpEnqueueRound_syn (pcb : TcpPcb) {a : EnqueueArgs} (ha : a = ⟨none, 2, false, some opt, 4⟩)
    (id : SegId) {st : EnqueueState} (hst : st.left = 0) :
    (st.pbufPool = [] ∧ tTcpEnqueueRound pcb a id st = .error ([], none)) ∨
      ∃ p pbufPool, st.pbufPool = p :: pbufPool ∧
        (st.queuelen.toNat < 40 → ∃ seg, seg.Syn ∧ seg.p.totLen = 24 ∧ seg.p.ref = 1 ∧
          seg.seqno = st.seqno ∧ tTcpEnqueueRound pcb a id st = .ok { st with
            pbufPool
            queue := st.queue ++ [seg]
            queuelen := st.queuelen + 1
            seglen := 0 }) := by
  subst ha
  have halloc := tPbufAlloc_pool st.pbufPool tPbufTransport (4 : UInt8).toUInt16 (by decide)
  cases hp : st.pbufPool with
  | nil =>
      left
      rw [hp] at halloc
      refine ⟨rfl, ?_⟩
      simp only [tTcpEnqueueRound, enqueueAlloc, hp, halloc]
  | cons p0 pbufPool =>
      right
      rw [hp] at halloc
      refine ⟨p0, pbufPool, rfl, fun hql => ?_⟩
      obtain ⟨p, hpdef⟩ : ∃ p : Pbuf, p = { p0 with
          ref := 1
          payload := tPbufTransport.toNat
          totLen := (4 : UInt8).toUInt16
          len := (4 : UInt8).toUInt16 } := ⟨_, rfl⟩
      simp only [← hpdef] at halloc
      have hppay : p.payload = 54 := by rw [hpdef]; rfl
      have hpush := tPbufHeader_push p (n := 20) (by omega) (by omega)
      obtain ⟨q, hq⟩ : ∃ q : Pbuf, q = { p with
          payload := p.payload - 20
          totLen := p.totLen + UInt16.ofNat 20
          len := p.len + UInt16.ofNat 20 } := ⟨_, rfl⟩
      rw [← hq] at hpush
      have hqpay : q.payload = 34 := by rw [hq, hpdef]; rfl
      have hqlen : q.len = 24 := by rw [hq, hpdef]; rfl
      have hqtot : q.totLen = 24 := by rw [hq, hpdef]; rfl
      have hqref : q.ref = 1 := by rw [hq, hpdef]
      obtain ⟨q1, hq1⟩ : ∃ q1, q1 = tcphBuild q q.payload pcb.localPort pcb.remotePort st.seqno
          (2 : UInt8).toUInt16 := ⟨_, rfl⟩
      have hw1 := tcphBuild_writesOnly q q.payload pcb.localPort pcb.remotePort st.seqno
        (2 : UInt8).toUInt16
      rw [← hq1] at hw1
      obtain ⟨q2, hq2⟩ : ∃ q2, q2 = tTcphHdrlenSet q1 q1.payload (5 + (4 : UInt8).toUInt16 / 4) :=
        ⟨_, rfl⟩
      have hw2 := tTcphHdrlenSet_writesOnly q1 q1.payload (5 + (4 : UInt8).toUInt16 / 4)
      rw [← hq2] at hw2
      obtain ⟨q3, hq3⟩ : ∃ q3, q3 = q2.memcpy p.payload opt (4 : UInt8).toNat := ⟨_, rfl⟩
      have hw3 := Pbuf.WritesOnly.memcpy q2 p.payload opt (4 : UInt8).toNat
      rw [← hq3] at hw3
      have hpay1 : q1.payload = 34 := hw1.payload.trans hqpay
      have hpay3 : q3.payload = 34 := (hw3.payload.trans hw2.payload).trans hpay1
      refine ⟨⟨id, q3, 0, q3.payload⟩, ⟨hpay3, hpay3, ?_, rfl, ?_⟩, ?_, ?_, ?_, ?_⟩
      · exact ((hw3.len.trans hw2.len).trans hw1.len).trans hqlen
      · rw [TcpSeg.word, hpay3, hw3.tTcphWord_eq (h := 34) (by omega), hq2, hpay1, hq1, hqpay,
          tTcphWord_build_hdrlenSet]
        rfl
      · exact ((hw3.totLen.trans hw2.totLen).trans hw1.totLen).trans hqtot
      · exact ((hw3.ref.trans hw2.ref).trans hw1.ref).trans hqref
      · rw [TcpSeg.seqno, hpay3, hw3.tcphSeqno_eq (h := 34) (by omega),
          hw2.tcphSeqno_eq (h := 34) (by omega), hq1, hqpay, tcphSeqno_build]
      · have hle : ¬ tTcpSndQueuelen < st.queuelen + 1 := by
          rw [UInt8.lt_iff_toNat_lt, UInt8.toNat_add]
          simp only [tTcpSndQueuelen, show (40 : UInt8).toNat = 40 from rfl,
            show (1 : UInt8).toNat = 1 from rfl]
          omega
        have hseglen : (if pcb.mss.toNat < 0 then pcb.mss else UInt16.ofNat 0) = 0 :=
          if_neg (Nat.not_lt_zero _)
        have hzero : (0 : UInt16).toNat = 0 := rfl
        have hzero' : st.seqno + (0 : UInt16).toUInt32 = st.seqno := by simp
        simp only [tTcpEnqueueRound, enqueueAlloc, hp, halloc, if_neg hle, hseglen, hpush, tTcpHlen,
          ← hq1, ← hq2, ← hq3, ne_eq, not_true_eq_false, if_false, hzero, hzero', hst, Nat.sub_zero,
          Nat.add_zero]

/-- Queueing the SYN: it goes behind what is queued, if there is room. -/
theorem tTcpEnqueue_syn (pools : Pools) (pcb : TcpPcb) :
    let r := tTcpEnqueue pools pcb none 0 tcpSyn.toUInt8 false (some opt) 4
    (¬ SynRoom pools pcb → r.1 = -1 ∧ r.2.2 = pcb) ∧
      (SynRoom pools pcb → r.1 = 0 ∧ ∃ syn, syn.Syn ∧ syn.p.totLen = 24 ∧
        syn.p.ref = 1 ∧ syn.seqno = pcb.sndLbb ∧ r.2.2 = { pcb with
          unsent := pcb.unsent ++ [syn]
          sndLbb := pcb.sndLbb + 1
          sndBuf := pcb.sndBuf - 1
          sndQueuelen := pcb.sndQueuelen + 1 }) := by
  intro r
  have hr : r = tTcpEnqueue pools pcb none 0 tcpSyn.toUInt8 false (some opt) 4 := rfl
  rw [tTcpEnqueue, if_neg (by simp)] at hr
  by_cases hfull : tTcpSndQueuelen ≤ pcb.sndQueuelen
  · rw [if_pos hfull] at hr
    refine ⟨fun _ => by rw [hr]; exact ⟨rfl, rfl⟩, fun hroom => ?_⟩
    exact absurd hroom.2.2 (UInt8.not_lt.mpr hfull)
  rw [if_neg hfull] at hr
  have hql : pcb.sndQueuelen.toNat < 40 := by
    rw [UInt8.not_le, UInt8.lt_iff_toNat_lt] at hfull
    exact hfull
  obtain ⟨st, hst⟩ : ∃ st : EnqueueState, st = {
      pbufPool := pools.pbufPool
      queue := []
      left := (0 : UInt16).toNat
      seqno := pcb.sndLbb
      ptr := 0
      queuelen := pcb.sndQueuelen
      seglen := 0 } := ⟨_, rfl⟩
  have hqueue : ¬ (st.queue ≠ [] ∧ st.left = 0) := by rw [hst]; simp
  have hround := tTcpEnqueueRound_syn opt pcb (a := ⟨none, 2, false, some opt, 4⟩) rfl
  simp only [← hst] at hr
  cases hseg : pools.segPool with
  | nil =>
      have hloop : ∃ e, tTcpEnqueueLoop pcb ⟨none, tcpSyn.toUInt8, false, some opt, 4⟩ st
          pools.segPool = .error e := ⟨_, by rw [hseg, tTcpEnqueueLoop, if_neg hqueue]⟩
      obtain ⟨e, hloop⟩ := hloop
      rw [hloop] at hr
      refine ⟨fun _ => by rw [hr]; exact ⟨rfl, rfl⟩, fun hroom => absurd hseg hroom.1⟩
  | cons id segPool =>
      have hleft : st.left = 0 := by rw [hst]; rfl
      rcases hround id hleft with ⟨hnil, herr⟩ | ⟨p, pbufPool, hcons, hok⟩
      · have hloop : ∃ e, tTcpEnqueueLoop pcb ⟨none, tcpSyn.toUInt8, false, some opt, 4⟩ st
            pools.segPool = .error e := by
          rw [hseg, tTcpEnqueueLoop, if_neg hqueue]
          simp only [show tcpSyn.toUInt8 = 2 from rfl, herr]
          exact ⟨_, rfl⟩
        obtain ⟨e, hloop⟩ := hloop
        rw [hloop] at hr
        have hpool : pools.pbufPool = [] := by rw [hst] at hnil; exact hnil
        refine ⟨fun _ => by rw [hr]; exact ⟨rfl, rfl⟩, fun hroom => absurd hpool hroom.2.1⟩
      · obtain ⟨syn, hsyn, htot, href, hseq, hround⟩ := hok (by rw [hst]; exact hql)
        have hloop : tTcpEnqueueLoop pcb ⟨none, tcpSyn.toUInt8, false, some opt, 4⟩ st
            pools.segPool = .ok (segPool, { st with
              pbufPool
              queue := st.queue ++ [syn]
              queuelen := st.queuelen + 1
              seglen := 0 }) := by
          rw [hseg, tTcpEnqueueLoop, if_neg hqueue]
          simp only [show tcpSyn.toUInt8 = 2 from rfl, hround]
          refine tTcpEnqueueLoop_done ?_ _
          exact ⟨by simp, hleft⟩
        have hpool : pools.pbufPool ≠ [] := by
          rw [hst] at hcons
          simp only at hcons
          rw [hcons]
          simp
        refine ⟨fun hroom => absurd ⟨by simp [hseg], hpool, UInt8.not_le.mp hfull⟩ hroom, fun _ => ?_⟩
        have hlink : (enqueueLink pcb.mss tcpSyn.toUInt8 pcb.unsent [syn] segPool).1 =
            pcb.unsent ++ [syn] := by
          rw [enqueueLink_append]
          intro useg _
          rw [chains, show (tcpSyn.toUInt8.toUInt16 &&& (tcpSyn ||| tcpFin) == 0) = false from rfl,
            Bool.and_false, Bool.false_and]
        have hqnil : st.queue = [] := by rw [hst]
        have hstql : st.queuelen = pcb.sndQueuelen := by rw [hst]
        rw [hloop] at hr
        simp only [hqnil, List.nil_append, hlink, hstql] at hr
        rw [hr]
        refine ⟨rfl, syn, hsyn, htot, href, by rw [hseq, hst], ?_⟩
        simp

end

/-! ## sending the SYN -/

/-- A segment that is nothing but a SYN. -/
structure TcpSeg.BareSyn (seg : TcpSeg) : Prop where
  len : seg.len = 0
  word : seg.word = 0x6002

theorem TcpSeg.BareSyn.tcplen {seg : TcpSeg} (h : seg.BareSyn) : seg.tcplen = 1 := by
  rw [TcpSeg.tcplen, TcpSeg.flags_eq, h.word, h.len]
  rfl

theorem TcpSeg.BareSyn.syn {seg : TcpSeg} (h : seg.BareSyn) : seg.flags &&& tcpSyn ≠ 0 := by
  rw [TcpSeg.flags_eq, h.word]
  decide

/-- The SYN, alone on the unsent queue of a control block just connected, is
sent at once. -/
theorem tTcpOutput_syn (env : OutEnv) (pools : Pools) (pcb : TcpPcb) (syn : TcpSeg)
    (hst : pcb.state = .synSent) (hun : pcb.unsent = [syn]) (hsyn : syn.Syn)
    (hlast : pcb.lastack = syn.seqno) (hwnd : pcb.wnd = 1) :
    let r := tTcpOutput env pools pcb
    dataPackets r.2.2.2 = [] ∧ (r.2.2.1.Unroutable env.net ↔ pcb.Unroutable env.net) ∧
      ∃ syn' localIp rtime rttest rtseq sndMax, syn'.BareSyn ∧ syn'.p.ref = syn.p.ref ∧
        syn'.seqno = syn.seqno ∧ r.2.2.1 = { pcb with
          unsent := []
          unacked := unackedInsert pcb.unacked syn'
          sndNxt := syn.seqno + 1
          localIp, rtime, rttest, rtseq, sndMax } := by
  intro r
  have hr : r = tTcpOutput env pools pcb := rfl
  have hfit : syn.fits pcb.lastack pcb.wnd = true := by
    rw [TcpSeg.fits, hlast, hwnd, hsyn.len]
    simp
  obtain ⟨pcb0, hpcb0⟩ : ∃ pcb0 : TcpPcb, pcb0 = { pcb with unsent := [] } := ⟨_, rfl⟩
  have hst0 : pcb0.state = .synSent := by rw [hpcb0]; exact hst
  have hunacked0 : pcb0.unacked = pcb.unacked := by rw [hpcb0]
  have hroute0 : pcb0.Unroutable env.net ↔ pcb.Unroutable env.net := by rw [hpcb0]; exact Iff.rfl
  have hsyn0 : syn.outgoing pcb0.state = syn ∧ pcb0.outgoing = pcb0 := by
    rw [TcpSeg.outgoing, TcpPcb.outgoing, hst0]
    exact ⟨rfl, rfl⟩
  obtain ⟨⟨localIp, rtime, rttest, rtseq, hpcb, hlocal⟩, hfill, hno, hyes⟩ :=
    tTcpOutputSegment_spec env (env.indet 0) syn pcb0 hsyn.tcphdr hsyn.payload
  obtain ⟨o, ho⟩ : ∃ o, o = tTcpOutputSegment env (env.indet 0) syn pcb0 := ⟨_, rfl⟩
  have hr0 : o = tTcpOutputSegment env (env.indet 0) (syn.outgoing pcb0.state) pcb0.outgoing := by
    rw [hsyn0.1, hsyn0.2]
    exact ho
  obtain ⟨sndMax, hround⟩ := tTcpOutputRound_eq env pools hr0
  rw [← ho] at hpcb hfill hno hyes
  have hbare : o.1.BareSyn := ⟨hfill.len.trans hsyn.len, hfill.word.trans hsyn.word⟩
  have hseq : o.1.seqno = syn.seqno := hfill.seqno
  have hunacked : o.2.1.unacked = pcb.unacked := by rw [hpcb, hunacked0]
  rw [if_pos (by rw [hbare.tcplen]; exact Nat.zero_lt_one), hbare.tcplen, hseq, hunacked,
    show UInt32.ofNat 1 = 1 from rfl] at hround
  have hout : r = (errOk, pools,
      { o.2.1 with
        sndNxt := syn.seqno + 1
        sndMax := sndMax
        unacked := unackedInsert pcb.unacked o.1 }, o.2.2) := by
    rw [hr, tTcpOutput]
    simp only [hun, hfit, Bool.not_true, Bool.false_eq_true, and_false, if_false]
    simp only [tTcpOutputLoop, hfit, if_true, List.length_nil, ← hpcb0, hround, List.append_nil]
  rw [hout]
  refine ⟨?_, ?_, o.1, localIp, rtime, rttest, rtseq, sndMax, hbare, hfill.ref, hseq,
    by rw [hpcb, hpcb0]⟩
  · rw [dataPackets, List.filter_eq_nil_iff]
    intro q hq
    by_cases hu : pcb0.Unroutable env.net
    · rw [hno hu] at hq
      contradiction
    · obtain ⟨q', hq', hp⟩ := hyes hu
      rw [hq', List.mem_singleton] at hq
      subst hq
      have hnil : tcpPacketData q = [] := by
        rw [tcpPacketData, tTcphHdrlen, hp.word, hsyn.word, List.drop_eq_nil_iff, Pbuf.data,
          ByteMem.length_slice, hp.len, hsyn.plen]
        decide
      simp [hnil]
  · rw [← hroute0]
    simp only [TcpPcb.Unroutable, hpcb]
    constructor
    · rintro ⟨hl, hn⟩
      rcases hlocal with rfl | ⟨-, hne⟩
      · exact ⟨hl, hn⟩
      · exact absurd hn hne
    · rintro ⟨hl, hn⟩
      rcases hlocal with rfl | ⟨-, hne⟩
      · exact ⟨hl, hn⟩
      · exact absurd hn hne

/-! ## `t_tcp_connect` -/

/-- Connecting a control block with nothing unsent.  Without room for the SYN
the call fails, and what it did before stays; with room, the SYN is sent. -/
theorem tTcpConnect_spec (h : TcpHost) (indet : Nat → Option Netif) (i : TcpPcbId)
    (ipaddr : UInt32) (port : UInt16) (connected : Option Nat) (hun : (h.pcb i).unsent = []) :
    let r := tTcpConnect h indet i ipaddr port connected
    ∃ localPort iss pcb, pcb = tcpConnectPcb (h.pcb i) ipaddr port localPort iss connected ∧
      dataPackets r.1.evs = [] ∧ r.2.tcpActivePcbs = some i ∧
      (¬ SynRoom h.pools (h.pcb i) → r.1.fate = .returns (-1) ∧ r.2.pcb i = pcb) ∧
      (SynRoom h.pools (h.pcb i) → r.1.fate = .returns 0 ∧
        ((r.2.pcb i).Unroutable h.net ↔ pcb.Unroutable h.net) ∧
        ∃ syn localIp rtime rttest rtseq sndMax, syn.BareSyn ∧ syn.p.ref = 1 ∧
          syn.seqno = iss - 1 ∧ r.2.pcb i = { pcb with
            unacked := unackedInsert (h.pcb i).unacked syn
            sndNxt := iss
            sndLbb := iss
            sndBuf := (h.pcb i).sndBuf - 1
            sndQueuelen := (h.pcb i).sndQueuelen + 1
            localIp, rtime, rttest, rtseq, sndMax }) := by
  intro r
  obtain ⟨localPort, h1, hport⟩ : ∃ localPort h1, (if (h.pcb i).localPort = 0 then tTcpNewPort h
      else ((h.pcb i).localPort, h)) = (localPort, h1) := ⟨_, _, rfl⟩
  have hh1 : h1.pcb = h.pcb ∧ h1.pools = h.pools ∧ h1.net = h.net := by
    split at hport
    · rw [← (Prod.mk.inj hport).2]
      exact ⟨rfl, rfl, rfl⟩
    · rw [← (Prod.mk.inj hport).2]
      exact ⟨rfl, rfl, rfl⟩
  obtain ⟨hpcb1, hpools1, hnet1⟩ := hh1
  obtain ⟨iss, hiss⟩ : ∃ iss, iss = (tTcpNextIss h1).1 := ⟨_, rfl⟩
  obtain ⟨pcb, hpcb⟩ : ∃ pcb, pcb = tcpConnectPcb (h.pcb i) ipaddr port localPort iss connected :=
    ⟨_, rfl⟩
  obtain ⟨h2, hh2⟩ : ∃ h2, h2 = tTcpReg (tTcpNextIss h1).2 i := ⟨_, rfl⟩
  have hpools2 : h2.pools = h.pools := by rw [hh2]; exact hpools1
  have hnet2 : h2.net = h.net := by rw [hh2]; exact hnet1
  have hact2 : h2.tcpActivePcbs = some i := by rw [hh2]; rfl
  obtain ⟨e, he⟩ : ∃ e, e = tTcpEnqueue h.pools pcb none 0 tcpSyn.toUInt8 false
      (some (mssOption pcb.mss)) 4 := ⟨_, rfl⟩
  have hr : r = if e.1 = errOk then
        (⟨.returns e.1, some i, (tTcpOutput (h2.outEnv indet) e.2.1 e.2.2).2.2.2⟩,
          { h2.setPcb i (tTcpOutput (h2.outEnv indet) e.2.1 e.2.2).2.2.1 with
            pools := (tTcpOutput (h2.outEnv indet) e.2.1 e.2.2).2.1 })
      else (⟨.returns e.1, some i, []⟩, { h2.setPcb i e.2.2 with pools := e.2.1 }) := by
    have hpcb' : tcpConnectPcb ((tTcpNextIss h1).2.pcb i) ipaddr port localPort (tTcpNextIss h1).1
        connected = pcb := by
      rw [hpcb, hiss, ← hpcb1]
      rfl
    show tTcpConnect h indet i ipaddr port connected = _
    unfold tTcpConnect
    simp only [hport, hpcb', ← hh2, hpools2, ← he]
  obtain ⟨hfail, hok⟩ := tTcpEnqueue_syn (mssOption pcb.mss) h.pools pcb
  simp only [← he] at hfail hok
  have hroom : SynRoom h.pools pcb ↔ SynRoom h.pools (h.pcb i) := by
    rw [SynRoom, SynRoom, hpcb]
    exact Iff.rfl
  by_cases hr' : SynRoom h.pools (h.pcb i)
  · obtain ⟨hret, syn, hsyn, -, href, hseq, hpcb'⟩ := hok (hroom.mpr hr')
    rw [if_pos (show e.1 = errOk from hret)] at hr
    have hlbb : pcb.sndLbb = iss - 1 := by rw [hpcb]; rfl
    obtain ⟨hdata, hroute, syn', localIp, rtime, rttest, rtseq, sndMax, hbare, href', hseq',
        hpcb''⟩ :=
      tTcpOutput_syn (h2.outEnv indet) e.2.1 e.2.2 syn
        (by rw [hpcb', hpcb]; rfl)
        (by rw [hpcb', hpcb]; simp [tcpConnectPcb, hun]) hsyn
        (by rw [hseq, hlbb, hpcb', hpcb]; rfl) (by rw [hpcb', hpcb]; rfl)
    have hroute' : e.2.2.Unroutable h2.net ↔ pcb.Unroutable h.net := by
      rw [hpcb', hnet2]
      exact Iff.rfl
    refine ⟨localPort, iss, pcb, hpcb, by rw [hr]; exact hdata, by rw [hr]; exact hact2,
      fun hn => absurd hr' hn, fun _ => ⟨by rw [hr, hret], ?_, syn', localIp, rtime, rttest, rtseq,
        sndMax, hbare, href'.trans href, by rw [hseq', hseq, hlbb], ?_⟩⟩
    · rw [hr, ← hroute', hnet2.symm]
      simp only [TcpHost.setPcb_pcb_self]
      exact hroute
    · rw [hr]
      simp only [TcpHost.setPcb_pcb_self]
      have hunsent : pcb.unsent = [] := by rw [hpcb]; exact hun
      have hunacked : pcb.unacked = (h.pcb i).unacked := by rw [hpcb]; rfl
      have hbuf : pcb.sndBuf = (h.pcb i).sndBuf := by rw [hpcb]; rfl
      have hql : pcb.sndQueuelen = (h.pcb i).sndQueuelen := by rw [hpcb]; rfl
      rw [hpcb'', hpcb', hseq, hlbb, UInt32.sub_add_cancel]
      simp only [hunsent, hunacked, hbuf, hql]
  · obtain ⟨hret, hpcb'⟩ := hfail fun h' => hr' (hroom.mp h')
    rw [if_neg (show ¬ e.1 = errOk by rw [hret]; decide)] at hr
    refine ⟨localPort, iss, pcb, hpcb, by rw [hr]; rfl, by rw [hr]; exact hact2,
      fun _ => ⟨by rw [hr, hret], ?_⟩, fun h' => absurd h' hr'⟩
    rw [hr]
    simp only [TcpHost.setPcb_pcb_self]
    exact hpcb'

end TTcp
