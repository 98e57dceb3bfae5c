import TTcp.Tcp.Batch
import TTcp.Tcp.Keepalive

/-!
# TTcp.Tcp.Bounds

Do the TCP layer's writes stay inside their buffers?

A pbuf records the end of the furthest byte ever written to it, and nothing
but the record of a free pbuf survives its next use.  So it is enough to look
at the pbufs on the free list and in the queues after every call, and at the
segments under construction (`EnqueueSafe`), whose pbufs are forgotten when
they are chained.  The room for headers, data and options, the cap on the
`mss` and the test for chaining keep all of them inside (`buffers_safe`), and
every `t_pbuf_header` call on a segment succeeds.
-/

namespace TTcp

/-! ## one buffer -/

/-- No byte behind the buffer was ever written. -/
def Pbuf.Inside (p : Pbuf) : Prop := p.wrEnd ≤ tPbufBufsize

section
variable {p : Pbuf} {o : Nat}

theorem Pbuf.Inside.set16 (hp : p.Inside) (ho : o + 2 ≤ 1514) (v : UInt16) :
    (p.set16 o v).Inside := max_le hp ho

theorem Pbuf.Inside.set32 (hp : p.Inside) (ho : o + 4 ≤ 1514) (v : UInt32) :
    (p.set32 o v).Inside := max_le hp ho

theorem Pbuf.Inside.memcpy (hp : p.Inside) {n : Nat} (ho : o + n ≤ 1514) (src : ByteMem) :
    (p.memcpy o src n).Inside := by
  unfold Pbuf.Inside Pbuf.memcpy
  simp only
  split
  · exact hp
  · exact max_le hp ho

theorem Pbuf.Inside.header (hp : p.Inside) (i : Int) : (tPbufHeader p i).2.Inside := by
  rwa [Pbuf.Inside, tPbufHeader_wrEnd]

theorem Pbuf.Inside.ipHdrWrite {h : Nat} (hp : p.Inside) (hh : h + 20 ≤ 1514) (src : UInt32)
    (dst : AddrPtr) (ttl tos proto : UInt8) : (ipHdrWrite p h src dst ttl tos proto).Inside := by
  unfold TTcp.ipHdrWrite tIphTtlSet tIphProtoSet ipHdrDstSet tIphVhltosSet tIphLenSet tIphChksumSet
  exact (((((((((hp.set16 (by omega) _).set16 (by omega) _).set32 (by omega) _).set16 (by omega)
    _).set16 (by omega) _).set16 (by omega) _).set32 (by omega) _).set16 (by omega) _).set16
    (by omega) _)

theorem Pbuf.Inside.ethHdrWrite {h : Nat} (hp : p.Inside) (hh : h + 14 ≤ 1514)
    (dstMac srcMac : Vector UInt8 6) : (ethHdrWrite p h dstMac srcMac).Inside := by
  unfold TTcp.ethHdrWrite
  exact ((hp.memcpy (by omega) _).memcpy (by omega) _).set16 (by omega) _

end

/-- The two `t_pbuf_header` calls that `t_ip_output` makes on its packet
succeed. -/
def Event.PushesHeaders : Event → Prop
  | .ipOutput _ p _ dst ttl tos proto => (tPbufHeader p (-20)).1 = 0 ∧ ∀ addr,
      (tPbufHeader (ipHdrWrite (tPbufHeader p (-20)).2 (tPbufHeader p (-20)).2.payload addr dst ttl
        tos proto) (-14)).1 = 0
  | _ => True

/-- In front of a TCP header there is room for the two other headers. -/
theorem tIpOutput_inside {p : Pbuf} (h34 : p.payload = 34) (hp : p.Inside) (net : Net)
    (indet : Option Netif) (arg : NetifArg) (src : Option UInt32) (dst : AddrPtr)
    (ttl tos proto : UInt8) :
    (tIpOutput net indet arg p src dst ttl tos proto).2.1.Inside ∧
      ∀ e ∈ (tIpOutput net indet arg p src dst ttl tos proto).2.2, e.PushesHeaders := by
  have hpush20 := tPbufHeader_push p (n := 20) (by omega) (by omega)
  obtain ⟨q, hq⟩ : ∃ q, q = (tPbufHeader p (-20)).2 := ⟨_, rfl⟩
  have hq14 : q.payload = 14 := by
    rw [hq, show (-20 : Int) = -((20 : Nat) : Int) from rfl, hpush20, h34]
  have hqin : q.Inside := hq ▸ hp.header _
  have hw : ∀ addr, (ipHdrWrite q q.payload addr dst ttl tos proto).payload = 14 := fun addr =>
    (ipHdrWrite_writesOnly ..).payload.trans hq14
  have hpush14 := fun addr => tPbufHeader_push (ipHdrWrite q q.payload addr dst ttl tos proto)
    (n := 14) (by rw [hw]) (by rw [hw]; omega)
  have hcall : (Event.ipOutput arg p src dst ttl tos proto).PushesHeaders := by
    refine ⟨by rw [show (-20 : Int) = -((20 : Nat) : Int) from rfl, hpush20], fun addr => ?_⟩
    rw [← hq, show (-14 : Int) = -((14 : Nat) : Int) from rfl, hpush14]
  have hcalls : ∀ e : Event, e.PushesHeaders →
      ∀ e' ∈ [Event.ipOutput arg p src dst ttl tos proto, e], e'.PushesHeaders := fun e he e' he' => by
    rcases List.mem_cons.mp he' with rfl | he'
    · exact hcall
    · rwa [List.mem_singleton.mp he']
  have hcalls' : ∀ e ∈ [Event.ipOutput arg p src dst ttl tos proto], e.PushesHeaders := fun e he => by
    rwa [List.mem_singleton.mp he]
  have hhdr : ∀ addr, (ipHdrWrite q q.payload addr dst ttl tos proto).Inside := fun addr =>
    hqin.ipHdrWrite (by omega) ..
  simp only [tIpOutput, ← hq]
  split
  · exact ⟨hqin, hcalls _ trivial⟩
  · next addr _ =>
    obtain ⟨r, hr⟩ : ∃ r, r = (tPbufHeader (ipHdrWrite q q.payload addr dst ttl tos proto) (-14)).2 :=
      ⟨_, rfl⟩
    have hrin : r.Inside := hr ▸ (hhdr addr).header _
    have hr0 : r.payload = 0 := by
      rw [hr, show (-14 : Int) = -((14 : Nat) : Int) from rfl, hpush14, hw]
    simp only [← hr]
    split
    · exact ⟨hrin, hcalls'⟩
    · split
      · exact ⟨hrin, hcalls _ trivial⟩
      · exact ⟨hrin.ethHdrWrite (by omega) _ _, hcalls _ trivial⟩

/-! ## output -/

section
variable (env : OutEnv) {pools : Pools}

/-- No free pbuf was ever written behind its end. -/
def Pools.Inside (pools : Pools) : Prop := ∀ q ∈ pools.pbufPool, q.Inside

/-- Nor was a pbuf of one of these segments. -/
def SegsInside (q : List TcpSeg) : Prop := ∀ seg ∈ q, seg.p.Inside

theorem Pools.Inside.segFree (h : pools.Inside) {seg : TcpSeg} (hs : seg.p.Inside) :
    (tTcpSegFree pools seg.block).2.Inside := wrEnd_of_mem_tPbufFree h hs

/-- The buffers of a control block, and of the pool it takes them from. -/
structure TcpPcb.Inside (pcb : TcpPcb) (pools : Pools) : Prop where
  pool : pools.Inside
  unsent : SegsInside pcb.unsent
  unacked : SegsInside pcb.unacked

/-- A segment with its headers at their place. -/
structure TcpSeg.Ready (seg : TcpSeg) : Prop where
  tcphdr : seg.tcphdr = 34
  payload : seg.p.payload = 34
  inside : seg.p.Inside

theorem TcpSeg.Ready.setFlag {seg : TcpSeg} (h : seg.Ready) (f : UInt16) : (seg.setFlag f).Ready :=
  ⟨h.tcphdr, h.payload, h.inside.set16 (by rw [h.tcphdr]; omega) _⟩

theorem tTcpOutputSegmentSend_inside (indet : Option Netif) (arg : NetifArg) {seg : TcpSeg}
    (h : seg.Ready) (pcb : TcpPcb) :
    (tTcpOutputSegmentSend env indet arg seg pcb).1.p.Inside ∧
      ∀ e ∈ (tTcpOutputSegmentSend env indet arg seg pcb).2.2, e.PushesHeaders := by
  have hpacket : ∀ pcb, (segPacket seg pcb).payload = 34 ∧ (segPacket seg pcb).Inside := fun pcb =>
    ⟨h.tcphdr, max_le (max_le h.inside (by rw [h.tcphdr]; decide)) (by rw [h.tcphdr]; decide)⟩
  unfold tTcpOutputSegmentSend
  simp only
  exact tIpOutput_inside (hpacket _).1 (hpacket _).2 ..

theorem tTcpOutputSegment_inside (indet : Option Netif) {seg : TcpSeg} (h : seg.Ready)
    (pcb : TcpPcb) :
    (tTcpOutputSegment env indet seg pcb).1.p.Inside ∧
      ∀ e ∈ (tTcpOutputSegment env indet seg pcb).2.2, e.PushesHeaders := by
  have hready : (seg.completed pcb).Ready :=
    ⟨h.tcphdr, h.payload, (h.inside.set32 (by rw [h.tcphdr]; omega) _).set16
      (by rw [h.tcphdr]; omega) _⟩
  obtain ⟨-, hr⟩ | ⟨n, -, hr⟩ | ⟨-, hr⟩ := tTcpOutputSegment_cases env indet seg pcb
  · rw [hr]
    exact ⟨hready.inside, by simp⟩
  · rw [hr]
    exact tTcpOutputSegmentSend_inside env _ _ hready _
  · rw [hr]
    exact tTcpOutputSegmentSend_inside env _ _ hready _

/-- What a segment that was sent is put next to. -/
theorem SegsInside.insert {q : List TcpSeg} (hq : SegsInside q) {seg : TcpSeg}
    (hs : seg.p.Inside) : SegsInside (unackedInsert q seg) := by
  intro s hmem
  have hcases : s = seg ∨ s ∈ q := by
    unfold unackedInsert at hmem
    split at hmem
    · exact Or.inl (List.mem_singleton.mp hmem)
    · split at hmem
      · exact List.mem_cons.mp hmem
      · exact (List.mem_append.mp hmem).symm.imp_left List.mem_singleton.mp
  rcases hcases with rfl | hmem
  · exact hs
  · exact hq s hmem

/-- One round of output: the segment it takes goes to the unacked queue, or
back to the pools. -/
theorem TcpPcb.Inside.outputRound {pcb : TcpPcb} (h : pcb.Inside pools) (indet : Option Netif)
    {seg : TcpSeg} (hs : seg.Ready) :
    (tTcpOutputRound env indet pools pcb seg).2.1.Inside (tTcpOutputRound env indet pools pcb seg).1 ∧
      ∀ e ∈ (tTcpOutputRound env indet pools pcb seg).2.2, e.PushesHeaders := by
  obtain ⟨flags, hflags⟩ := pcb.outgoing_eq
  have hready : (seg.outgoing pcb.state).Ready := by
    rcases seg.outgoing_cases pcb.state with heq | heq <;> rw [heq]
    · exact hs.setFlag _
    · exact hs
  obtain ⟨r, hr⟩ : ∃ r, r = tTcpOutputSegment env indet (seg.outgoing pcb.state) pcb.outgoing :=
    ⟨_, rfl⟩
  obtain ⟨sndMax, hround⟩ := tTcpOutputRound_eq env pools hr
  obtain ⟨hin, hevs⟩ := tTcpOutputSegment_inside env indet hready pcb.outgoing
  obtain ⟨⟨localIp, rtime, rttest, rtseq, hpcb, -⟩, -, -, -⟩ :=
    tTcpOutputSegment_spec env indet (seg.outgoing pcb.state) pcb.outgoing hready.tcphdr
      hready.payload
  rw [← hr] at hin hevs hpcb
  rw [hflags] at hpcb
  have hqueues : r.2.1.unsent = pcb.unsent ∧ r.2.1.unacked = pcb.unacked := by
    rw [hpcb]
    exact ⟨rfl, rfl⟩
  rw [hround]
  split
  · exact ⟨⟨h.pool, by rw [hqueues.1]; exact h.unsent,
      by rw [hqueues.2]; exact h.unacked.insert hin⟩, hevs⟩
  · exact ⟨⟨h.pool.segFree hin, by rw [hqueues.1]; exact h.unsent,
      by rw [hqueues.2]; exact h.unacked⟩, hevs⟩

theorem TcpPcb.Inside.outputLoop (wnd : UInt32) {pcb : TcpPcb} {unsent : List TcpSeg}
    (h : pcb.Inside pools) (hun : pcb.unsent = unsent) (hs : ∀ seg ∈ unsent, seg.Ready) :
    (tTcpOutputLoop env wnd pools pcb unsent).2.1.Inside
        (tTcpOutputLoop env wnd pools pcb unsent).1 ∧
      ∀ e ∈ (tTcpOutputLoop env wnd pools pcb unsent).2.2, e.PushesHeaders := by
  induction unsent generalizing pools pcb with
  | nil => exact ⟨h, by simp [tTcpOutputLoop]⟩
  | cons seg rest ih =>
      rw [tTcpOutputLoop]
      split
      · have hrest : SegsInside rest := fun s hmem => h.unsent s (by rw [hun]; simp [hmem])
        have hpop : TcpPcb.Inside { pcb with unsent := rest } pools := ⟨h.pool, hrest, h.unacked⟩
        obtain ⟨hround, hevs⟩ := hpop.outputRound env (env.indet rest.length)
          (hs seg List.mem_cons_self)
        have hun' := (tTcpOutputRound_outputs env pools (env.indet rest.length)
          { pcb with unsent := rest } seg).2
        obtain ⟨hloop, hevs'⟩ := ih hround hun' fun s hmem => hs s (List.mem_cons_of_mem _ hmem)
        exact ⟨hloop, fun e he => (List.mem_append.mp he).elim (hevs e) (hevs' e)⟩
      · exact ⟨h, by simp⟩

/-- A header built in a fresh pbuf, sent, and the pbuf given back. -/
theorem Pools.Inside.sendFresh (h : pools.Inside) (net : Net) {p : Pbuf} {pool : List Pbuf}
    (ha : tPbufAlloc pools.pbufPool tPbufIp (UInt16.ofNat tTcpHlen) tPbufFlagPool = (some p, pool))
    {build : Pbuf → Pbuf} (hbuild : ∀ p : Pbuf, p.Inside → (build p).Inside)
    (hpay : ∀ p, (build p).payload = p.payload) (indet : Option Netif) (arg : NetifArg)
    (src : Option UInt32) (dst : AddrPtr) (ttl tos proto : UInt8) (segPool : List SegId) :
    let r := tIpOutput net indet arg (build p) src dst ttl tos proto
    Pools.Inside ⟨(tPbufFree pool [r.2.1]).2, segPool⟩ ∧ ∀ e ∈ r.2.2, e.PushesHeaders := by
  obtain ⟨-, -, q, hq, rfl⟩ := tPbufAlloc_eq_some ha
  have hin : Pbuf.Inside { q with
      ref := 1
      payload := tPbufIp.toNat
      totLen := UInt16.ofNat tTcpHlen
      len := UInt16.ofNat tTcpHlen } := h q (by rw [hq]; exact List.mem_cons_self)
  obtain ⟨hr, hevs⟩ := tIpOutput_inside (hpay _) (hbuild _ hin) net indet arg src dst ttl tos
    proto
  exact ⟨wrEnd_of_mem_tPbufFree (fun s hs => h s (by rw [hq]; exact List.mem_cons_of_mem _ hs)) hr,
    hevs⟩

theorem TcpPcb.Inside.outputAck {pcb : TcpPcb} (h : pcb.Inside pools) :
    (tTcpOutputAck env pools pcb).2.2.1.Inside (tTcpOutputAck env pools pcb).2.1 ∧
      ∀ e ∈ (tTcpOutputAck env pools pcb).2.2.2, e.PushesHeaders := by
  have hbuild : ∀ (pcb : TcpPcb) (p : Pbuf), p.Inside → (tcpAckBuild pcb p 34).Inside :=
    fun pcb p hp => by
      rw [Pbuf.Inside, tPbufBufsize] at hp
      simp only [Pbuf.Inside, tcpAckBuild, tTcphFlagsSet, tTcphHdrlenSet, Pbuf.set16, Pbuf.set32,
        tPbufBufsize]
      omega
  unfold tTcpOutputAck
  simp only
  split
  · next pool ha =>
    rw [tPbufAlloc_eq_none ha]
    exact ⟨h, by simp⟩
  · next p pool ha =>
    have hp34 : p.payload = 34 := by
      obtain ⟨-, -, q, -, rfl⟩ := tPbufAlloc_eq_some ha
      rfl
    rw [hp34]
    obtain ⟨hpool, hevs⟩ := h.pool.sendFresh env.net ha (hbuild _)
      (fun p => (tcpAckBuild_spec _ p 34).1) none (.value (tIpRoute env.net pcb.localIp))
      (some pcb.localIp) (.val pcb.remoteIp) pcb.ttl pcb.tos tIpProtoTcp pools.segPool
    exact ⟨⟨hpool, h.unsent, h.unacked⟩, hevs⟩

theorem TcpPcb.Inside.output {pcb : TcpPcb} (h : pcb.Inside pools) (hq : pcb.Queues) :
    (tTcpOutput env pools pcb).2.2.1.Inside (tTcpOutput env pools pcb).2.1 ∧
      ∀ e ∈ (tTcpOutput env pools pcb).2.2.2, e.PushesHeaders := by
  rcases tTcpOutput_cases env pools pcb with heq | heq
  · rw [heq]
    exact h.outputAck env
  · rw [heq]
    exact h.outputLoop env pcb.wnd rfl fun seg hs =>
      ⟨(hq.unsent seg hs).tcphdr, (hq.unsent seg hs).payload, h.unsent seg hs⟩

/-- The probe of `tcp_keepalive`. -/
theorem Pools.Inside.keepalive (h : pools.Inside) (net : Net) (pcb : TcpPcb) :
    (tcpKeepalive net pools pcb).1.Inside ∧
      ∀ e ∈ (tcpKeepalive net pools pcb).2, e.PushesHeaders := by
  have hbuild : ∀ p : Pbuf, p.Inside → (tcpKeepaliveBuild pcb p 34).Inside := fun p hp => by
    rw [Pbuf.Inside, tPbufBufsize] at hp
    simp only [Pbuf.Inside, tcpKeepaliveBuild, tTcphHdrlenSet, Pbuf.set16, Pbuf.set32, tPbufBufsize]
    omega
  unfold tcpKeepalive
  split
  · next pool ha =>
    rw [tPbufAlloc_eq_none ha]
    exact ⟨h, by simp⟩
  · next p pool ha =>
    have hp34 : p.payload = 34 := by
      obtain ⟨-, -, q, -, rfl⟩ := tPbufAlloc_eq_some ha
      rfl
    simp only [hp34]
    exact h.sendFresh net ha hbuild (fun p => (tcpKeepaliveBuild_spec pcb p 34).1) none
      (.value none) (some pcb.localIp) (.val pcb.remoteIp) pcb.ttl 0 tIpProtoTcp pools.segPool

/-! ## input -/

/-- A SYN|ACK frees the SYN. -/
theorem TcpPcb.Inside.process {pcb : TcpPcb} (h : pcb.Inside pools) (cbRet : ErrT)
    (s : Incoming) : (tTcpProcess env cbRet pools pcb s).2.2.1.Inside
      (tTcpProcess env cbRet pools pcb s).2.1 := by
  have htouch : (pcb.touch env.tcpTicks).Inside pools := ⟨h.pool, h.unsent, h.unacked⟩
  unfold tTcpProcess
  simp only
  split
  · split
    · exact htouch
    · next rseg unacked hcons =>
      have hrseg := h.unacked rseg (by rw [hcons]; exact List.mem_cons_self)
      have hrest : SegsInside unacked := fun seg hs =>
        h.unacked seg (by rw [hcons]; exact List.mem_cons_of_mem _ hs)
      split
      · split
        · exact ⟨h.pool.segFree hrseg, h.unsent, hrest⟩
        · exact ⟨h.pool.segFree hrseg, h.unsent, hrest⟩
      · exact htouch
  · exact htouch

theorem TcpPcb.Inside.receive {pcb : TcpPcb} (h : pcb.Inside pools) (hq : pcb.Queues)
    (cbRet : ErrT) (s : Incoming) :
    (tTcpReceive env cbRet pools pcb s).2.2.1.Inside (tTcpReceive env cbRet pools pcb s).2.1 ∧
      ∀ e ∈ (tTcpReceive env cbRet pools pcb s).2.2.2.2, e.PushesHeaders := by
  have hin := h.process env cbRet s
  have hqueues := hq.process env cbRet pools s
  have hinner : ∀ e : Event, e.Inner → e.PushesHeaders := fun e he => by
    cases e with
    | ipOutput arg p src dst ttl tos proto => exact absurd he.1 (by simp [Event.ipPacket?])
    | _ => trivial
  have hevs := fun e he => hinner e (tTcpProcess_inner env cbRet pools pcb s e he)
  unfold tTcpReceive
  generalize tTcpProcess env cbRet pools pcb s = r at hin hqueues hevs
  obtain ⟨fate, pools1, pcb1, p1, evs1⟩ := r
  cases fate with
  | returns err =>
      simp only
      split
      · obtain ⟨hout, hevs'⟩ := hin.output env hqueues
        exact ⟨hout, fun e he => (List.mem_append.mp he).elim (hevs e) (hevs' e)⟩
      · exact ⟨hin, hevs⟩
  | hangs => exact ⟨hin, hevs⟩
  | crashes => exact ⟨hin, hevs⟩

end

/-! ## queueing -/

/-- A segment under construction: its header stands in the headroom, with the
data behind it unless there are options. -/
structure TcpSeg.Built (a : EnqueueArgs) (seg : TcpSeg) : Prop where
  inBounds : seg.p.InBounds
  tcphdr : seg.tcphdr = 34
  payload : seg.p.payload = 34
  plen : a.optdata = none → seg.p.len = seg.len + 20

/-- What a call of `t_tcp_enqueue` relies on: that its header fits in front of
every pbuf that it gets, that it builds its segments in bounds, and that the
header of each can be taken off again to chain its data. -/
structure EnqueueSafe (pools : Pools) (pcb : TcpPcb) (a : EnqueueArgs) (len : UInt16) : Prop where
  push : ∀ pool pool' seglen ptr p slots,
    enqueueAlloc a pool seglen ptr = (some (p, slots), pool') → (tPbufHeader p (-tTcpHlen)).1 = 0
  built : ∀ segPool st,
    tTcpEnqueueLoop pcb a (.start pools pcb len) pools.segPool = .ok (segPool, st) →
      ∀ seg ∈ st.queue, seg.p.InBounds ∧ (tPbufHeader seg.p tTcpHlen).1 = 0

section
variable {pools : Pools} {pcb : TcpPcb} {a : EnqueueArgs} {len : UInt16}

theorem tTcpEnqueueLoop_built (hpool : pools.Inside) (hmss : pcb.mss.toNat ≤ 1400)
    {segPool : List SegId} {st : EnqueueState}
    (h : tTcpEnqueueLoop pcb a (.start pools pcb len) pools.segPool = .ok (segPool, st)) :
    (∀ q ∈ st.pbufPool, q.Inside) ∧ ∀ seg ∈ st.queue, seg.Built a := by
  have hround : ∀ st st' id (_ : List SegId), ¬ (st.queue ≠ [] ∧ st.left = 0) →
      (st.InBounds ∧ ∀ seg ∈ st.queue, seg.Built a) → tTcpEnqueueRound pcb a id st = .ok st' →
      st'.InBounds ∧ ∀ seg ∈ st'.queue, seg.Built a := fun st st' id _ _ hi hr => by
    have hin := hi.1.round (by omega) hr
    refine ⟨hin, ?_⟩
    obtain ⟨p, pool, hp, -, rfl⟩ := tTcpEnqueueRound_ok hr
    intro seg hs
    rcases List.mem_append.mp hs with hold | hnew
    · exact hi.2 seg hold
    · have hw := enqueueSeg_writesOnly pcb a id st.seqno (enqueueSeglen pcb.mss st.left) p
      have hseg := List.mem_singleton.mp hnew
      refine ⟨hin.queue seg hs, ?_, ?_, fun hopt => ?_⟩
      · rw [hseg, enqueueSeg_tcphdr]
      · rw [hseg, hw.payload]
      · rw [hseg, hw.len, hp.len, EnqueueArgs.room, hopt, enqueueSeg_len]
  have hstart : (EnqueueState.start pools pcb len).InBounds ∧
      ∀ seg ∈ (EnqueueState.start pools pcb len).queue, seg.Built a :=
    ⟨⟨hpool, by simp [EnqueueState.start]⟩, by simp [EnqueueState.start]⟩
  obtain ⟨⟨hin, hbuilt⟩, -, -⟩ :=
    tTcpEnqueueLoop_ok (I := fun st _ => st.InBounds ∧ ∀ seg ∈ st.queue, seg.Built a) hround hstart h
  exact ⟨hin.pool, hbuilt⟩

theorem Pools.Inside.enqueueSafe (h : pools.Inside) (hmss : pcb.mss.toNat ≤ 1400) :
    EnqueueSafe pools pcb a len where
  push pool pool' seglen ptr p slots ha := by
    have hpay := (enqueueAlloc_spec ha).2.payload
    rw [tTcpHlen, tPbufHeader_push p (by rw [hpay]; omega) (by rw [hpay]; omega)]
  built segPool st hloop seg hs := by
    have hb := (tTcpEnqueueLoop_built h hmss hloop).2 seg hs
    exact ⟨hb.inBounds, by rw [tTcpHlen, tPbufHeader_pull seg.p (by rw [hb.payload]; omega)]⟩

/-- Chaining the data of a new segment to the last unsent one. -/
theorem TcpSeg.Built.chain {useg seg : TcpSeg} {mss : UInt16} (hs : seg.Built a)
    (hopt : a.optdata = none) (hmss : mss.toNat ≤ 1400) (hu : useg.Queued) (hin : useg.p.Inside)
    (hch : chains mss a.flags useg seg) : (useg.chain seg).p.Inside := by
  simp only [chains, Bool.and_eq_true, decide_eq_true_eq] at hch
  have hsum := hch.2
  have hplen : useg.p.len.toNat ≤ useg.len.toNat + 24 := by
    rcases hu.kind with hk | hk
    · rw [hk.plen, UInt16.toNat_add, show (20 : UInt16).toNat = 20 from rfl]
      omega
    · rw [hk.plen, hk.len]
      decide
  have hlen : (tPbufHeader seg.p tTcpHlen).2.len = seg.len := by
    rw [tTcpHlen, tPbufHeader_pull seg.p (by rw [hs.payload]; omega), hs.plen hopt]
    exact UInt16.add_sub_cancel ..
  unfold TcpSeg.chain tPbufCat
  simp only [hlen]
  exact hin.memcpy (o := useg.p.payload + useg.p.len.toNat) (by rw [hu.payload]; omega)
    (tPbufHeader seg.p tTcpHlen).2.payloadMem

/-- Linking the new segments keeps the queue inside. -/
theorem enqueueLink_inside {mss : UInt16} {unsent queue : List TcpSeg} (segPool : List SegId)
    (hopt : a.optdata = none ∨ a.flags.toUInt16 &&& (tcpSyn ||| tcpFin) ≠ 0)
    (hmss : mss.toNat ≤ 1400) (hu : ∀ seg ∈ unsent, seg.Queued) (hin : SegsInside unsent)
    (hq : ∀ seg ∈ queue, seg.Built a) :
    ∀ seg ∈ (enqueueLink mss a.flags unsent queue segPool).1, seg.tcphdr = 34 ∧ seg.p.Inside := by
  have hold : ∀ seg ∈ unsent, seg.tcphdr = 34 ∧ seg.p.Inside := fun seg hs =>
    ⟨(hu seg hs).tcphdr, hin seg hs⟩
  have hnew : ∀ seg ∈ queue, seg.tcphdr = 34 ∧ seg.p.Inside := fun seg hs =>
    ⟨(hq seg hs).tcphdr, (hq seg hs).inBounds.wrEnd_le⟩
  have happend : ∀ seg ∈ unsent ++ queue, seg.tcphdr = 34 ∧ seg.p.Inside := fun seg hs =>
    (List.mem_append.mp hs).elim (hold seg) (hnew seg)
  unfold enqueueLink
  split
  · next useg seg rest hlast =>
    have huseg := List.mem_of_getLast? hlast
    have hseg := hq seg List.mem_cons_self
    split
    · next hch =>
      have hopt' : a.optdata = none := hopt.resolve_right fun hflags => by
        simp only [chains, Bool.and_eq_true, beq_iff_eq] at hch
        exact hflags hch.1.2
      intro s hs
      rcases List.mem_append.mp hs with hs | hs
      · exact hold s (List.mem_of_mem_dropLast hs)
      · rcases List.mem_cons.mp hs with rfl | hs
        · exact ⟨by rw [TcpSeg.chain_tcphdr]; exact (hu useg huseg).tcphdr,
            hseg.chain hopt' hmss (hu useg huseg) (hin useg huseg) hch⟩
        · exact hnew s (List.mem_cons_of_mem _ hs)
    · exact happend
  · exact happend

theorem SegsInside.setPsh {q : List TcpSeg} (hq : ∀ seg ∈ q, seg.tcphdr = 34 ∧ seg.p.Inside) :
    SegsInside (q.modifyLast (TcpSeg.setFlag · tcpPsh)) := by
  intro seg hs
  rcases List.eq_nil_or_concat' q with rfl | ⟨init, last, rfl⟩
  · exact absurd hs List.not_mem_nil
  · rw [List.modifyLast_concat] at hs
    rcases List.mem_append.mp hs with hs | hs
    · exact (hq seg (List.mem_append_left _ hs)).2
    · rw [List.mem_singleton.mp hs]
      obtain ⟨htcphdr, hin⟩ := hq last (by simp)
      exact hin.set16 (by rw [htcphdr]; omega) _

/-- A call of `t_tcp_enqueue`, failing or not. -/
theorem TcpPcb.Inside.enqueue (h : pcb.Inside pools) (hq : pcb.Queues)
    (hopt : a.optdata = none ∨ a.flags.toUInt16 &&& (tcpSyn ||| tcpFin) ≠ 0) :
    (tTcpEnqueue pools pcb a.arg len a.flags a.copy a.optdata a.optlen).2.2.Inside
      (tTcpEnqueue pools pcb a.arg len a.flags a.copy a.optdata a.optlen).2.1 := by
  obtain ⟨r, hr⟩ : ∃ r, tTcpEnqueue pools pcb a.arg len a.flags a.copy a.optdata a.optlen = r :=
    ⟨_, rfl⟩
  rw [hr]
  have hmss := hq.mss
  by_cases hret : r.1 = 0
  · obtain ⟨-, -, segPool, st, hloop, hpool, -, hpcb⟩ := tTcpEnqueue_of_eq_zero hr hret
    obtain ⟨hst, hbuilt⟩ := tTcpEnqueueLoop_built h.pool hmss hloop
    have hlink := enqueueLink_inside segPool hopt hmss hq.unsent h.unsent hbuilt
    rw [hpcb]
    refine ⟨by rw [Pools.Inside, hpool]; exact hst, ?_, h.unacked⟩
    simp only
    split
    · exact SegsInside.setPsh hlink
    · exact fun seg hs => (hlink seg hs).2
  · obtain ⟨hpcb, hpools⟩ := tTcpEnqueue_of_ne_zero hr hret
    rw [hpcb]
    refine ⟨?_, h.unsent, h.unacked⟩
    rcases hpools with hsame | hloop
    · rw [hsame]
      exact h.pool
    · exact tTcpEnqueueLoop_error_pbufPool (by omega) h.pool hloop

end

/-! ## runs -/

/-- The arguments with which `t_tcp_connect` queues its SYN. -/
def synArgs : EnqueueArgs := ⟨none, tcpSyn.toUInt8, false, some (mssOption tTcpMss), 4⟩

/-- What the rest of the program did to free pbufs stayed inside them. -/
def SegOp.OthersInside : SegOp → Prop
  | .tcp (.other pools _) => pools.Inside
  | _ => True

/-- The calls of `t_tcp_enqueue` in a call into the TCP layer are safe.  For a
connect it does not matter which local port and sequence number it takes. -/
def SegOp.EnqueuesSafely (h : TcpHost) : SegOp → Prop
  | .tcp (.write i arg len copy) => EnqueueSafe h.pools (h.pcb i) (writeArgs arg copy) len
  | .tcp (.connect i ipaddr port connected _) => ∀ localPort iss,
      EnqueueSafe h.pools (tcpConnectPcb (h.pcb i) ipaddr port localPort iss connected) synArgs 0
  | _ => True

/-- In the call, every `t_pbuf_header` call on a segment succeeds, and new
segments are built in bounds. -/
structure SegOp.Safe (h : TcpHost) (op : SegOp) : Prop where
  enqueues : op.EnqueuesSafely h
  pushes : ∀ e ∈ (h.execSeg op).1, e.PushesHeaders

namespace TcpHost

variable {h : TcpHost}

/-- Nothing was ever written behind the end of a pbuf that is free or in a
queue. -/
structure Inside (h : TcpHost) : Prop where
  pool : h.pools.Inside
  pcbs : ∀ i, i ∉ h.tcpPcbPool → (h.pcb i).Inside h.pools

/-- Only one control block and the pools have changed. -/
theorem Inside.setPcb (hi : h.Inside) {i : TcpPcbId} {pools : Pools} {pcb : TcpPcb}
    (hin : pcb.Inside pools) {h' : TcpHost} (hpools : h'.pools = pools)
    (hpool : h'.tcpPcbPool = h.tcpPcbPool) (hpcb : h'.pcb i = pcb)
    (hother : ∀ j, j ≠ i → h'.pcb j = h.pcb j) : h'.Inside := by
  refine ⟨by rw [hpools]; exact hin.pool, fun j hj => ?_⟩
  rw [hpools]
  by_cases hji : j = i
  · rw [hji, hpcb]
    exact hin
  · rw [hother j hji]
    rw [hpool] at hj
    exact ⟨hin.pool, (hi.pcbs j hj).unsent, (hi.pcbs j hj).unacked⟩

/-- The SYN of a connect. -/
theorem Inside.connectEnqueue (hi : h.Inside) {i : TcpPcbId} (hmem : i ∉ h.tcpPcbPool)
    (hq : (h.pcb i).Queues) (ipaddr : UInt32) (port : UInt16) (connected : Option Nat) :
    (tTcpConnectEnqueue h i ipaddr port connected).1.2.2.Inside
      (tTcpConnectEnqueue h i ipaddr port connected).1.2.1 := by
  obtain ⟨localPort, iss, h', heq, -⟩ := tTcpConnectEnqueue_eq h i ipaddr port connected
  have hpcb : (tcpConnectPcb (h.pcb i) ipaddr port localPort iss connected).Inside h.pools :=
    ⟨hi.pool, (hi.pcbs i hmem).unsent, (hi.pcbs i hmem).unacked⟩
  rw [heq]
  exact hpcb.enqueue (a := synArgs) (hq.connectPcb ipaddr port localPort iss connected)
    (Or.inr (by decide))

/-- What a call does stays inside, and so do the headers that it pushes. -/
theorem Inside.exec (hi : h.Inside) (hq : h.AllQueues) (hlink : h.Linked) {op : TcpOp}
    (hop : h.Legal op) (hother : (SegOp.tcp op).OthersInside) :
    (h.exec op).2.Inside ∧ ∀ e ∈ (h.exec op).1.evs, e.PushesHeaders := by
  cases op with
  | new =>
      simp only [TcpHost.exec, tTcpNew]
      split
      · exact ⟨hi, by simp⟩
      · next j rest hpool =>
        refine ⟨⟨hi.pool, fun i hmem => ?_⟩, by simp⟩
        by_cases hij : i = j
        · subst hij
          simp only [setPcb_pcb_self]
          exact ⟨hi.pool, by simp [SegsInside, tcpPcbInit, TcpPcb.zero],
            by simp [SegsInside, tcpPcbInit, TcpPcb.zero]⟩
        · simp only [setPcb_pcb_of_ne _ hij]
          have hrest : i ∉ rest := hmem
          exact hi.pcbs i (by rw [hpool]; simp [hij, hrest])
  | connect i ipaddr port connected indet =>
      have hin := hi.connectEnqueue hop (hq i hop) ipaddr port connected
      have hqueues := (hq i hop).connectEnqueue ipaddr port connected
      obtain ⟨localPort, iss, h', heq, -, hpcb, hpool⟩ :=
        tTcpConnectEnqueue_eq h i ipaddr port connected
      have hexec : h.exec (.connect i ipaddr port connected indet) =
          tTcpConnect h indet i ipaddr port connected := rfl
      rw [hexec, tTcpConnect_eq]
      rw [heq] at hin hqueues ⊢
      simp only
      split
      · obtain ⟨hout, hevs⟩ := hin.output (h'.outEnv indet) hqueues
        exact ⟨hi.setPcb hout rfl hpool (setPcb_pcb_self ..) fun j hj => by
          rw [← hpcb]; exact setPcb_pcb_of_ne _ hj _, hevs⟩
      · exact ⟨hi.setPcb hin rfl hpool (setPcb_pcb_self ..) fun j hj => by
          rw [← hpcb]; exact setPcb_pcb_of_ne _ hj _, by simp⟩
  | write i arg len copy =>
      have hin : (tTcpWrite h.pools (h.pcb i) arg len copy).2.2.Inside
          (tTcpWrite h.pools (h.pcb i) arg len copy).2.1 := by
        unfold tTcpWrite
        split
        · split
          · exact (hi.pcbs i hop).enqueue (a := writeArgs arg copy) (hq i hop) (Or.inl rfl)
          · exact hi.pcbs i hop
        · exact hi.pcbs i hop
      exact ⟨hi.setPcb hin rfl rfl (setPcb_pcb_self ..) fun j hj => setPcb_pcb_of_ne _ hj _,
        by simp [TcpHost.exec]⟩
  | output i indet =>
      obtain ⟨hout, hevs⟩ := (hi.pcbs i hop).output (h.outEnv indet) (hq i hop)
      exact ⟨hi.setPcb hout rfl rfl (setPcb_pcb_self ..) fun j hj => setPcb_pcb_of_ne _ hj _, hevs⟩
  | input p cbRet indet =>
      have hexec : h.exec (.input p cbRet indet) =
          ((tTcpInput h indet cbRet p).1, (tTcpInput h indet cbRet p).2.2) := by simp only [TcpHost.exec]
      rw [hexec]
      obtain ⟨-, hevs, -, hh⟩ | ⟨i, prev, s, k, -, hd, -, hout, hh⟩ := tTcpInput_cases h indet cbRet p
      · rw [hh, hevs]
        exact ⟨hi, by simp⟩
      · have hmem := (hlink.demux hd).1
        obtain ⟨hin, hevs⟩ := (hi.pcbs i hmem).receive (h.outEnv indet) (hq i hmem) cbRet s
        rw [hh, hout]
        exact ⟨hi.setPcb hin rfl (moveToFront_tcpPcbPool ..) (setPcb_pcb_self ..) fun j hj => by
          rw [← h.moveToFront_pcb i prev]; exact setPcb_pcb_of_ne _ hj _, hevs⟩
  | other pools tcpTicks =>
      exact ⟨⟨hother, fun i hmem => ⟨hother, (hi.pcbs i hmem).unsent, (hi.pcbs i hmem).unacked⟩⟩,
        by simp [TcpHost.exec]⟩

theorem Inside.execSeg (hi : h.Inside) (ho : h.InOrder) {op : SegOp} (hop : h.LegalSeg op)
    (hother : op.OthersInside) :
    (h.stepSeg op).Inside ∧ ∀ e ∈ (h.execSeg op).1, e.PushesHeaders := by
  cases op with
  | tcp op => exact hi.exec ho.queues ho.linked hop hother
  | keepalive i =>
      obtain ⟨hin, hevs⟩ := hi.pool.keepalive h.net (h.pcb i)
      exact ⟨⟨hin, fun j hmem => ⟨hin, (hi.pcbs j hmem).unsent, (hi.pcbs j hmem).unacked⟩⟩, hevs⟩

/-- Every call is safe. -/
theorem Inside.safe (hi : h.Inside) (ho : h.InOrder) {op : SegOp} (hop : h.LegalSeg op)
    (hother : op.OthersInside) : op.Safe h := by
  refine ⟨?_, (hi.execSeg ho hop hother).2⟩
  cases op with
  | tcp op =>
      cases op with
      | write i arg len copy => exact hi.pool.enqueueSafe (ho.queues i hop).mss
      | connect i ipaddr port connected indet =>
          intro localPort iss
          have hq := (ho.queues i hop).connectPcb ipaddr port localPort iss connected
          exact hi.pool.enqueueSafe hq.mss
      | _ => trivial
  | keepalive i => trivial

/-- The buffers of the TCP layer: nothing is written behind their ends, and the
lengths of every unsent segment are those of its header and its data. -/
structure BuffersHold (h : TcpHost) : Prop where
  inside : h.Inside
  lengths : ∀ i, i ∉ h.tcpPcbPool → ∀ seg ∈ (h.pcb i).unsent, seg.p.len = seg.p.totLen ∧
    seg.p.len.toNat = 4 * (tTcphHdrlen seg.p.mem seg.tcphdr).toNat + seg.len.toNat

theorem Inside.buffersHold (hi : h.Inside) (hq : h.AllQueues) : h.BuffersHold where
  inside := hi
  lengths i hmem seg hs := by
    have hqueued := (hq i hmem).unsent seg hs
    exact ⟨hqueued.totLen.symm, by rw [hqueued.tcphdr, hqueued.hdrlen]⟩

end TcpHost

/-- **TCP buffers**: in any run from initialisation on, no call writes behind
the end of a buffer of the TCP layer, the lengths of the unsent segments stay
exact, and every `t_pbuf_header` call on a segment succeeds. -/
theorem buffers_safe {h : TcpHost} (hb : h.Boot) (hpool : h.pools.Inside) {ops : List SegOp}
    (hl : Run.Along TcpHost.stepSeg TcpHost.LegalSeg h ops) (hother : ∀ op ∈ ops, op.OthersInside) :
    Run.Throughout TcpHost.stepSeg TcpHost.BuffersHold h ops ∧
      Run.Along TcpHost.stepSeg (fun h op => op.Safe h) h ops := by
  have hstart : h.InOrder ∧ h.Inside := ⟨hb.inOrder, hpool, fun i hi =>
    absurd (by rw [hb.pool]; exact List.mem_finRange i) hi⟩
  have hlegal := hl.and TcpHost.stepSeg (Run.along_of_forall TcpHost.stepSeg hother)
  have hstep : ∀ (s : TcpHost) op, s.InOrder ∧ s.Inside → s.LegalSeg op ∧ op.OthersInside →
      (s.stepSeg op).InOrder ∧ (s.stepSeg op).Inside := fun s op hs hop =>
    ⟨hs.1.stepSeg hop.1, (hs.2.execSeg hs.1 hop.1 hop.2).1⟩
  refine ⟨(Run.throughout_of_along hstep hstart hlegal).imp fun s hs =>
    hs.2.buffersHold hs.1.queues, ?_⟩
  exact Run.along_of_invariant hstep (fun s op hs hop => hs.2.safe hs.1 hop.1 hop.2) hstart hlegal

theorem Pools.inside_init (mem : PbufId → ByteMem) : (Pools.init mem).Inside := fun q hq => by
  obtain ⟨i, -, rfl⟩ := List.mem_map.mp hq
  exact Nat.zero_le _

theorem buffers_safe_openAndWrite :
    Run.Throughout TcpHost.stepSeg TcpHost.BuffersHold sampleHost (openAndWrite ++ [.keepalive 0]) ∧
      Run.Along TcpHost.stepSeg (fun h op => op.Safe h) sampleHost
        (openAndWrite ++ [.keepalive 0]) :=
  buffers_safe (TcpHost.initial_boot _ _) (Pools.inside_init _) openAndWrite_legal
    (by simp [openAndWrite, sampleConnect, SegOp.OthersInside])

end TTcp
