import TTcp.Tcp.Agreement

/-!
# TTcp.Tcp.Keepalive

`tcp_keepalive` (`core/t_tcp_out.c`), and runs in which it is called between
the other calls into the TCP layer.

The probe is built in a buffer from the pool without clearing the flags that
the header word there holds from before, and without setting any: what it is
sent with depends on what the buffer was last used for.  The headers of all
other segments are exact (`headerExact_iff`).
-/

namespace TTcp

/-! ## the probe -/

/-- The header of a keepalive probe. -/
def tcpKeepaliveBuild (pcb : TcpPcb) (p : Pbuf) (h : Nat) : Pbuf :=
  let p := p.set16 h (htons pcb.localPort)
  let p := p.set16 (h + 2) (htons pcb.remotePort)
  let p := p.set32 (h + 4) (htonl (pcb.sndNxt - 1))
  let p := p.set32 (h + 8) (htonl pcb.rcvNxt)
  let p := p.set16 (h + 14) (htons pcb.rcvWnd)
  let p := p.set16 (h + 18) 0
  let p := tTcphHdrlenSet p h 5
  let p := p.set16 (h + 16) 0
  p.set16 (h + 16) (tInetChksumPseudo [p.data] pcb.localIp pcb.remoteIp tIpProtoTcp p.totLen)

/-- `tcp_keepalive`. -/
def tcpKeepalive (net : Net) (pools : Pools) (pcb : TcpPcb) : Pools × List Event :=
  match tPbufAlloc pools.pbufPool tPbufIp (UInt16.ofNat tTcpHlen) tPbufFlagPool with
  | (none, pbufPool) => ({ pools with pbufPool }, [])
  | (some p, pbufPool) =>
      let p := tcpKeepaliveBuild pcb p p.payload
      let (_, p, evs) := tIpOutput net none (.value none) p (some pcb.localIp) (.val pcb.remoteIp)
        pcb.ttl 0 tIpProtoTcp
      ({ pools with pbufPool := (tPbufFree pbufPool [p]).2 }, evs)

/-- The flags of the probe are those that were there before. -/
theorem tTcphWord_keepaliveBuild (pcb : TcpPcb) (p : Pbuf) (h : Nat) :
    tTcphWord (tcpKeepaliveBuild pcb p h).mem h = 0x5000 ||| tTcphFlags p.mem h := by
  have hword : ∀ q : Pbuf, q.mem.get16 (h + 12) = p.mem.get16 (h + 12) →
      tTcphWord (tTcphHdrlenSet q h 5).mem h = 0x5000 ||| tTcphFlags p.mem h := fun q hq => by
    rw [tTcphWord_hdrlenSet, tTcphFlags, tTcphWord, hq, ← tTcphWord, ← tTcphFlags]
    rfl
  rw [tcpKeepaliveBuild, tTcphWord, Pbuf.set16_mem, ByteMem.get16_set16_of_disjoint _ _ (by omega),
    Pbuf.set16_mem, ByteMem.get16_set16_of_disjoint _ _ (by omega), ← tTcphWord]
  apply hword
  simp (disch := omega)

theorem tcpKeepaliveBuild_spec (pcb : TcpPcb) (p : Pbuf) (h : Nat) :
    (tcpKeepaliveBuild pcb p h).payload = p.payload ∧
      (tcpKeepaliveBuild pcb p h).len = p.len ∧ (tcpKeepaliveBuild pcb p h).totLen = p.totLen := by
  simp [tcpKeepaliveBuild, tTcphHdrlenSet]

/-- The probe has the shape of a segment whatever its flags are. -/
theorem hdrlen_or_flags (m : ByteMem) (h : Nat) : (0x5000 ||| tTcphFlags m h) >>> 12 = 5 := by
  have hand := Nat.and_two_pow_sub_one_eq_mod (tTcphWord m h).toNat 6
  apply UInt16.toNat_inj.1
  rw [UInt16.toNat_shiftRight, UInt16.toNat_or, Nat.shiftRight_or_distrib, tTcphFlags,
    UInt16.toNat_and, show tcpFlags.toNat = 2 ^ 6 - 1 from rfl, hand]
  have hsmall : ((tTcphWord m h).toNat % 2 ^ 6) >>> ((12 : UInt16).toNat % 16) = 0 := by
    rw [show (12 : UInt16).toNat % 16 = 12 from rfl, Nat.shiftRight_eq_div_pow]
    omega
  rw [hsmall]
  rfl

theorem keepaliveShape (pcb : TcpPcb) {p : Pbuf} (payload : p.payload = 34)
    (totLen : p.totLen = 20) (len : p.len = 20) : TcpShape (tcpKeepaliveBuild pcb p 34) ∧
      tcpPacketData (tcpKeepaliveBuild pcb p 34) = [] := by
  obtain ⟨hpay, hlen, htot⟩ := tcpKeepaliveBuild_spec pcb p 34
  have hdr : tTcphHdrlen (tcpKeepaliveBuild pcb p 34).mem 34 = 5 := by
    rw [tTcphHdrlen, tTcphWord_keepaliveBuild, hdrlen_or_flags]
  refine ⟨⟨hpay.trans payload, ?_, ?_, ?_, ?_⟩, ?_⟩
  · rw [hlen, htot, len, totLen]
  · rw [hdr]
    decide
  · rw [hdr, htot, totLen]
    decide
  · rw [htot, totLen]
    decide
  · rw [tcpPacketData, Pbuf.data, hpay, payload, hdr, hlen, len]
    rfl

/-- A probe is sent when there is a buffer and a route. -/
theorem tcpKeepalive_frames (net : Net) (pools : Pools) (pcb : TcpPcb) :
    frames (tcpKeepalive net pools pcb).2 =
      match pools.pbufPool, tIpRoute net pcb.remoteIp with
      | p :: _, some netif => [(netif, (ipFrame (tcpKeepaliveBuild pcb
          { p with ref := 1, payload := 34, totLen := 20, len := 20 } 34) netif pcb.localIp
          (.val pcb.remoteIp) pcb.ttl 0 tIpProtoTcp).bytes)]
      | _, _ => [] := by
  unfold tcpKeepalive
  rw [tPbufAlloc_pool _ _ _ (by decide)]
  cases pools.pbufPool with
  | nil => rfl
  | cons p rest =>
      obtain ⟨q, hq⟩ : ∃ q : Pbuf, q = { p with ref := 1, payload := 34, totLen := 20, len := 20 } :=
        ⟨_, rfl⟩
      have hpay : (tcpKeepaliveBuild pcb q 34).payload = 34 := by
        rw [(tcpKeepaliveBuild_spec pcb q 34).1, hq]
      have h34 : tPbufIp.toNat = 34 := rfl
      have h20 : UInt16.ofNat tTcpHlen = 20 := rfl
      simp only [h34, h20, ← hq]
      rw [tIpOutput_frames _ _ _ _ _ _ _ _ _ (by omega) (by omega)]
      cases hroute : tIpRoute net pcb.remoteIp with
      | none => simp only [ipNetif, NetifArg.resolve, AddrPtr.read, hroute]
      | some netif => simp only [ipNetif, NetifArg.resolve, AddrPtr.read, hroute, hq]

/-! ## runs with probes -/

/-- A call into the TCP layer, or a keepalive probe. -/
inductive SegOp where
  | tcp (op : TcpOp)
  | keepalive (i : TcpPcbId)

namespace TcpHost

/-- One call: what it does to the world, and the state after it. -/
def execSeg (h : TcpHost) : SegOp → List Event × TcpHost
  | .tcp op => ((h.exec op).1.evs, (h.exec op).2)
  | .keepalive i =>
      let (pools, evs) := tcpKeepalive h.net h.pools (h.pcb i)
      (evs, { h with pools })

def stepSeg (h : TcpHost) (op : SegOp) : TcpHost := (h.execSeg op).2

/-- The control block of a call was handed out. -/
def LegalSeg (h : TcpHost) : SegOp → Prop
  | .tcp op => h.Legal op
  | .keepalive i => i ∉ h.tcpPcbPool

/-- A probe does nothing but use the pools. -/
theorem stepSeg_keepalive (h : TcpHost) (i : TcpPcbId) : h.stepSeg (.keepalive i) =
    h.step (.other (tcpKeepalive h.net h.pools (h.pcb i)).1 h.tcpTicks) := rfl

/-- What the calls of a run keep up. -/
structure InOrder (h : TcpHost) : Prop where
  queues : h.AllQueues
  linked : h.Linked

theorem Boot.inOrder {h : TcpHost} (hb : h.Boot) : h.InOrder := ⟨hb.allQueues, hb.linked⟩

theorem InOrder.stepSeg {h : TcpHost} (hi : h.InOrder) {op : SegOp} (hop : h.LegalSeg op) :
    (h.stepSeg op).InOrder := by
  cases op with
  | tcp op => exact ⟨hi.queues.exec hop, hi.linked.exec hop⟩
  | keepalive i =>
      rw [stepSeg_keepalive]
      exact ⟨hi.queues.exec trivial, hi.linked.exec trivial⟩

end TcpHost

/-! ## exact headers -/

/-- The header word of the TCP segment in a frame. -/
def frameTcpWord (frame : List UInt8) : UInt16 := tTcphWord (frameMem frame) 34

/-- A frame carries these data behind a header that is exact: its length is
the length the header word gives, nothing is in the reserved bits, no FIN, RST
or URG is set, SYN only if `connect`, and ACK unless in SYN_SENT. -/
structure ExactHeader (state : TcpState) (connect : Prop) (data frame : List UInt8) : Prop where
  behind : frame.drop (34 + 4 * (frameTcpWord frame >>> 12).toNat) = data
  hdrlen : 34 + 4 * (frameTcpWord frame >>> 12).toNat + data.length = frame.length
  reserved : frameTcpWord frame &&& 0x0fc0 = 0
  syn : frameTcpWord frame &&& tcpSyn ≠ 0 → connect
  others : frameTcpWord frame &&& (tcpFin ||| tcpRst ||| tcpUrg) = 0
  ack : state ≠ .synSent → frameTcpWord frame &&& tcpAck ≠ 0

/-- The segment is the one that `t_tcp_connect` queues: no data, and one word
of options. -/
def TcpSeg.OfConnect (seg : TcpSeg) : Prop := seg.len = 0 ∧ seg.p.len = 24

/-- A frame of `t_tcp_output` is exact: it carries a segment of the unsent
queue, or an empty acknowledgement. -/
def OutputExact (pcb : TcpPcb) (frame : List UInt8) : Prop :=
  (∃ seg ∈ pcb.unsent, ExactHeader pcb.state seg.OfConnect seg.payload frame) ∨
    ExactHeader pcb.state False [] frame

/-- Every frame of the call is exact. -/
def SegOp.Exact (h : TcpHost) (op : SegOp) : Prop :=
  ∀ e ∈ frames (h.execSeg op).1, match op with
    | .tcp op => ∃ env pools pcb, h.outputCall op = some (env, pools, pcb) ∧ OutputExact pcb e.2
    | .keepalive i => ExactHeader (h.pcb i).state False [] e.2

/-- The header word goes into the frame as it is in the packet. -/
theorem TcpShape.frameTcpWord {q : Pbuf} (hq : TcpShape q) (netif : Netif) (src dst : UInt32)
    (ttl tos : UInt8) :
    frameTcpWord (ipFrame q netif src (.val dst) ttl tos tIpProtoTcp).bytes =
      tTcphWord q.mem 34 := by
  have hroom := hq.room
  have hhdr := hq.hdrlen
  have hfits := hq.fits
  have hfields := ipFrame_fields (h := 0) (by rw [hq.payload]) (by omega) netif src dst ttl tos
    tIpProtoTcp
  have htot : q.totLen.toNat + 34 = (q.totLen + 34).toNat := by
    rw [UInt16.toNat_add, show (34 : UInt16).toNat = 34 from rfl]
    omega
  rw [TTcp.frameTcpWord, tTcphWord, tTcphWord, frameMem_get16 _ (by rw [hfields.totLen]; omega),
    hfields.payload, ByteMem.get16_congr fun i _ => hfields.data (0 + (34 + 12) + i) (by omega)]

/-- The frame of a packet carries the data that the packet does. -/
theorem TcpShape.exactHeader {q : Pbuf} (hq : TcpShape q) {netif : Netif} {src dst : UInt32}
    {ttl tos : UInt8} {frame : List UInt8}
    (hf : frame = (ipFrame q netif src (.val dst) ttl tos tIpProtoTcp).bytes) {state : TcpState}
    {connect : Prop} (w : UInt16) (hw : tTcphWord q.mem 34 = w) (hrsvd : w &&& 0x0fc0 = 0)
    (hsyn : w &&& tcpSyn ≠ 0 → connect) (hothers : w &&& (tcpFin ||| tcpRst ||| tcpUrg) = 0)
    (hack : state ≠ .synSent → w &&& tcpAck ≠ 0) :
    ExactHeader state connect (tcpPacketData q) frame := by
  have hpay := hq.payload
  have hroom := hq.room
  have hhdr := hq.hdrlen
  have hfits := hq.fits
  have hfields := ipFrame_fields (h := 0) (by rw [hpay]) (by omega) netif src dst ttl tos
    tIpProtoTcp
  obtain ⟨f, hfdef⟩ : ∃ f, f = ipFrame q netif src (.val dst) ttl tos tIpProtoTcp := ⟨_, rfl⟩
  rw [← hfdef] at hfields hf
  obtain ⟨n, hn⟩ : ∃ n, n = (tTcphHdrlen q.mem 34).toNat := ⟨_, rfl⟩
  rw [← hn] at hroom hhdr
  have htot : f.totLen.toNat = 34 + 4 * n + (q.totLen.toNat - 4 * n) := by
    rw [hfields.totLen, UInt16.toNat_add, show (34 : UInt16).toNat = 34 from rfl]
    omega
  have hword : TTcp.frameTcpWord frame = w := by
    rw [hf, hfdef, hq.frameTcpWord, hw]
  have hlen : (TTcp.frameTcpWord frame >>> 12).toNat = n := by
    rw [hword, ← hw, hn, tTcphHdrlen]
  have hbehind : frame.drop (34 + 4 * n) = tcpPacketData q := by
    have hqlen : q.len.toNat = 4 * n + (q.totLen.toNat - 4 * n) := by
      rw [hq.len]
      omega
    rw [hf, Pbuf.bytes, hfields.payload, htot, ByteMem.drop_slice, tcpPacketData, Pbuf.data, hpay,
      ← hn, hqlen, ByteMem.drop_slice]
    exact ByteMem.slice_congr fun i _ => by
      rw [hfields.data _ (by omega), show 0 + (34 + 4 * n) + i = 34 + 4 * n + i by omega]
  refine ⟨by rw [hlen, hbehind], ?_, by rwa [hword], by rwa [hword], by rwa [hword],
    by rwa [hword]⟩
  rw [hlen, ← hbehind, List.length_drop, hf, f.length_bytes, htot]
  omega

/-- A segment of the unsent queue goes out with an exact header. -/
theorem TcpSeg.Queued.exactHeader {seg : TcpSeg} (h : seg.Queued) (pcb pcb' : TcpPcb)
    {netif : Netif} {src dst : UInt32} {ttl tos : UInt8} {frame : List UInt8}
    (hf : frame = (ipFrame (TTcp.segPacket (segFill pcb seg) pcb') netif src (.val dst) ttl tos
      tIpProtoTcp).bytes) :
    ExactHeader pcb.state seg.OfConnect seg.payload frame := by
  have hsp := h.segPacket pcb pcb'
  obtain ⟨-, -, -, hword, -⟩ := segPacket_segFill pcb pcb' h
  rw [← hsp.data]
  by_cases hst : pcb.state ≠ .synSent
  · rw [if_pos hst] at hword
    rcases h.kind with hu | hs
    · rcases hu.word with hw | hw <;> rw [hw] at hword <;>
        exact hsp.shape.exactHeader hf _ hword (by decide) (fun h => absurd h (by decide))
          (by decide) fun _ => by decide
    · rw [hs.word] at hword
      exact hsp.shape.exactHeader hf _ hword (by decide) (fun _ => ⟨hs.len, hs.plen⟩)
        (by decide) fun _ => by decide
  · rw [if_neg hst] at hword
    rcases h.kind with hu | hs
    · rcases hu.word with hw | hw <;> rw [hw] at hword <;>
        exact hsp.shape.exactHeader hf _ hword (by decide) (fun h => absurd h (by decide))
          (by decide) fun h => absurd h hst
    · rw [hs.word] at hword
      exact hsp.shape.exactHeader hf _ hword (by decide) (fun _ => ⟨hs.len, hs.plen⟩)
        (by decide) fun h => absurd h hst

theorem TcpPacket.outputExact {pcb : TcpPcb} (hq : pcb.Queues) {src : UInt32} {q : Pbuf}
    (hpacket : TcpPacket pcb src q) {netif : Netif} {frame : List UInt8}
    (hf : frame = (ipFrame q netif src (.val pcb.remoteIp) pcb.ttl pcb.tos tIpProtoTcp).bytes) :
    OutputExact pcb frame := by
  cases hpacket with
  | seg seg hseg =>
      exact .inl ⟨seg, hseg, (hq.unsent seg hseg).exactHeader pcb { pcb with localIp := src } hf⟩
  | ack ack payload totLen len href hsrc =>
      obtain ⟨hshape, hdata, -⟩ := ackShape pcb payload totLen len
      rw [OutputExact, ← hdata]
      exact .inr (hshape.exactHeader hf _ (tTcphWord_ackBuild pcb ack 34) (by decide)
        (fun h => absurd h (by decide)) (by decide) fun _ => by decide)

/-- The flags that the header word in this buffer holds from before would do
for a probe. -/
def KeepaliveFlags (state : TcpState) (p : Pbuf) : Prop :=
  tTcphFlags p.mem 34 &&& (tcpSyn ||| (tcpFin ||| tcpRst ||| tcpUrg)) = 0 ∧
    (state ≠ .synSent → tTcphFlags p.mem 34 &&& tcpAck ≠ 0)

/-- A probe is exact when the flags that it finds would do. -/
theorem keepaliveBuild_exact_iff (pcb : TcpPcb) {p : Pbuf} (payload : p.payload = 34)
    (totLen : p.totLen = 20) (len : p.len = 20) (netif : Netif) (src dst : UInt32) (ttl tos : UInt8)
    {frame : List UInt8} (hf : frame = (ipFrame (tcpKeepaliveBuild pcb p 34) netif src (.val dst)
      ttl tos tIpProtoTcp).bytes) :
    ExactHeader pcb.state False [] frame ↔ KeepaliveFlags pcb.state p := by
  obtain ⟨hshape, hdata⟩ := keepaliveShape pcb payload totLen len
  obtain ⟨f, hfl⟩ : ∃ f, f = tTcphFlags p.mem 34 := ⟨_, rfl⟩
  have hword : tTcphWord (tcpKeepaliveBuild pcb p 34).mem 34 = 0x5000 ||| f := by
    rw [hfl, tTcphWord_keepaliveBuild]
  have hmask : ∀ m : UInt16, 0x5000 &&& m = 0 → (0x5000 ||| f) &&& m = f &&& m := fun m hm => by
    rw [or_and_mask, hm, UInt16.zero_or]
  have hsyn := hmask tcpSyn (by decide)
  have hothers := hmask (tcpFin ||| tcpRst ||| tcpUrg) (by decide)
  have hack := hmask tcpAck (by decide)
  have hrsvd : (0x5000 ||| f) &&& 0x0fc0 = 0 := by
    rw [hmask _ (by decide), hfl, tTcphFlags, UInt16.and_assoc,
      show tcpFlags &&& 0x0fc0 = 0 from rfl, UInt16.and_zero]
  have hsplit : f &&& (tcpSyn ||| (tcpFin ||| tcpRst ||| tcpUrg)) = 0 ↔
      f &&& tcpSyn = 0 ∧ f &&& (tcpFin ||| tcpRst ||| tcpUrg) = 0 := by
    rw [UInt16.and_comm, or_and_mask, UInt16.or_eq_zero_iff, UInt16.and_comm tcpSyn,
      UInt16.and_comm (tcpFin ||| tcpRst ||| tcpUrg)]
  rw [KeepaliveFlags, ← hfl, hsplit]
  constructor
  · intro h
    have hw : frameTcpWord frame = 0x5000 ||| f := by rw [hf, hshape.frameTcpWord, hword]
    have h1 := h.syn
    have h2 := h.others
    have h3 := h.ack
    rw [hw, hsyn] at h1
    rw [hw, hothers] at h2
    rw [hw, hack] at h3
    exact ⟨⟨not_not.mp h1, h2⟩, h3⟩
  · rintro ⟨⟨h1, h2⟩, h3⟩
    rw [← hdata]
    exact hshape.exactHeader hf _ hword hrsvd (by rw [hsyn]; exact fun h => h h1)
      (by rw [hothers]; exact h2) (by rw [hack]; exact h3)

/-! ## every call of a run -/

namespace TcpHost

variable {h : TcpHost}

/-- If a probe for `i` is sent now, the flags that it finds would do. -/
def KeepaliveClean (h : TcpHost) (i : TcpPcbId) : Prop :=
  ∀ p ∈ h.pools.pbufPool.head?, tIpRoute h.net (h.pcb i).remoteIp ≠ none →
    KeepaliveFlags (h.pcb i).state p

/-- All that `t_tcp_output` sends is exact. -/
theorem InOrder.exact_tcp (hi : h.InOrder) {op : TcpOp} (hop : h.Legal op) :
    (SegOp.tcp op).Exact h := by
  intro e he
  have hframes : frames (h.execSeg (.tcp op)).1 = _ := h.frames_exec op
  rw [hframes] at he
  cases hcall : h.outputCall op with
  | none => rw [hcall] at he; exact absurd he List.not_mem_nil
  | some c =>
      obtain ⟨env, pools, pcb⟩ := c
      rw [hcall] at he
      have hq := hi.queues.outputCall hi.linked hop hcall
      obtain ⟨src, q, hpacket, -, hbytes⟩ := tTcpOutput_tcpFrames env pools hq e he
      exact ⟨env, pools, pcb, hcall, hpacket.outputExact hq hbytes⟩

/-- A probe is exact when what it finds in its buffer would do. -/
theorem exact_keepalive_iff (h : TcpHost) (i : TcpPcbId) :
    (SegOp.keepalive i).Exact h ↔ h.KeepaliveClean i := by
  have hframes : frames (h.execSeg (.keepalive i)).1 = _ :=
    tcpKeepalive_frames h.net h.pools (h.pcb i)
  unfold SegOp.Exact KeepaliveClean
  rw [hframes]
  cases hpool : h.pools.pbufPool with
  | nil => simp
  | cons p rest =>
      cases hroute : tIpRoute h.net (h.pcb i).remoteIp with
      | none => simp
      | some netif =>
          obtain ⟨q, hq⟩ : ∃ q : Pbuf,
            q = { p with ref := 1, payload := 34, totLen := 20, len := 20 } := ⟨_, rfl⟩
          have hiff := keepaliveBuild_exact_iff (h.pcb i) (p := q) (by rw [hq]) (by rw [hq])
            (by rw [hq]) netif (h.pcb i).localIp (h.pcb i).remoteIp (h.pcb i).ttl 0 rfl
          have hflags : KeepaliveFlags (h.pcb i).state q ↔ KeepaliveFlags (h.pcb i).state p := by
            rw [hq]
            rfl
          simp only [← hq, List.mem_singleton, forall_eq, List.head?_cons, Option.mem_def,
            Option.some.injEq, forall_eq', ne_eq, reduceCtorEq, not_false_eq_true, forall_const]
          exact hiff.trans hflags

end TcpHost

/-- **Exact headers**: in a run, every segment goes out with an exact header
exactly when every probe finds flags that would do in the buffer it gets. -/
theorem headerExact_iff {h : TcpHost} (hb : h.Boot) {ops : List SegOp}
    (hl : Run.Along TcpHost.stepSeg TcpHost.LegalSeg h ops) :
    Run.Along TcpHost.stepSeg (fun h op => op.Exact h) h ops ↔
      Run.Along TcpHost.stepSeg (fun h op => ∀ i, op = .keepalive i → h.KeepaliveClean i) h ops := by
  have hstep : ∀ (s : TcpHost) op, s.InOrder → s.LegalSeg op → (s.stepSeg op).InOrder :=
    fun _ _ hi hop => hi.stepSeg hop
  refine Run.along_iff_of_invariant hstep (fun s op hi hop => ?_) hb.inOrder hl
  cases op with
  | tcp op => exact iff_of_true (hi.exact_tcp hop) fun i hne => nomatch hne
  | keepalive j =>
      rw [s.exact_keepalive_iff j]
      constructor
      · rintro hc i heq
        obtain rfl := SegOp.keepalive.inj heq
        exact hc
      · exact fun hc => hc j rfl

/-- A connection that is open and has a byte to send. -/
def openAndWrite : List SegOp :=
  [.tcp .new, .tcp sampleConnect, .tcp (.input (sampleSynAck 1) 0 fun _ => none),
    .tcp (.write 0 (fun _ => 0) 1 true)]

theorem openAndWrite_legal :
    Run.Along TcpHost.stepSeg TcpHost.LegalSeg sampleHost (openAndWrite ++ [.keepalive 0]) := by
  refine ⟨trivial, ?_, trivial, ?_, ?_, trivial⟩
  · show (0 : TcpPcbId) ∉ _
    decide +kernel
  · show (0 : TcpPcbId) ∉ _
    decide +kernel
  · show (0 : TcpPcbId) ∉ _
    decide +kernel

theorem headerExact_openAndWrite :
    Run.Along TcpHost.stepSeg (fun h op => op.Exact h) sampleHost (openAndWrite ++ [.keepalive 0]) ↔
      Run.Along TcpHost.stepSeg (fun h op => ∀ i, op = .keepalive i → h.KeepaliveClean i) sampleHost
        (openAndWrite ++ [.keepalive 0]) :=
  headerExact_iff (TcpHost.initial_boot _ _) openAndWrite_legal

/-- On an open connection a probe from a buffer of zeros has no ACK. -/
theorem keepalive_not_exact :
    sampleHost.Boot ∧
      Run.Along TcpHost.stepSeg TcpHost.LegalSeg sampleHost (openAndWrite ++ [.keepalive 0]) ∧
      ((Run.final TcpHost.stepSeg sampleHost openAndWrite).pcb 0).state = .established ∧
      ¬ (SegOp.keepalive 0).Exact (Run.final TcpHost.stepSeg sampleHost openAndWrite) := by
  have hstate : ((Run.final TcpHost.stepSeg sampleHost openAndWrite).pcb 0).state =
      .established := by decide +kernel
  have hflags : (Run.final TcpHost.stepSeg sampleHost openAndWrite).pools.pbufPool.head?.map
      (fun p => tTcphFlags p.mem 34) = some 0 := by decide +kernel
  have hroute : (tIpRoute (Run.final TcpHost.stepSeg sampleHost openAndWrite).net
      ((Run.final TcpHost.stepSeg sampleHost openAndWrite).pcb 0).remoteIp).isSome := by
    decide +kernel
  refine ⟨TcpHost.initial_boot _ _, openAndWrite_legal, hstate, fun hex => ?_⟩
  rw [TcpHost.exact_keepalive_iff] at hex
  obtain ⟨p, hp, hzero⟩ := Option.map_eq_some_iff.mp hflags
  have hack := (hex p hp (Option.isSome_iff_ne_none.mp hroute)).2 (by rw [hstate]; decide)
  rw [hzero] at hack
  exact hack rfl

end TTcp
