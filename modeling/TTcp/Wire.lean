import TTcp.Lib.TwoRuns
import TTcp.Tcp.Stale

/-!
# TTcp.Wire

What goes out on the wire of what the buffers held before.

Buffers are used again without being cleared.  Two hosts that differ only in their memory make the
same calls: all that can tell their frames apart is the identification of each IP header, which
nothing writes, and the flags of a keepalive probe (`wire_eq_iff`).
-/

namespace TTcp

/-! ## datagrams -/

/-- The same packet in two buffers: all that its owner wrote. -/
structure Pbuf.SamePacket (p p' : Pbuf) : Prop where
  ref : p.ref = p'.ref
  agree : Pbuf.AgreeOn (fun i => p.payload ≤ i ∧ i < p.payload + p.totLen.toNat) p p'

theorem Pbuf.AgreeOn.udpHdrWrite {S : Nat → Prop} {p p' : Pbuf} (h : Pbuf.AgreeOn S p p') (o : Nat)
    (src dst : UInt16) : Pbuf.AgreeOn (fun i => S i ∨ (o ≤ i ∧ i < o + 8))
      (TTcp.udpHdrWrite p o src dst) (TTcp.udpHdrWrite p' o src dst) := by
  have h3 := ((h.set16 o (htons src)).set16 (o + 2) (htons dst)).set16 (o + 6) 0
  have h4 := h3.set16 (o + 4) (htons p.totLen)
  have hlen : ∀ q : Pbuf, TTcp.udpHdrWrite q o src dst = (((q.set16 o (htons src)).set16 (o + 2)
      (htons dst)).set16 (o + 6) 0).set16 (o + 4) (htons q.totLen) := fun _ => rfl
  rw [hlen, hlen, ← h.totLen]
  refine h4.mono fun i hi => ?_
  by_cases hS : S i
  · exact .inl (.inl (.inl (.inl hS)))
  · have := hi.resolve_left hS
    omega

/-- What `t_udp_send` sends of what the buffer of the packet held before its data. -/
def udpStale (net : Net) (pcb : UdpPcb) (p : Pbuf) : List UInt16 :=
  if 42 ≤ p.payload ∧ p.payload < 1489 ∧ tIpRoute net pcb.remoteIp ≠ none then
    [p.mem.get16 (p.payload - 24)]
  else []

theorem tUdpSend_alike (net : Net) {pool pool' : List Pbuf} (hfree : pool.length = pool'.length)
    (pcb : UdpPcb) {p p' : Pbuf} (h : p.SamePacket p') (hin : p.payload + p.totLen.toNat ≤ 1514) :
    (tUdpSend net pool pcb p).2.1.length = (tUdpSend net pool' pcb p').2.1.length ∧
      (frames (tUdpSend net pool pcb p).2.2).length =
        (frames (tUdpSend net pool' pcb p').2.2).length ∧
      (frames (tUdpSend net pool pcb p).2.2 = frames (tUdpSend net pool' pcb p').2.2 ↔
        udpStale net pcb p = udpStale net pcb p') := by
  have hpay := h.agree.payload
  unfold tUdpSend udpStale
  rw [← hpay]
  by_cases hpush : 8 ≤ p.payload ∧ p.payload < 1489
  case neg =>
    have hno : ∀ q : Pbuf, q.payload = p.payload → tPbufHeader q (-tUdpHlen) = (-1, q) :=
      fun q hq => by
        have h8 : (tUdpHlen : Int) = 8 := rfl
        rw [tPbufHeader_eq, if_neg (by rw [hq]; omega)]
    rw [hno p rfl, hno p' hpay.symm]
    have hstale : ¬ (42 ≤ p.payload ∧ p.payload < 1489 ∧ tIpRoute net pcb.remoteIp ≠ none) := by omega
    rw [if_neg hstale, if_neg hstale]
    exact ⟨hfree, rfl, iff_of_true rfl rfl⟩
  have hyes : ∀ q : Pbuf, q.payload = p.payload → q.totLen = p.totLen → ∃ r : Pbuf,
      tPbufHeader q (-tUdpHlen) = (0, r) ∧ r.payload = p.payload - 8 ∧ r.totLen = p.totLen + 8 ∧
        r.ref = q.ref ∧ r.mem = q.mem := fun q hq hqtot => by
    rw [show (-tUdpHlen : Int) = -((8 : Nat) : Int) from rfl,
      tPbufHeader_push q (by omega) (by omega)]
    exact ⟨_, rfl, by simp only [hq], by simp only [hqtot]; rfl, rfl, rfl⟩
  obtain ⟨r, hr, hrpay, hrtot, hrref, hrmem⟩ := hyes p rfl rfl
  obtain ⟨r', hr', hrpay', hrtot', hrref', hrmem'⟩ := hyes p' hpay.symm h.agree.totLen.symm
  have hagree := h.agree.header (-tUdpHlen)
  rw [hr, hr'] at hagree
  simp only [hr, hr', ne_eq, not_true_eq_false, if_false, hrpay, hrpay']
  cases hroute : tIpRoute net pcb.remoteIp with
  | none =>
      simp only [not_true_eq_false, and_false, if_false]
      exact ⟨hfree, trivial, trivial⟩
  | some netif =>
  have hu := hagree.udpHdrWrite (p.payload - 8) pcb.localPort pcb.remotePort
  have hw := udpHdrWrite_writesOnly r (p.payload - 8) pcb.localPort pcb.remotePort
  have hw' := udpHdrWrite_writesOnly r' (p.payload - 8) pcb.localPort pcb.remotePort
  simp only
  generalize TTcp.udpHdrWrite r (p.payload - 8) pcb.localPort pcb.remotePort = q at hu hw
  generalize TTcp.udpHdrWrite r' (p.payload - 8) pcb.localPort pcb.remotePort = q' at hu hw'
  have hqpay : q.payload = p.payload - 8 := hw.payload.trans hrpay
  have hqtot : q.totLen.toNat = p.totLen.toNat + 8 := by
    rw [hw.totLen, hrtot, UInt16.toNat_add, show (8 : UInt16).toNat = 8 from rfl]
    omega
  have hwritten : q.Written (fun i => (p.payload ≤ i ∧ i < p.payload + p.totLen.toNat) ∨
      (p.payload - 8 ≤ i ∧ i < p.payload - 8 + 8)) := by
    refine ⟨by omega, fun i hlo hhi => ?_⟩
    rw [hqpay] at hlo hhi
    rw [hqtot] at hhi
    omega
  have hframes := tIpOutput_frames_iff net none (.value (some netif)) netif.ipAddr pcb.remoteIp
    pcb.ttl pcb.tos tIpProtoUdp hu hwritten
  have hfreed : (tPbufFree pool [(tIpOutput net none (.value (some netif)) q (some netif.ipAddr)
        (.val pcb.remoteIp) pcb.ttl pcb.tos tIpProtoUdp).2.1]).2.length =
      (tPbufFree pool' [(tIpOutput net none (.value (some netif)) q' (some netif.ipAddr)
        (.val pcb.remoteIp) pcb.ttl pcb.tos tIpProtoUdp).2.1]).2.length :=
    tPbufFree_alike hfree (by
      rw [tIpOutput_ref, tIpOutput_ref, hw.ref, hw'.ref, hrref, hrref', h.ref])
  generalize tIpOutput net none (.value (some netif)) q (some netif.ipAddr) (.val pcb.remoteIp)
    pcb.ttl pcb.tos tIpProtoUdp = s at hframes hfreed ⊢
  generalize tIpOutput net none (.value (some netif)) q' (some netif.ipAddr) (.val pcb.remoteIp)
    pcb.ttl pcb.tos tIpProtoUdp = s' at hframes hfreed ⊢
  refine ⟨hfreed, hframes.1, hframes.2.trans ?_⟩
  have hnetif : ipNetif net none (.value (some netif)) pcb.remoteIp ≠ none := by
    simp [ipNetif, NetifArg.resolve]
  have hident : ∀ t : Pbuf, t.payload = p.payload - 8 → 42 ≤ p.payload →
      t.ident = t.mem.get16 (p.payload - 24) := fun t ht h42 => by
    rw [Pbuf.ident, tPbufHeader_ip, ht, if_pos (by omega)]
    congr 1
    omega
  by_cases h42 : 42 ≤ p.payload
  · -- the identification is in front of the UDP header
    have hroom : IpHeadroom q.payload := by
      rw [hqpay, IpHeadroom]
      omega
    have hstale : 42 ≤ p.payload ∧ p.payload < 1489 ∧ ¬ some netif = none := ⟨h42, hpush.2, by simp⟩
    rw [if_pos hstale, if_pos hstale, hident q hqpay h42, hident q' (hw'.payload.trans hrpay') h42,
      hw.get16 (by omega), hw'.get16 (by omega), hrmem, hrmem']
    simp only [List.cons.injEq, and_true]
    exact ⟨fun hi => hi ⟨hroom, hnetif⟩, fun hi _ => hi⟩
  · -- the IP header is over the UDP header, or there is no room for it
    have hstale : ¬ (42 ≤ p.payload ∧ p.payload < 1489 ∧ ¬ some netif = none) := fun hs => h42 hs.1
    rw [if_neg hstale, if_neg hstale]
    refine iff_of_true (fun hroom => ?_) rfl
    have hover : q.payload < 20 := by
      have := hroom.1
      rw [hqpay, IpHeadroom] at this
      omega
    rw [Pbuf.ident, Pbuf.ident, tPbufHeader_ip, tPbufHeader_ip, ← hu.payload, if_neg (by omega)]
    refine hu.mem.get16 fun i hlo hhi => .inr ?_
    omega

/-! ## ARP requests -/

/-- A request is written from scratch. -/
theorem arpRequestWrite_agreeOn (p p' : Pbuf) (hpay : p.payload = p'.payload)
    (htot : p.totLen = p'.totLen) (hlen : p.len = p'.len) (netif : Netif) (ip : UInt32) :
    Pbuf.AgreeOn (· < 42) (arpRequestWrite p 0 netif ip) (arpRequestWrite p' 0 netif ip) := by
  have hcopy : ∀ src : ByteMem, ∀ i < 6, src i = src i := fun _ _ _ => rfl
  have h0 : ByteMem.AgreeOn (fun _ => False) p.mem p'.mem := fun _ h => h.elim
  have h1 := h0.set16 (T := fun i => 14 ≤ i ∧ i < 16) (htons 1) fun i hi => .inr hi
  have h2 := h1.set16 (T := fun i => 14 ≤ i ∧ i < 18) (o := 16) (htons tIpv4FrameType)
    fun i _ => by omega
  have h3 := h2.set16 (T := fun i => 14 ≤ i ∧ i < 20) (o := 18) (htons 0x0604) fun i _ => by omega
  have h4 := h3.set16 (T := fun i => 14 ≤ i ∧ i < 22) (o := 20) (htons tArpRequestOp)
    fun i _ => by omega
  have h5 := h4.copy (T := fun i => 14 ≤ i ∧ i < 28) (o := 22) (hcopy (macMem netif.hwaddr))
    fun i _ => by omega
  have h6 := h5.set32 (T := fun i => 14 ≤ i ∧ i < 32) (o := 28) netif.ipAddr fun i _ => by omega
  have h7 := h6.copy (T := fun i => 14 ≤ i ∧ i < 38) (o := 32) (hcopy fun _ => 0xff)
    fun i _ => by omega
  have h8 := h7.set32 (T := fun i => 14 ≤ i ∧ i < 42) (o := 38) ip fun i _ => by omega
  have h9 := h8.copy (T := fun i => i < 6 ∨ (14 ≤ i ∧ i < 42)) (o := 0) (hcopy fun _ => 0xff)
    fun i _ => by omega
  have h10 := h9.copy (T := fun i => i < 12 ∨ (14 ≤ i ∧ i < 42)) (o := 6)
    (hcopy (macMem netif.hwaddr)) fun i _ => by omega
  have h11 := h10.set16 (T := (· < 42)) (o := 12) (htons tArpFrameType) fun i _ => by omega
  have hsame := arpRequestWrite_same p 0 netif ip
  have hsame' := arpRequestWrite_same p' 0 netif ip
  refine ⟨?_, ?_, ?_, ?_⟩
  · rw [hsame.payload, hsame'.payload, hpay]
  · rw [hsame.totLen, hsame'.totLen, htot]
  · rw [hsame.len, hsame'.len, hlen]
  · simp only [arpRequestWrite, Pbuf.set16_mem, Pbuf.set32_mem, Pbuf.memcpy_mem, Nat.zero_add]
    exact h11

theorem tArpRequest_alike {pool pool' : List Pbuf} (hfree : pool.length = pool'.length)
    (netif : Netif) (ip : UInt32) :
    (tArpRequest pool netif ip).2.1.length = (tArpRequest pool' netif ip).2.1.length ∧
      frames (tArpRequest pool netif ip).2.2 = frames (tArpRequest pool' netif ip).2.2 := by
  unfold tArpRequest
  obtain ⟨r, r', halloc, halloc', hlen⟩ | ⟨p, p', r, r', halloc, halloc', hlen⟩ :=
    tPbufAlloc_alike hfree 0 (UInt16.ofNat sizeofEtharpHdr)
  · rw [halloc, halloc']
    exact ⟨hlen, rfl⟩
  · rw [halloc, halloc']
    have hagree := arpRequestWrite_agreeOn (p.fresh 0 42) (p'.fresh 0 42) rfl rfl rfl netif ip
    have hsame := arpRequestWrite_same (p.fresh 0 42) 0 netif ip
    have hsame' := arpRequestWrite_same (p'.fresh 0 42) 0 netif ip
    have hbytes : (arpRequestWrite (p.fresh 0 42) 0 netif ip).bytes =
        (arpRequestWrite (p'.fresh 0 42) 0 netif ip).bytes := by
      rw [Pbuf.bytes, Pbuf.bytes, ← hagree.payload, ← hagree.totLen, hsame.payload, hsame.totLen]
      exact hagree.mem.slice fun i _ hi => hi
    have hpay : ∀ q : Pbuf, (q.fresh 0 42).payload = 0 := fun _ => rfl
    have h42 : UInt16.ofNat sizeofEtharpHdr = 42 := rfl
    simp only [h42, hpay, hbytes]
    exact ⟨tPbufFree_alike hlen (hsame.ref.trans hsame'.ref.symm), trivial⟩

/-! ## hosts -/

/-- The same host, with other bytes in its buffers. -/
structure TcpHost.Alike (h h' : TcpHost) : Prop where
  same : h' = { h with pools := h'.pools, pcb := h'.pcb }
  pools : h.pools.Alike h'.pools
  pcb : ∀ i, (h.pcb i).Alike (h'.pcb i)

namespace TcpHost.Alike

variable {h h' : TcpHost} (ha : h.Alike h')
include ha

theorem exists_eq : ∃ pools pcb, h' = { h with pools, pcb } ∧ h.pools.Alike pools ∧
    ∀ i, (h.pcb i).Alike (pcb i) := ⟨_, _, ha.same, ha.pools, ha.pcb⟩

theorem setPools {pools pools' : Pools} (hpools : pools.Alike pools') :
    TcpHost.Alike { h with pools } { h' with pools := pools' } := by
  obtain ⟨pools0, pcb0, rfl, -, hpcb⟩ := ha.exists_eq
  exact ⟨rfl, hpools, hpcb⟩

theorem setPcb (i : TcpPcbId) {pcb pcb' : TcpPcb} (hpcb : pcb.Alike pcb') :
    (h.setPcb i pcb).Alike (h'.setPcb i pcb') := by
  obtain ⟨pools0, pcb0, rfl, hpools, hpcbs⟩ := ha.exists_eq
  refine ⟨rfl, hpools, fun j => ?_⟩
  by_cases hij : j = i
  · subst hij
    simpa using hpcb
  · rw [TcpHost.setPcb_pcb_of_ne _ hij, TcpHost.setPcb_pcb_of_ne _ hij]
    exact hpcbs j

theorem outEnv (indet : Nat → Option Netif) : h'.outEnv indet = h.outEnv indet := by
  obtain ⟨pools0, pcb0, rfl, -⟩ := ha.exists_eq
  rfl

end TcpHost.Alike

theorem tTcpConnectEnqueue_alike {h h' : TcpHost} (ha : h.Alike h') {i : TcpPcbId}
    (hq : (h.pcb i).Queues) (ipaddr : UInt32) (port : UInt16) (connected : Option Nat) :
    let r := tTcpConnectEnqueue h i ipaddr port connected
    let r' := tTcpConnectEnqueue h' i ipaddr port connected
    r.1.1 = r'.1.1 ∧ r.1.2.1.Alike r'.1.2.1 ∧ r.1.2.2.Alike r'.1.2.2 ∧ r.2.Alike r'.2 := by
  obtain ⟨pools', pcb', rfl, hpools, hpcb⟩ := ha.exists_eq
  have hport : (pcb' i).localPort = (h.pcb i).localPort := by rw [(hpcb i).same]
  have hset : ∀ (localPort : UInt16) (iss : UInt32),
      (tcpConnectPcb (h.pcb i) ipaddr port localPort iss connected).Alike
        (tcpConnectPcb (pcb' i) ipaddr port localPort iss connected) := fun localPort iss => by
    obtain ⟨unsent, unacked, heq, hunsent, hunacked⟩ := (hpcb i).exists_eq
    rw [heq]
    exact ⟨rfl, hunsent, hunacked⟩
  have henq := fun localPort iss => tTcpEnqueue_syn_alike hpools (hset localPort iss)
    (hq.connectPcb ipaddr port localPort iss connected).unsent (mssOption tTcpMss)
  unfold tTcpConnectEnqueue
  simp only [hport]
  by_cases hzero : (h.pcb i).localPort = 0
  · simp only [if_pos hzero]
    obtain ⟨hret, hpools1, hpcb1⟩ := henq (tTcpNewPort h).1 (tTcpNextIss (tTcpNewPort h).2).1
    exact ⟨hret, hpools1, hpcb1, rfl, hpools, hpcb⟩
  · simp only [if_neg hzero]
    obtain ⟨hret, hpools1, hpcb1⟩ := henq (h.pcb i).localPort (tTcpNextIss h).1
    exact ⟨hret, hpools1, hpcb1, rfl, hpools, hpcb⟩

theorem TcpPcb.Queues.placed {pcb : TcpPcb} (hq : pcb.Queues) : ∀ seg ∈ pcb.unsent, seg.Placed :=
  fun seg hs => (hq.unsent seg hs).placed

/-! ## calls that send -/

/-- A call that may send something, or queue it. -/
inductive WireOp where
  | connect (i : TcpPcbId) (ipaddr : UInt32) (port : UInt16) (connected : Option Nat)
      (indet : Nat → Option Netif)
  | write (i : TcpPcbId) (arg : ByteMem) (len : UInt16) (copy : Bool)
  | output (i : TcpPcbId) (indet : Nat → Option Netif)
  | keepalive (i : TcpPcbId)
  | udpSend (pcb : UdpPcb) (p : Pbuf)
  | arpRequest (netif : Netif) (ip : UInt32)

namespace TcpHost

/-- One call: the frames it hands to an interface, and the state after it. -/
def execWire (h : TcpHost) : WireOp → List (Netif × List UInt8) × TcpHost
  | .connect i ipaddr port connected indet =>
      let (out, h) := tTcpConnect h indet i ipaddr port connected
      (frames out.evs, h)
  | .write i arg len copy =>
      let (_, pools, pcb) := tTcpWrite h.pools (h.pcb i) arg len copy
      ([], { h.setPcb i pcb with pools })
  | .output i indet =>
      let (_, pools, pcb, evs) := tTcpOutput (h.outEnv indet) h.pools (h.pcb i)
      (frames evs, { h.setPcb i pcb with pools })
  | .keepalive i =>
      let (pools, evs) := tcpKeepalive h.net h.pools (h.pcb i)
      (frames evs, { h with pools })
  | .udpSend pcb p =>
      let (_, pbufPool, evs) := tUdpSend h.net h.pools.pbufPool pcb p
      (frames evs, { h with pools := { h.pools with pbufPool } })
  | .arpRequest netif ip =>
      let (_, pbufPool, evs) := tArpRequest h.pools.pbufPool netif ip
      (frames evs, { h with pools := { h.pools with pbufPool } })

/-- The control block of the call was handed out; a packet is inside its buffer. -/
def LegalWire (h : TcpHost) : WireOp → Prop
  | .connect i _ _ _ _ | .write i _ _ _ | .output i _ | .keepalive i => i ∉ h.tcpPcbPool
  | .udpSend _ p => p.payload + p.totLen.toNat ≤ 1514
  | .arpRequest _ _ => True

/-- What the call sends of what its buffers held before: the identification of each packet, and
the flags of a probe. -/
def stale (h : TcpHost) : WireOp → List UInt16
  | .connect i ipaddr port connected indet =>
      match h.connectOutput indet i ipaddr port connected with
      | some (env, pools, pcb) => outputStale env pools pcb
      | none => []
  | .output i indet => outputStale (h.outEnv indet) h.pools (h.pcb i)
  | .keepalive i => keepaliveStale h.net h.pools (h.pcb i)
  | .udpSend pcb p => udpStale h.net pcb p
  | .write _ _ _ _ | .arpRequest _ _ => []

end TcpHost

/-- The same call; of a packet that is sent only the data are the same. -/
inductive WireOp.Same : WireOp → WireOp → Prop
  | refl (op : WireOp) : Same op op
  | udpSend (pcb : UdpPcb) {p p' : Pbuf} (h : p.SamePacket p') :
      Same (.udpSend pcb p) (.udpSend pcb p')

/-- What a call comes to on two hosts that are alike. -/
structure WireAlike (same : Prop) (r r' : List (Netif × List UInt8) × TcpHost) : Prop where
  host : r.2.Alike r'.2
  length : r.1.length = r'.1.length
  frames : r.1 = r'.1 ↔ same

namespace TcpHost

variable {h h' : TcpHost}

theorem Alike.udpSend (ha : h.Alike h') (pcb : UdpPcb) {p p' : Pbuf} (hp : p.SamePacket p')
    (hin : p.payload + p.totLen.toNat ≤ 1514) :
    WireAlike (h.stale (.udpSend pcb p) = h'.stale (.udpSend pcb p')) (h.execWire (.udpSend pcb p))
      (h'.execWire (.udpSend pcb p')) := by
  obtain ⟨pools', pcb', rfl, hpools, -⟩ := ha.exists_eq
  obtain ⟨hfree, hlen, hiff⟩ := tUdpSend_alike h.net hpools.free pcb hp hin
  have hset : Pools.Alike { h.pools with pbufPool := (tUdpSend h.net h.pools.pbufPool pcb p).2.1 }
      { pools' with pbufPool := (tUdpSend h.net pools'.pbufPool pcb p').2.1 } :=
    ⟨hfree, hpools.segPool⟩
  exact ⟨ha.setPools hset, hlen, hiff⟩

theorem Alike.execWire (ha : h.Alike h') (hq : h.AllQueues) {op op' : WireOp} (hsame : op.Same op')
    (hop : h.LegalWire op) :
    WireAlike (h.stale op = h'.stale op') (h.execWire op) (h'.execWire op') := by
  cases hsame with
  | udpSend pcb hp => exact ha.udpSend pcb hp hop
  | refl =>
  obtain ⟨pools', pcb', rfl, hpools, hpcb⟩ := ha.exists_eq
  cases op with
  | connect i ipaddr port connected indet =>
      obtain ⟨hret, hpools, hpcb, hhost⟩ := tTcpConnectEnqueue_alike ha (hq i hop) ipaddr port connected
      have hqueues := (hq i hop).connectEnqueue ipaddr port connected
      simp only [TcpHost.execWire, stale, connectOutput, tTcpConnect_eq]
      generalize tTcpConnectEnqueue h i ipaddr port connected = r at hret hpools hpcb hhost hqueues
      generalize tTcpConnectEnqueue { h with pools := pools', pcb := pcb' } i ipaddr port
        connected = r' at hret hpools hpcb hhost
      obtain ⟨⟨ret, pools1, pcb1⟩, h1⟩ := r
      obtain ⟨⟨ret', pools1', pcb1'⟩, h1'⟩ := r'
      simp only at hret hpools hpcb hhost hqueues ⊢
      subst hret
      by_cases hok : ret = errOk
      · simp only [if_pos hok, hhost.outEnv indet]
        obtain ⟨-, hout⟩ := tTcpOutput_alike (h1.outEnv indet) hpools hpcb hqueues.placed
        exact ⟨(hhost.setPcb i hout.pcb).setPools hout.pools, hout.length, hout.frames⟩
      · simp only [if_neg hok]
        exact ⟨(hhost.setPcb i hpcb).setPools hpools, rfl, iff_of_true rfl trivial⟩
  | write i arg len copy =>
      obtain ⟨-, hpools1, hpcb1⟩ := tTcpWrite_alike hpools (hpcb i) (hq i hop) arg len copy
      exact ⟨(ha.setPcb i hpcb1).setPools hpools1, rfl, iff_of_true rfl rfl⟩
  | output i indet =>
      obtain ⟨-, hout⟩ := tTcpOutput_alike (h.outEnv indet) hpools (hpcb i) (hq i hop).placed
      exact ⟨(ha.setPcb i hout.pcb).setPools hout.pools, hout.length, hout.frames⟩
  | keepalive i =>
      obtain ⟨hpools1, hlen, hiff⟩ := tcpKeepalive_alike h.net hpools (hpcb i)
      exact ⟨ha.setPools hpools1, hlen, hiff⟩
  | udpSend pcb p => exact ha.udpSend pcb ⟨rfl, rfl, rfl, rfl, fun _ _ => rfl⟩ hop
  | arpRequest netif ip =>
      obtain ⟨hfree, hframes⟩ := tArpRequest_alike hpools.free netif ip
      have hset : Pools.Alike { h.pools with pbufPool := (tArpRequest h.pools.pbufPool netif ip).2.1 }
          { pools' with pbufPool := (tArpRequest pools'.pbufPool netif ip).2.1 } :=
        ⟨hfree, hpools.segPool⟩
      exact ⟨ha.setPools hset, congrArg List.length hframes, iff_of_true hframes rfl⟩

/-- The calls that send are among those that keep the queues in order. -/
theorem AllQueues.execWire (hq : h.AllQueues) {op : WireOp} (hop : h.LegalWire op) :
    (h.execWire op).2.AllQueues := by
  cases op with
  | connect i ipaddr port connected indet =>
      have hleg : h.Legal (.connect i ipaddr port connected indet) := hop
      exact hq.exec hleg
  | write i arg len copy =>
      have hleg : h.Legal (.write i arg len copy) := hop
      exact hq.exec hleg
  | output i indet =>
      have hleg : h.Legal (.output i indet) := hop
      exact hq.exec hleg
  | keepalive i => exact hq
  | udpSend pcb p => exact hq
  | arpRequest netif ip => exact hq

end TcpHost

/-- A pair of calls that may be made: the same on both hosts. -/
def LegalPair (s : TcpHost × TcpHost) (op : WireOp × WireOp) : Prop :=
  op.1.Same op.2 ∧ s.1.LegalWire op.1

/-- The buffers of both calls held the same where nothing is written. -/
def SameStale (s : TcpHost × TcpHost) (op : WireOp × WireOp) : Prop :=
  s.1.stale op.1 = s.2.stale op.2

/-- Calls and probes lead from a host that has booted to this one. -/
def TcpHost.Reached (h : TcpHost) : Prop :=
  ∃ h₀ : TcpHost, h₀.Boot ∧ ∃ before, Run.Along TcpHost.stepSeg TcpHost.LegalSeg h₀ before ∧
    Run.final TcpHost.stepSeg h₀ before = h

theorem TcpHost.Reached.allQueues {h : TcpHost} (hr : h.Reached) : h.AllQueues := by
  obtain ⟨h₀, hb, before, hbefore, rfl⟩ := hr
  have hstep : ∀ (s : TcpHost) op, s.InOrder → s.LegalSeg op → (s.stepSeg op).InOrder :=
    fun _ _ hi hop => hi.stepSeg hop
  exact (Run.final_of_along hstep hb.inOrder hbefore).queues

/-- **Memory on the wire**: two hosts that differ only in what their buffers hold send the same
frames exactly when, at every call, they hold the same where the call sends what it has not
written. -/
theorem wire_eq_iff {h h' : TcpHost} (hr : h.Reached) (ha : h.Alike h')
    {calls : List (WireOp × WireOp)}
    (hl : Run.Along (Run.pairStep TcpHost.execWire) LegalPair (h, h') calls) :
    Run.outputs TcpHost.execWire h (calls.map Prod.fst) =
        Run.outputs TcpHost.execWire h' (calls.map Prod.snd) ↔
      Run.Along (Run.pairStep TcpHost.execWire) SameStale (h, h') calls := by
  have hcall : ∀ (s : TcpHost × TcpHost) (op : WireOp × WireOp),
      s.1.AllQueues ∧ s.1.Alike s.2 → LegalPair s op →
        WireAlike (SameStale s op) (s.1.execWire op.1) (s.2.execWire op.2) :=
    fun s op hs hop => hs.2.execWire hs.1 hop.1 hop.2
  exact Run.outputs_eq_iff TcpHost.execWire (R := fun s => s.1.AllQueues ∧ s.1.Alike s.2)
    (fun s op hs hop => ⟨hs.1.execWire hop.2, (hcall s op hs hop).host⟩)
    (fun s op hs hop => (hcall s op hs hop).length)
    (fun s op hs hop => (hcall s op hs hop).frames) ⟨hr.allQueues, ha⟩ hl

/-- A host with one control block handed out, and with `b` all over its buffers. -/
def filledHost (b : UInt8) : TcpHost :=
  Run.final TcpHost.stepSeg (.initial (.init fun _ _ => b) sampleNet) [.tcp .new]

theorem filledHost_reached (b : UInt8) : (filledHost b).Reached :=
  ⟨_, TcpHost.initial_boot _ _, [.tcp .new], ⟨trivial, trivial⟩, rfl⟩

theorem filledHost_alike (b b' : UInt8) : (filledHost b).Alike (filledHost b') :=
  ⟨rfl, ⟨rfl, rfl⟩, fun _ => .refl _⟩

/-- Connect to 10.0.0.1:80. -/
def wireConnect : WireOp := .connect 0 0x0100000a 80 none fun _ => none

theorem wireConnect_legal (b b' : UInt8) : Run.Along (Run.pairStep TcpHost.execWire) LegalPair
    (filledHost b, filledHost b') [(wireConnect, wireConnect)] :=
  ⟨⟨.refl _, show (0 : TcpPcbId) ∉ (List.finRange tMempNumTcpPcb).tail by decide⟩, trivial⟩

theorem wire_eq_wireConnect :
    Run.outputs TcpHost.execWire (filledHost 0) [wireConnect] =
        Run.outputs TcpHost.execWire (filledHost 1) [wireConnect] ↔
      Run.Along (Run.pairStep TcpHost.execWire) SameStale (filledHost 0, filledHost 1)
        [(wireConnect, wireConnect)] :=
  wire_eq_iff (filledHost_reached 0) (filledHost_alike 0 1) (wireConnect_legal 0 1)

/-- The SYN goes out with what its buffer held before. -/
theorem wire_ne_wireConnect :
    (filledHost 0).Reached ∧ (filledHost 0).Alike (filledHost 1) ∧
      Run.Along (Run.pairStep TcpHost.execWire) LegalPair (filledHost 0, filledHost 1)
        [(wireConnect, wireConnect)] ∧
      Run.outputs TcpHost.execWire (filledHost 0) [wireConnect] ≠
        Run.outputs TcpHost.execWire (filledHost 1) [wireConnect] := by
  refine ⟨filledHost_reached 0, filledHost_alike 0 1, wireConnect_legal 0 1, fun heq => ?_⟩
  have hident : ∀ b : UInt8, b = 0 ∨ b = 1 →
      (Run.outputs TcpHost.execWire (filledHost b) [wireConnect]).map
        (fun f => (f.2.drop 18).take 2) = [[b, b]] := by
    rintro b (rfl | rfl)
    · decide +kernel
    · decide +kernel
  have h0 := hident 0 (.inl rfl)
  rw [heq, hident 1 (.inr rfl)] at h0
  exact absurd h0 (by decide)

end TTcp
