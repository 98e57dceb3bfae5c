import TTcp.Udp.Datagram

/-!
# TTcp.Udp.Reply

Does the answer to a datagram reach the control block that sent it?

The sender's address on the wire is that of the interface, but `t_udp_input`
looks for a control block whose own local address is the destination of the
answer, and takes the first on the list.  So the answer comes back exactly when
the local address is that of the interface and no other control block with the
same port is in front (`Udp.reply_delivered_iff`); after a connect without a
bind the local address is 0, and it does not (`Udp.reply_lost`).
-/

namespace TTcp

open PtrList

/-! ## receiving a well-formed datagram -/

/-- Where the UDP header of a received datagram is, behind its Ethernet and IP
headers. -/
def udpHdrAt (q : Pbuf) : Nat := 14 + (tIphHl q.mem 14).toNat * 4

/-- A datagram as `t_ip_input` hands it on, with the lengths that its headers
announce. -/
structure UdpDatagram (q : Pbuf) : Prop where
  payload : q.payload = 14
  ihl : 5 ≤ (tIphHl q.mem 14).toNat
  ip_len : 8 + (tIphHl q.mem 14).toNat * 4 ≤ q.totLen.toNat
  udp_len : (htons (q.mem.get16 (udpHdrAt q + 4))).toNat + (tIphHl q.mem 14).toNat * 4 ≤
    q.totLen.toNat

/-- The callback for a datagram, if the control block has one. -/
def udpRecvEvents (u : Udp) (p : Pbuf) (addr : UInt32) (port : UInt16) : Option UdpPcbId → List Event
  | none => []
  | some i => match (u.pcb i).recv with
    | none => []
    | some recv => [.udpRecv i recv (u.pcb i).recvArg p addr port]

/-- A datagram as `t_udp_input` hands it on, with the payload pointer on its UDP
header. -/
def udpPulled (q : Pbuf) (e : Nat) : Pbuf :=
  { q with
    payload := udpHdrAt q
    totLen := q.totLen - UInt16.ofNat ((tIphHl q.mem 14).toNat * 4)
    len := q.len - UInt16.ofNat ((tIphHl q.mem 14).toNat * 4)
    rdEnd := e }

/-- The header comes off a packet that is long enough. -/
theorem tPbufHeader_udp {q : Pbuf} (hpay : q.payload = 14) :
    ∃ e, tPbufHeader (q.see (14 + 2)) (((tIphHl q.mem 14).toNat * 4 : Nat) : Int) =
      (0, udpPulled q e) := by
  have hhl := tIphHl_lt q.mem 14
  have hpay' : (q.see (14 + 2)).payload = 14 := hpay
  rw [tPbufHeader_pull _ (by omega), hpay']
  exact ⟨_, rfl⟩

/-- The lengths that the headers of a packet announce are not more than there
is. -/
def UdpFits (q : Pbuf) : Prop :=
  8 + (tIphHl q.mem 14).toNat * 4 ≤ q.totLen.toNat ∧
    (htons (q.mem.get16 (udpHdrAt q + 4))).toNat + (tIphHl q.mem 14).toNat * 4 ≤ q.totLen.toNat

/-- Such a packet is looked up, and goes to the callback of the control block
found. -/
theorem tUdpInput_of_fits (u : Udp) {q : Pbuf} (hpay14 : q.payload = 14) (hq : UdpFits q) :
    ∃ e, tUdpInput u q = (udpLookup u (ntohs (q.mem.get16 (udpHdrAt q + 2))) (q.mem.get32 30)).map
      fun r => (0, udpPulled q e, udpRecvEvents u (udpPulled q e) (q.mem.get32 26)
        (ntohs (q.mem.get16 (udpHdrAt q))) r) := by
  obtain ⟨hip, hudp⟩ := hq
  obtain ⟨e1, hpull⟩ := tPbufHeader_udp hpay14
  obtain ⟨hlb, hhlb⟩ : ∃ hlb, hlb = (tIphHl q.mem 14).toNat * 4 := ⟨_, rfl⟩
  obtain ⟨q1, hq1⟩ : ∃ q1, q1 = udpPulled q e1 := ⟨_, rfl⟩
  have hpay : q1.payload = udpHdrAt q := by rw [hq1, udpPulled]
  have hmem1 : q1.mem = q.mem := by rw [hq1, udpPulled]
  have htotLen : q1.totLen = q.totLen - UInt16.ofNat hlb := by rw [hq1, hhlb, udpPulled]
  rw [← hhlb, ← hq1] at hpull
  rw [← hhlb] at hip hudp
  obtain ⟨p, hp⟩ : ∃ p, p = ((q1.see (udpHdrAt q + 4 + 2)).see (udpHdrAt q + 2)).see
      (udpHdrAt q + 2 + 2) := ⟨_, rfl⟩
  have hmem : p.mem = q.mem := by rw [hp]; exact hmem1
  obtain ⟨e, he⟩ := run_udpDemuxRound u (ntohs (q.mem.get16 (udpHdrAt q + 2))) 14 p
  refine ⟨e, ?_⟩
  have hlt : ¬ q.totLen.toNat < tUdpHlen + hlb := by simp only [tUdpHlen]; omega
  have htot : ¬ (q.totLen - UInt16.ofNat hlb) < htons (q.mem.get16 (udpHdrAt q + 4)) := by
    have hlt := q.totLen.toNat_lt
    rw [UInt16.lt_iff_toNat_lt, UInt16.toNat_sub, UInt16.toNat_ofNat']
    omega
  have hvhl : ((htons (q.mem.get16 14) >>> 8) &&& 0x0f).toNat * 4 = hlb := hhlb.symm
  unfold tUdpInput
  simp only [hpay14, Pbuf.rd16_fst, Pbuf.rd16_snd, hvhl, Pbuf.see_totLen, if_neg hlt, hpull,
    Pbuf.see_mem, hpay, hmem1, htotLen, if_neg htot]
  have hset : ({ p with rdEnd := e } : Pbuf) = udpPulled q e := by rw [hp, hq1]; rfl
  rw [← hp, he, hset, hmem]
  cases udpLookup u (ntohs (q.mem.get16 (udpHdrAt q + 2))) (q.mem.get32 (14 + 16)) with
  | none => rfl
  | some r =>
      cases r with
      | none => rfl
      | some i =>
          simp only [Option.map_some, udpRecvEvents]
          cases (u.pcb i).recv with
          | none => rfl
          | some recv => rfl

/-- Any other is dropped. -/
theorem tUdpInput_of_not_fits (u : Udp) {q : Pbuf} (hpay14 : q.payload = 14) (hq : ¬ UdpFits q) :
    ∃ p, tUdpInput u q = some (-1, p, []) := by
  obtain ⟨e, hpull⟩ := tPbufHeader_udp hpay14
  have hlt := q.totLen.toNat_lt
  have hvhl : ((htons (q.mem.get16 14) >>> 8) &&& 0x0f).toNat = (tIphHl q.mem 14).toNat := rfl
  unfold tUdpInput
  simp only [hpay14, Pbuf.rd16_fst, Pbuf.rd16_snd, hvhl, Pbuf.see_totLen, tUdpHlen, hpull,
    udpPulled]
  by_cases hshort : q.totLen.toNat < 8 + (tIphHl q.mem 14).toNat * 4
  · rw [if_pos hshort]
    exact ⟨_, rfl⟩
  · have hlong : q.totLen - UInt16.ofNat ((tIphHl q.mem 14).toNat * 4) <
        htons (q.mem.get16 (udpHdrAt q + 4)) := by
      have hudp := not_and.mp hq (not_lt.mp hshort)
      rw [UInt16.lt_iff_toNat_lt, UInt16.toNat_sub, UInt16.toNat_ofNat']
      omega
    rw [if_neg hshort, if_pos hlong]
    exact ⟨_, rfl⟩

/-- A datagram in order is looked up. -/
theorem tUdpInput_eq (u : Udp) {q : Pbuf} (hq : UdpDatagram q) :
    ∃ e, tUdpInput u q = (udpLookup u (ntohs (q.mem.get16 (udpHdrAt q + 2))) (q.mem.get32 30)).map
      fun r => (0, udpPulled q e, udpRecvEvents u (udpPulled q e) (q.mem.get32 26)
        (ntohs (q.mem.get16 (udpHdrAt q))) r) :=
  tUdpInput_of_fits u hq.payload ⟨hq.ip_len, hq.udp_len⟩

/-- The first control block on the list that accepts gets the datagram. -/
theorem tUdpInput_datagram {u : Udp} {l : List UdpPcbId} (hl : IsList u.next u.tUdpPcbs l)
    (hlen : l.length < Udp.rounds) {q : Pbuf} (hq : UdpDatagram q) :
    ∃ e, tUdpInput u q = some (0, udpPulled q e, udpRecvEvents u (udpPulled q e) (q.mem.get32 26)
        (ntohs (q.mem.get16 (udpHdrAt q)))
        (l.find? fun j => (u.pcb j).accepts (ntohs (q.mem.get16 (udpHdrAt q + 2)))
          (q.mem.get32 30))) := by
  obtain ⟨e, he⟩ := tUdpInput_eq u hq
  rw [udpLookup_of_list hl hlen, Option.map_some] at he
  exact ⟨e, he⟩

/-! ## the datagram on the wire -/

/-- `q` answers the datagram in `frame`: it is well formed, with addresses and
ports exchanged. -/
structure UdpAnswer (frame : List UInt8) (q : Pbuf) : Prop extends UdpDatagram q where
  src : q.mem.get32 26 = (frameMem frame).get32 30
  dst : q.mem.get32 30 = (frameMem frame).get32 26
  srcPort : q.mem.get16 (udpHdrAt q) = (frameMem frame).get16 36
  dstPort : q.mem.get16 (udpHdrAt q + 2) = (frameMem frame).get16 34

/-- The addresses and ports in the frame of a datagram, its bytes, and what
its headers say of its length. -/
theorem udpFrame_fields {p : Pbuf} (hroom : UdpRoom p) (hlt : p.payload - 8 < 1481) (pcb : UdpPcb)
    (netif : Netif) :
    let r := ipFrame (udpPacket pcb p) netif netif.ipAddr (.val pcb.remoteIp) pcb.ttl pcb.tos
      tIpProtoUdp
    r.totLen.toNat = p.totLen.toNat + 42 ∧
      r.mem.get16 (r.payload + 12) = htons 0x800 ∧
      r.mem.get16 (r.payload + 14) = htons (0x4500 ||| pcb.tos.toUInt16) ∧
      r.mem.get16 (r.payload + 22) =
        htons (tIpProtoUdp.toUInt16 ||| (pcb.ttl.toUInt16 <<< (8 : UInt16))) ∧
      r.mem.get32 (r.payload + 26) = netif.ipAddr ∧ r.mem.get32 (r.payload + 30) = pcb.remoteIp ∧
      r.mem.get16 (r.payload + 34) = htons pcb.localPort ∧
      r.mem.get16 (r.payload + 36) = htons pcb.remotePort ∧
      r.mem.get16 (r.payload + 38) = htons (p.totLen + 8) ∧
      r.mem.slice (r.payload + 42) p.totLen.toNat = p.bytes := by
  obtain ⟨h, hp⟩ : ∃ h, p.payload = h + 42 := ⟨p.payload - 42, by have := hroom.headroom; omega⟩
  have hin := hroom.inside
  obtain ⟨hqpay, hqtot, -, -, hsrc, hdst, hlen, hmem⟩ :=
    udpPacket_spec pcb hp (by omega)
  have hf := ipFrame_fields hqpay (by omega) netif netif.ipAddr pcb.remoteIp pcb.ttl pcb.tos
    tIpProtoUdp
  obtain ⟨r, hr⟩ : ∃ r, r = ipFrame (udpPacket pcb p) netif netif.ipAddr (.val pcb.remoteIp)
    pcb.ttl pcb.tos tIpProtoUdp := ⟨_, rfl⟩
  rw [← hr] at hf
  simp only [← hr, hf.payload]
  -- behind the IP header nothing is written after `t_udp_send`
  have hudp16 : ∀ o, h + 34 ≤ o → r.mem.get16 o = (udpPacket pcb p).mem.get16 o := fun o ho =>
    ByteMem.get16_congr fun i _ => hf.data _ (by omega)
  refine ⟨?_, hf.ethType, hf.vhltos, hf.ttlProto, hf.src, hf.dst, ?_, ?_, ?_, ?_⟩
  · rw [hf.totLen, hqtot, UInt16.toNat_add, UInt16.toNat_add]
    simp
    omega
  · rw [hudp16 _ (by omega), hsrc]
  · rw [hudp16 _ (by omega), hdst]
  · rw [hudp16 _ (by omega), hlen, hqtot]
  · rw [Pbuf.bytes, hp]
    exact ByteMem.slice_congr fun i _ => by rw [hf.data _ (by omega), hmem _ (by omega)]

/-! ## the answer -/

namespace Udp

/-- `t_udp_input` gives the datagram to this control block's callback. -/
def Delivers (u : Udp) (q : Pbuf) (i : UdpPcbId) : Prop :=
  ∃ recv p addr port, (u.pcb i).recv = some recv ∧
    tUdpInput u q = some (0, p, [.udpRecv i recv (u.pcb i).recvArg p addr port])

/-- The local address of the control block is that of the interface, and no
other connected one with its address and port is in front of it. -/
def FirstFor (u : Udp) (addr : UInt32) (i : UdpPcbId) : Prop :=
  (u.pcb i).localIp = addr ∧ ∃ front back, u.pcbs = front ++ i :: back ∧
    ∀ j ∈ front, ¬ ((u.pcb j).connected = true ∧ (u.pcb j).localPort = (u.pcb i).localPort ∧
      (u.pcb j).localIp = addr)

theorem accepts_iff {pcb : UdpPcb} {dest : UInt16} {dst : UInt32} : pcb.accepts dest dst = true ↔
    pcb.connected = true ∧ pcb.localPort = dest ∧ pcb.localIp = dst := by
  simp [UdpPcb.accepts, and_assoc]

/-- The search finds a connected control block by its own port exactly when it
is the first for its address. -/
theorem find_accepts_iff {u : Udp} {addr : UInt32} {i : UdpPcbId}
    (hconn : (u.pcb i).connected = true) :
    (u.pcbs.find? fun j => (u.pcb j).accepts (u.pcb i).localPort addr) = some i ↔
      u.FirstFor addr i := by
  rw [List.find?_eq_some_iff_append]
  constructor
  · rintro ⟨hacc, front, back, hpcbs, hfront⟩
    refine ⟨(accepts_iff.mp hacc).2.2, front, back, hpcbs, fun j hj h => ?_⟩
    have := hfront j hj
    rw [accepts_iff.mpr h] at this
    contradiction
  · rintro ⟨hip, front, back, hpcbs, hfront⟩
    refine ⟨accepts_iff.mpr ⟨hconn, rfl, hip⟩, front, back, hpcbs, fun j hj => ?_⟩
    rw [Bool.not_eq_true']
    exact Bool.eq_false_iff.mpr fun h => hfront j hj (accepts_iff.mp h)

/-- **The answer comes back** to the control block that sent the datagram if
and only if its local address is that of the interface and no other connected
control block with its address and port is in front of it on the list. -/
theorem reply_delivered_iff {u₀ : Udp} (hb : u₀.Boot) {ops : List UdpOp}
    (hl : Run.Along Udp.step Udp.Legal u₀ ops) {u : Udp} (hu : u = Run.final Udp.step u₀ ops)
    {i : UdpPcbId} (hconn : (u.pcb i).connected = true) (hrecv : (u.pcb i).recv ≠ none)
    {netif : Netif} {pool : List Pbuf} {p : Pbuf} (hroom : UdpRoom p) {frame : List UInt8}
    (hsent : (netif, frame) ∈ frames (tUdpSend ⟨[netif], some netif⟩ pool (u.pcb i) p).2.2)
    {q : Pbuf} (hq : UdpAnswer frame q) : u.Delivers q i ↔ u.FirstFor netif.ipAddr i := by
  obtain ⟨l, h, -⟩ := hb.exists_listed hl
  rw [← hu] at h
  -- the addresses and ports of the frame
  rw [tUdpSend_frames hroom] at hsent
  split at hsent
  · next hlt =>
    obtain ⟨htot, -, -, -, hsrc, -, hport, -⟩ := udpFrame_fields hroom hlt (u.pcb i) netif
    have hframe := (Prod.ext_iff.mp (List.mem_singleton.mp hsent)).2
    obtain ⟨r, hr⟩ : ∃ r, r = ipFrame (udpPacket (u.pcb i) p) netif netif.ipAddr
      (.val (u.pcb i).remoteIp) (u.pcb i).ttl (u.pcb i).tos tIpProtoUdp := ⟨_, rfl⟩
    simp only [← hr] at htot hsrc hport hframe
    have hdst := hq.dst
    have hdest := hq.dstPort
    rw [hframe, frameMem_get32 _ (by omega), hsrc] at hdst
    rw [hframe, frameMem_get16 _ (by omega), hport] at hdest
    obtain ⟨e, hin⟩ := tUdpInput_datagram h.list h.length_lt hq.toUdpDatagram
    rw [hdst, hdest, ntohs, htons_htons, ← h.pcbs_eq] at hin
    obtain ⟨recv, hrecv⟩ := Option.ne_none_iff_exists'.mp hrecv
    rw [← find_accepts_iff hconn]
    constructor
    · rintro ⟨recv', p', addr, port, -, hdel⟩
      rw [hin] at hdel
      have hevs := (Prod.ext_iff.mp (Prod.ext_iff.mp (Option.some.inj hdel)).2).2
      simp only at hevs
      cases hf : u.pcbs.find? fun j => (u.pcb j).accepts (u.pcb i).localPort netif.ipAddr with
      | none => rw [hf] at hevs; contradiction
      | some j =>
          rw [hf, udpRecvEvents] at hevs
          cases hj : (u.pcb j).recv with
          | none => rw [hj] at hevs; contradiction
          | some recvj =>
              rw [hj] at hevs
              simp only [List.cons.injEq, Event.udpRecv.injEq] at hevs
              rw [hevs.1.1]
    · intro hf
      simp only [hf, udpRecvEvents, hrecv] at hin
      exact ⟨recv, _, _, _, hrecv, hin⟩
  · simp at hsent

/-! ## two runs -/

/-- The interface 192.168.1.112. -/
def sampleNetif : Netif :=
  ⟨0x7001a8c0, 0x00ffffff, 0x0101a8c0, #v[0xb0, 0x6e, 0xbf, 0x37, 0x50, 0xb0]⟩

/-- A control block bound to the address of the interface, and connected. -/
def bindConnect : List UdpOp :=
  [.new, .bind 0 (some 0x7001a8c0) 3308, .connect 0 (some 0x6501a8c0) 8837,
    .setRecv 0 (some (.app 0)) 0]

/-- A control block that is only connected. -/
def connectOnly : List UdpOp :=
  [.new, .connect 0 (some 0x6501a8c0) 8837, .setRecv 0 (some (.app 0)) 0]

/-- A packet without data. -/
def emptyPacket : Pbuf where
  id := 0
  payload := 42
  totLen := 0
  len := 0
  ref := 1
  mem _ := 0
  wrEnd := 0
  rdEnd := 0

/-- The frame in which control block 0 sends `emptyPacket` after a run. -/
def emptyFrame (ops : List UdpOp) : List UInt8 :=
  (ipFrame (udpPacket ((Run.final Udp.step initial ops).pcb 0) emptyPacket) sampleNetif
    sampleNetif.ipAddr (.val ((Run.final Udp.step initial ops).pcb 0).remoteIp) 255 0 17).bytes

/-- An answer without data. -/
def emptyAnswer (frame : List UInt8) : Pbuf where
  id := 1
  payload := 14
  totLen := 28
  len := 28
  ref := 1
  mem :=
    let m : ByteMem := fun _ => 0
    let m := m.set16 14 (htons 0x4500)
    let m := m.set32 26 ((frameMem frame).get32 30)
    let m := m.set32 30 ((frameMem frame).get32 26)
    let m := m.set16 34 ((frameMem frame).get16 36)
    let m := m.set16 36 ((frameMem frame).get16 34)
    m.set16 38 (htons 8)
  wrEnd := 0
  rdEnd := 0

theorem emptyPacket_room : UdpRoom emptyPacket := ⟨by decide, by decide⟩

theorem emptyAnswer_answer (frame : List UInt8) : UdpAnswer frame (emptyAnswer frame) := by
  have hhl : (tIphHl (emptyAnswer frame).mem 14).toNat = 5 := by
    simp (disch := omega) [emptyAnswer, tIphHl]
  have hat : udpHdrAt (emptyAnswer frame) = 34 := by rw [udpHdrAt, hhl]
  refine ⟨⟨rfl, by rw [hhl], by rw [hhl]; exact le_refl 28, ?_⟩, ?_, ?_, ?_, ?_⟩
  · rw [hat, hhl]
    simp (disch := omega) [emptyAnswer]
  · simp (disch := omega) [emptyAnswer]
  · simp (disch := omega) [emptyAnswer]
  · rw [hat]
    simp (disch := omega) [emptyAnswer]
  · rw [hat]
    simp (disch := omega) [emptyAnswer]

theorem emptyFrame_sent {ops : List UdpOp}
    (httl : ((Run.final Udp.step initial ops).pcb 0).ttl = 255)
    (htos : ((Run.final Udp.step initial ops).pcb 0).tos = 0) (pool : List Pbuf) :
    (sampleNetif, emptyFrame ops) ∈ frames (tUdpSend ⟨[sampleNetif], some sampleNetif⟩ pool
      ((Run.final Udp.step initial ops).pcb 0) emptyPacket).2.2 := by
  rw [tUdpSend_frames emptyPacket_room, if_pos (by decide), httl, htos]
  exact List.mem_singleton_self _

theorem bindConnect_legal : Run.Along Udp.step Udp.Legal initial bindConnect :=
  ⟨by decide, by decide, by decide, by decide, trivial⟩

theorem reply_delivered_bindConnect :
    (Run.final Udp.step initial bindConnect).Delivers (emptyAnswer (emptyFrame bindConnect)) 0 ↔
      (Run.final Udp.step initial bindConnect).FirstFor 0x7001a8c0 0 :=
  reply_delivered_iff initial_boot bindConnect_legal rfl (by decide) (by decide)
    emptyPacket_room (emptyFrame_sent rfl rfl []) (emptyAnswer_answer _)

/-- **Only connected**, a control block does not get the answer to what it
sends: its local address is 0, and the source address of what it sends is that
of the interface. -/
theorem reply_lost :
    let u := Run.final Udp.step initial connectOnly
    Run.Along Udp.step Udp.Legal initial connectOnly ∧ (u.pcb 0).connected = true ∧
      (u.pcb 0).recv ≠ none ∧
      (sampleNetif, emptyFrame connectOnly) ∈ frames (tUdpSend ⟨[sampleNetif], some sampleNetif⟩ []
        (u.pcb 0) emptyPacket).2.2 ∧
      UdpAnswer (emptyFrame connectOnly) (emptyAnswer (emptyFrame connectOnly)) ∧
      ¬ u.Delivers (emptyAnswer (emptyFrame connectOnly)) 0 := by
  refine ⟨⟨by decide, by decide, by decide, trivial⟩, by decide, by decide,
    emptyFrame_sent rfl rfl [], emptyAnswer_answer _, ?_⟩
  rintro ⟨recv, p, addr, port, -, hin⟩
  have hnone : (tUdpInput (Run.final Udp.step initial connectOnly)
      (emptyAnswer (emptyFrame connectOnly))).map (fun r => r.2.2.length) = some 0 := by
    decide +kernel
  rw [hin] at hnone
  simp at hnone

end Udp

end TTcp
