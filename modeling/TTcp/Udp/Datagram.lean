import TTcp.Udp.Pcb

/-!
# TTcp.Udp.Datagram

`t_udp_send` and `t_udp_input` (`core/t_udp.c`).
-/

namespace TTcp

open PtrList

@[simp] def tUdpHlen : Nat := 8

/-! ## sending -/

/-- The UDP header that `t_udp_send` writes at `h`. -/
def udpHdrWrite (p : Pbuf) (h : Nat) (src dst : UInt16) : Pbuf :=
  let p := p.set16 h (htons src)
  let p := p.set16 (h + 2) (htons dst)
  let p := p.set16 (h + 6) 0
  p.set16 (h + 4) (htons p.totLen)

/-- `t_udp_send`: what it returns, the free pbufs after it, and what it does
to the world.  A packet without headroom is refused and not freed. -/
def tUdpSend (net : Net) (pool : List Pbuf) (pcb : UdpPcb) (p : Pbuf) :
    ErrT × List Pbuf × List Event :=
  let (r, p) := tPbufHeader p (-tUdpHlen)
  if r ≠ 0 then (-1, pool, [])
  else
    let p := udpHdrWrite p p.payload pcb.localPort pcb.remotePort
    match tIpRoute net pcb.remoteIp with
    | none => (0, pool, [.nullNetif])
    | some netif =>
        let (_, p, evs) := tIpOutput net none (.value (some netif)) p (some netif.ipAddr)
          (.val pcb.remoteIp) pcb.ttl pcb.tos tIpProtoUdp
        (0, (tPbufFree pool [p]).2, evs)

/-! ## receiving -/

/-- One round of the loop of `t_udp_input` over the list.  The destination
address is read only for a control block whose port matches. -/
def udpDemuxRound (u : Udp) (dest : UInt16) (iphdr : Nat) : Option UdpPcbId × Pbuf →
    Loop.Step (Option UdpPcbId × Pbuf) (Option UdpPcbId × Pbuf)
  | (none, p) => .done (none, p)
  | (some i, p) =>
      let pcb := u.pcb i
      if pcb.connected ∧ pcb.localPort = dest then
        let (dst, p) := p.rd32 (iphdr + 16)
        if !tIpAddrCmp pcb.localIp dst then .done (some i, p) else .next (u.next i, p)
      else .next (u.next i, p)

/-- `t_udp_input`: `none` when its loop does not end.  The payload pointer
stands on the IP header.  A `recv` callback comes last, with the packet as it
is then and the source address and port. -/
def tUdpInput (u : Udp) (p : Pbuf) : Option (Int × Pbuf × List Event) :=
  let iphdr := p.payload
  let (vhl, p) := p.rd16 iphdr
  let hl := ((htons vhl >>> 8) &&& 0x0f).toNat * 4
  if p.totLen.toNat < tUdpHlen + hl then some (-1, p, [])
  else
    let (_, p) := tPbufHeader p hl
    let udphdr := p.payload
    let (len, p) := p.rd16 (udphdr + 4)
    if p.totLen < htons len then some (-1, p, [])
    else
      let (src, p) := p.rd16 udphdr
      let (dest, p) := p.rd16 (udphdr + 2)
      match Loop.run (udpDemuxRound u (ntohs dest) iphdr) Udp.rounds (u.tUdpPcbs, p) with
      | none => none
      | some (none, p) => some (0, p, [])
      | some (some i, p) =>
          match (u.pcb i).recv with
          | none => some (0, p, [])
          | some recv => some (0, p,
              [.udpRecv i recv (u.pcb i).recvArg p (p.mem.get32 (iphdr + 12)) (ntohs src)])

/-- Receiving a datagram sends nothing. -/
theorem tUdpInput_frames {u : Udp} {p : Pbuf} {r : Int × Pbuf × List Event}
    (hr : tUdpInput u p = some r) : frames r.2.2 = [] := by
  unfold tUdpInput at hr
  simp only at hr
  split at hr
  · obtain rfl := Option.some.inj hr
    rfl
  · split at hr
    · obtain rfl := Option.some.inj hr
      rfl
    · split at hr
      · contradiction
      · obtain rfl := Option.some.inj hr
        rfl
      · split at hr
        · obtain rfl := Option.some.inj hr
          rfl
        · obtain rfl := Option.some.inj hr
          rfl

/-! ## what is sent -/

/-- A pbuf inside its buffer, with room in front for the three headers: "p is
need udp and layer before". -/
structure UdpRoom (p : Pbuf) : Prop where
  headroom : 42 ≤ p.payload
  inside : p.payload + p.totLen.toNat ≤ 1514

/-- The packet with the UDP header in front of it. -/
def udpPacket (pcb : UdpPcb) (p : Pbuf) : Pbuf :=
  udpHdrWrite (tPbufHeader p (-8)).2 (p.payload - 8) pcb.localPort pcb.remotePort

theorem udpHdrWrite_writesOnly (p : Pbuf) (h : Nat) (src dst : UInt16) :
    p.WritesOnly (udpHdrWrite p h src dst) h (h + 8) := by
  have e1 := (Pbuf.WritesOnly.set16 p h (htons src)).mono le_rfl (show h + 2 ≤ h + 8 by omega)
  have e2 := e1.trans ((Pbuf.WritesOnly.set16 _ (h + 2) (htons dst)).mono (by omega) (by omega))
  have e3 := e2.trans ((Pbuf.WritesOnly.set16 _ (h + 6) 0).mono (by omega) (by omega))
  exact e3.trans ((Pbuf.WritesOnly.set16 _ (h + 4) _).mono (by omega) (by omega))

section
variable {p : Pbuf} {h : Nat} (pcb : UdpPcb) (hp : p.payload = h + 42) (hlt : h + 34 < 1481)
include hp hlt

theorem udpPacket_spec :
    let q := udpPacket pcb p
    q.payload = h + 34 ∧ q.totLen = p.totLen + 8 ∧ q.id = p.id ∧ q.ref = p.ref ∧
      q.mem.get16 (h + 34) = htons pcb.localPort ∧ q.mem.get16 (h + 36) = htons pcb.remotePort ∧
      q.mem.get16 (h + 38) = htons q.totLen ∧ ∀ i, h + 42 ≤ i → q.mem i = p.mem i := by
  have hpush : (tPbufHeader p (-8)).2 = { p with
      payload := h + 34, totLen := p.totLen + 8, len := p.len + 8 } := by
    rw [show (-8 : Int) = -((8 : Nat) : Int) from rfl, tPbufHeader_push p (by omega) (by omega)]
    rw [show p.payload - 8 = h + 34 by omega]
    rfl
  have hpay : p.payload - 8 = h + 34 := by omega
  have hw := udpHdrWrite_writesOnly (tPbufHeader p (-8)).2 (h + 34) pcb.localPort pcb.remotePort
  rw [udpPacket, hpay]
  refine ⟨by rw [hw.payload, hpush], by rw [hw.totLen, hpush], by rw [hw.id, hpush],
    by rw [hw.ref, hpush], ?_, ?_, ?_, fun i hi => ?_⟩
  · simp (disch := omega) [udpHdrWrite]
  · simp (disch := omega) [udpHdrWrite]
  · simp (disch := omega) [udpHdrWrite]
  · rw [hw.mem i (by omega), tPbufHeader_mem]

end

/-- A pbuf with headroom is sent as one frame, through the interface on the
route and from its address.  It is refused when it starts too far back in its
buffer. -/
theorem tUdpSend_frames_route {p : Pbuf} (h42 : 42 ≤ p.payload) (net : Net) (pool : List Pbuf)
    (pcb : UdpPcb) : frames (tUdpSend net pool pcb p).2.2 =
      if p.payload - 8 < 1481 then
        match tIpRoute net pcb.remoteIp with
        | some netif => [(netif, (ipFrame (udpPacket pcb p) netif netif.ipAddr (.val pcb.remoteIp)
            pcb.ttl pcb.tos tIpProtoUdp).bytes)]
        | none => []
      else [] := by
  split
  · next hlt =>
    obtain ⟨h, hp⟩ : ∃ h, p.payload = h + 42 := ⟨p.payload - 42, by omega⟩
    obtain ⟨hpay, -⟩ := udpPacket_spec pcb hp (by omega)
    obtain ⟨q, hq, hqpay⟩ : ∃ q, tPbufHeader p (-8) = (0, q) ∧ q.payload = p.payload - 8 := by
      rw [show (-8 : Int) = -((8 : Nat) : Int) from rfl, tPbufHeader_push p (by omega) (by omega)]
      exact ⟨_, rfl, rfl⟩
    have hpacket : udpHdrWrite q q.payload pcb.localPort pcb.remotePort = udpPacket pcb p := by
      rw [udpPacket, hq, hqpay]
    unfold tUdpSend
    simp only [tUdpHlen, Nat.cast_ofNat, hq, ne_eq, not_true_eq_false, ↓reduceIte, hpacket]
    cases hroute : tIpRoute net pcb.remoteIp with
    | none => rfl
    | some netif =>
        simp only
        rw [tIpOutput_frames _ _ _ _ _ _ _ _ _ (by omega) (by omega)]
        rfl
  · next hge =>
    have hfail : (tPbufHeader p (-8)).1 = -1 := by
      rw [tPbufHeader_eq, if_neg (by omega)]
    have hne : (tPbufHeader p (-8)).1 ≠ 0 := by rw [hfail]; decide
    unfold tUdpSend
    simp only [tUdpHlen, Nat.cast_ofNat, ne_eq, hne, not_false_eq_true, ↓reduceIte, frames_nil]

/-- On a host with one interface, that is the interface. -/
theorem tUdpSend_frames {p : Pbuf} (hroom : UdpRoom p) (netif : Netif) (pool : List Pbuf)
    (pcb : UdpPcb) : frames (tUdpSend ⟨[netif], some netif⟩ pool pcb p).2.2 =
      if p.payload - 8 < 1481 then
        [(netif, (ipFrame (udpPacket pcb p) netif netif.ipAddr (.val pcb.remoteIp) pcb.ttl pcb.tos
          tIpProtoUdp).bytes)]
      else [] := by
  rw [tUdpSend_frames_route hroom.headroom, tIpRoute_single]

/-! ## who receives -/

/-- The test of the loop of `t_udp_input`. -/
def UdpPcb.accepts (pcb : UdpPcb) (dest : UInt16) (dst : UInt32) : Bool :=
  pcb.connected && pcb.localPort == dest && pcb.localIp == dst

/-- The first control block on the list that accepts: `none` when the list does
not end. -/
def udpLookup (u : Udp) (dest : UInt16) (dst : UInt32) : Option (Option UdpPcbId) :=
  Loop.run (findRound u.next fun j => (u.pcb j).accepts dest dst) Udp.rounds u.tUdpPcbs

/-- The loop goes the way of a search that reads nothing of the packet. -/
theorem run_udpDemuxRound (u : Udp) (dest : UInt16) (iphdr : Nat) (p : Pbuf) :
    ∃ e, Loop.run (udpDemuxRound u dest iphdr) Udp.rounds (u.tUdpPcbs, p) =
      (udpLookup u dest (p.mem.get32 (iphdr + 16))).map fun r => (r, { p with rdEnd := e }) := by
  have hrel := Loop.run_related (udpDemuxRound u dest iphdr)
    (findRound u.next fun j => (u.pcb j).accepts dest (p.mem.get32 (iphdr + 16)))
    (R := fun s c => s.1 = c ∧ ∃ e, s.2 = { p with rdEnd := e })
    (Q := fun s r => s.1 = r ∧ ∃ e, s.2 = { p with rdEnd := e }) (fun s c h => ?_) Udp.rounds
    (s := (u.tUdpPcbs, p)) (t := u.tUdpPcbs) ⟨rfl, p.rdEnd, rfl⟩
  · rw [udpLookup]
    generalize Loop.run (udpDemuxRound u dest iphdr) Udp.rounds (u.tUdpPcbs, p) = x,
      Loop.run (findRound u.next fun j => (u.pcb j).accepts dest (p.mem.get32 (iphdr + 16)))
        Udp.rounds u.tUdpPcbs = y at hrel
    cases hrel with
    | none => exact ⟨p.rdEnd, rfl⟩
    | @some s r hs =>
        obtain ⟨s, q⟩ := s
        obtain ⟨rfl, e, rfl⟩ := hs
        exact ⟨e, rfl⟩
  · obtain ⟨c, q⟩ := s
    obtain ⟨rfl, e, rfl⟩ := h
    cases c with
    | none => exact Or.inr ⟨_, _, rfl, rfl, rfl, e, rfl⟩
    | some i =>
        rw [udpDemuxRound, findRound]
        by_cases hport : (u.pcb i).connected = true ∧ (u.pcb i).localPort = dest
        · simp only [if_pos hport, Pbuf.rd32_fst, Pbuf.rd32_snd]
          by_cases hip : (u.pcb i).localIp = p.mem.get32 (iphdr + 16)
          · have hacc : (u.pcb i).accepts dest (p.mem.get32 (iphdr + 16)) = true := by
              simp [UdpPcb.accepts, hport.1, hport.2, hip]
            rw [hacc]
            exact Or.inr ⟨(some i, { p with rdEnd := max e (iphdr + 16 + 4) }), some i,
              by simp [tIpAddrCmp, hip, Pbuf.see], rfl, rfl, _, rfl⟩
          · have hacc : (u.pcb i).accepts dest (p.mem.get32 (iphdr + 16)) = false := by
              simp [UdpPcb.accepts, hip]
            rw [hacc]
            exact Or.inl ⟨(u.next i, { p with rdEnd := max e (iphdr + 16 + 4) }), u.next i,
              by simp [tIpAddrCmp, hip, Pbuf.see], rfl, rfl, _, rfl⟩
        · have hacc : (u.pcb i).accepts dest (p.mem.get32 (iphdr + 16)) = false := by
            simp only [UdpPcb.accepts, Bool.and_eq_false_iff, beq_eq_false_iff_ne]
            rw [not_and_or] at hport
            exact Or.inl (hport.imp (by simp) id)
          rw [hacc, if_neg hport]
          exact Or.inl ⟨_, _, rfl, rfl, rfl, e, rfl⟩

/-- On a list, the first that accepts. -/
theorem udpLookup_of_list {u : Udp} {l : List UdpPcbId} (hl : IsList u.next u.tUdpPcbs l)
    (hlen : l.length < Udp.rounds) (dest : UInt16) (dst : UInt32) :
    udpLookup u dest dst = some (l.find? fun j => (u.pcb j).accepts dest dst) :=
  hl.run_findRound _ hlen

end TTcp
