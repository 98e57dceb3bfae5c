import TTcp.Udp.Reply

/-!
# TTcp.Udp.Peer

Does a connected control block hear its peer, and nobody else?

The loop of `t_udp_input` looks at the local address and port of the connected
control blocks, and never at the remote ones.  So of several with the same local
end the first on the list gets everything, and a datagram is heard by its peer
exactly when it is that one's (`Udp.peer_heard_iff`).
-/

namespace TTcp

open PtrList

/-- The control block is the other end of the datagram: its addresses and ports
are the destination and the source. -/
structure UdpPcb.PeerOf (pcb : UdpPcb) (q : Pbuf) : Prop where
  localIp : pcb.localIp = q.mem.get32 30
  localPort : pcb.localPort = ntohs (q.mem.get16 (udpHdrAt q + 2))
  remoteIp : pcb.remoteIp = q.mem.get32 26
  remotePort : pcb.remotePort = ntohs (q.mem.get16 (udpHdrAt q))

namespace Udp

/-- At most one callback is called for the datagram, and it is that of a control
block on the list `l` whose peer sent it; if there is one with a callback, one is
called. -/
structure HearsPeer (u : Udp) (l : List UdpPcbId) (q : Pbuf) : Prop where
  ends : tUdpInput u q ≠ none
  only : ∀ ret p evs, tUdpInput u q = some (ret, p, evs) → evs = [] ∨
    ∃ i ∈ l, (u.pcb i).PeerOf q ∧ ∃ recv addr port,
      evs = [.udpRecv i recv (u.pcb i).recvArg p addr port]
  heard : ∀ ret p evs, tUdpInput u q = some (ret, p, evs) →
    ∀ i ∈ l, (u.pcb i).PeerOf q → (u.pcb i).recv ≠ none → evs ≠ []

/-- The first control block on the list with the destination of the datagram as
its local end. -/
def firstLocal (u : Udp) (l : List UdpPcbId) (q : Pbuf) : Option UdpPcbId :=
  l.find? fun i => (u.pcb i).localPort == ntohs (q.mem.get16 (udpHdrAt q + 2)) &&
    (u.pcb i).localIp == q.mem.get32 30

/-- That one has the datagram's source as its peer, or else no callback while
nobody with this peer has one. -/
def PeerFirst (u : Udp) (l : List UdpPcbId) (q : Pbuf) : Prop :=
  ∀ i ∈ u.firstLocal l q, if (u.pcb i).recv = none then
      ∀ j ∈ l, (u.pcb j).PeerOf q → (u.pcb j).recv = none
    else (u.pcb i).PeerOf q

variable {u : Udp} {l : List UdpPcbId} {q : Pbuf}

/-- Among connected control blocks, that is all the loop looks at. -/
theorem find_accepts_eq_firstLocal (hconn : ∀ i ∈ l, (u.pcb i).connected = true) :
    (l.find? fun i => (u.pcb i).accepts (ntohs (q.mem.get16 (udpHdrAt q + 2))) (q.mem.get32 30)) =
      u.firstLocal l q := by
  unfold firstLocal
  refine List.find?_congr fun i hi => ?_
  rw [UdpPcb.accepts, hconn i hi, Bool.true_and]

/-- One whose peer sent the datagram is not overlooked by everybody. -/
theorem firstLocal_ne_none {i : UdpPcbId} (hi : i ∈ l) (hpeer : (u.pcb i).PeerOf q) :
    u.firstLocal l q ≠ none := by
  intro hnone
  refine absurd ?_ (List.find?_eq_none.mp hnone i hi)
  simp [hpeer.localIp, hpeer.localPort]

/-- **Connected control blocks**: they hear their peers, and nobody else, exactly
as far as the first with the right local end has the right peer too. -/
theorem peer_heard_iff (hl : IsList u.next u.tUdpPcbs l)
    (hconn : ∀ i ∈ l, (u.pcb i).connected = true) (hq : UdpDatagram q) :
    u.HearsPeer l q ↔ u.PeerFirst l q := by
  have hlen : l.length < rounds := by
    have hcard := hl.nodup.length_le_card
    rw [Fintype.card_fin] at hcard
    exact Nat.lt_succ_of_le hcard
  obtain ⟨e, hin⟩ := tUdpInput_datagram hl hlen hq
  rw [find_accepts_eq_firstLocal hconn] at hin
  obtain ⟨p, hp⟩ : ∃ p, p = udpPulled q e := ⟨_, rfl⟩
  rw [← hp] at hin
  have hret : ∀ {ret p' evs}, tUdpInput u q = some (ret, p', evs) → p' = p ∧
      evs = udpRecvEvents u p (q.mem.get32 26) (ntohs (q.mem.get16 (udpHdrAt q)))
        (u.firstLocal l q) := fun h => by
    rw [hin] at h
    have heq := Prod.ext_iff.mp (Prod.ext_iff.mp (Option.some.inj h)).2
    exact ⟨heq.1.symm, heq.2.symm⟩
  constructor
  · intro h i hi
    rw [Option.mem_def] at hi
    rw [hi] at hin
    split
    · next hnone =>
      -- nothing is called, so nobody was to be
      intro j hj hpeer
      by_contra hrecv
      refine h.heard _ _ _ hin j hj hpeer hrecv ?_
      rw [udpRecvEvents, hnone]
    · next hsome =>
      obtain ⟨recv, hrecv⟩ := Option.ne_none_iff_exists'.mp hsome
      rw [udpRecvEvents, hrecv] at hin
      obtain hnil | ⟨j, -, hpeer, recv', addr, port, hevs⟩ := h.only _ _ _ hin
      · cases hnil
      · obtain rfl : i = j := (Event.udpRecv.inj (List.singleton_inj.mp hevs)).1
        exact hpeer
  · intro h
    refine ⟨by rw [hin]; simp, fun ret p' evs hevs => ?_, fun ret p' evs hevs j hj hpeer hrecv => ?_⟩
    · obtain ⟨rfl, rfl⟩ := hret hevs
      cases hfirst : u.firstLocal l q with
      | none => exact Or.inl rfl
      | some i =>
          have hi := h i hfirst
          cases hrecv : (u.pcb i).recv with
          | none =>
              left
              rw [udpRecvEvents, hrecv]
          | some recv =>
              rw [if_neg (by simp [hrecv])] at hi
              refine Or.inr ⟨i, List.mem_of_find?_eq_some hfirst, hi, recv, q.mem.get32 26,
                ntohs (q.mem.get16 (udpHdrAt q)), ?_⟩
              rw [udpRecvEvents, hrecv]
    · obtain ⟨rfl, rfl⟩ := hret hevs
      obtain ⟨i, hfirst⟩ := Option.ne_none_iff_exists'.mp (firstLocal_ne_none hj hpeer)
      have hi := h i hfirst
      rw [hfirst, udpRecvEvents]
      cases hri : (u.pcb i).recv with
      | none =>
          rw [if_pos hri] at hi
          exact absurd (hi j hj hpeer) hrecv
      | some recv => simp

/-! ## two connections on one port -/

/-- A second control block with the local end of `bindConnect`, connected to
192.168.1.102. -/
def twoPeers : List UdpOp :=
  bindConnect ++ [.new, .bind 1 (some 0x7001a8c0) 3308, .connect 1 (some 0x6601a8c0) 8837,
    .setRecv 1 (some (.app 1)) 0]

/-- The host with both. -/
def twoPeersUdp : Udp := Run.final Udp.step initial twoPeers

/-- The control block whose callback is called. -/
def recvPcb? : Event → Option UdpPcbId
  | .udpRecv i _ _ _ _ _ => some i
  | _ => none

/-- A datagram without data to them, from port 8837. -/
def peerDatagram (src : UInt32) : Pbuf where
  id := 1
  payload := 14
  totLen := 28
  len := 28
  ref := 1
  mem :=
    let m : ByteMem := fun _ => 0
    let m := m.set16 14 (htons 0x4500)
    let m := m.set32 26 src
    let m := m.set32 30 0x7001a8c0
    let m := m.set16 34 (htons 8837)
    let m := m.set16 36 (htons 3308)
    m.set16 38 (htons 8)
  wrEnd := 0
  rdEnd := 0

theorem peerDatagram_datagram (src : UInt32) :
    UdpDatagram (peerDatagram src) ∧ udpHdrAt (peerDatagram src) = 34 := by
  have hhl : (tIphHl (peerDatagram src).mem 14).toNat = 5 := by
    simp (disch := omega) [peerDatagram, tIphHl]
  have hat : udpHdrAt (peerDatagram src) = 34 := by rw [udpHdrAt, hhl]
  refine ⟨⟨rfl, by rw [hhl], by rw [hhl]; exact le_refl 28, ?_⟩, hat⟩
  rw [hat, hhl]
  simp (disch := omega) [peerDatagram]

theorem twoPeersUdp_list : IsList twoPeersUdp.next twoPeersUdp.tUdpPcbs [1, 0] ∧
    ∀ i ∈ [1, 0], (twoPeersUdp.pcb i).connected = true := by
  simp only [isList_cons, isList_nil]
  decide

/-- The second one, in front, hears 192.168.1.102. -/
theorem peer_heard_second : twoPeersUdp.HearsPeer [1, 0] (peerDatagram 0x6601a8c0) := by
  obtain ⟨hq, hat⟩ := peerDatagram_datagram 0x6601a8c0
  refine (peer_heard_iff twoPeersUdp_list.1 twoPeersUdp_list.2 hq).mpr fun i hi => ?_
  obtain rfl : i = 1 := by
    have hfirst : twoPeersUdp.firstLocal [1, 0] (peerDatagram 0x6601a8c0) = some 1 := by
      decide +kernel
    exact (Option.some.inj (hfirst.symm.trans hi)).symm
  rw [if_neg (by decide)]
  exact ⟨by decide +kernel, by decide +kernel, by decide +kernel, by decide +kernel⟩

/-- It also hears 192.168.1.101, to which the first one is connected. -/
theorem not_peer_heard : ¬ ∀ (u : Udp) (l : List UdpPcbId) (q : Pbuf),
    IsList u.next u.tUdpPcbs l → (∀ i ∈ l, (u.pcb i).connected = true) → UdpDatagram q →
      u.HearsPeer l q := by
  intro h
  have hheard := h twoPeersUdp [1, 0] (peerDatagram 0x6501a8c0) twoPeersUdp_list.1
    twoPeersUdp_list.2 (peerDatagram_datagram _).1
  obtain ⟨⟨ret, p, evs⟩, hin⟩ := Option.ne_none_iff_exists'.mp hheard.ends
  have hevs : (tUdpInput twoPeersUdp (peerDatagram 0x6501a8c0)).map
      (fun r => r.2.2.map recvPcb?) = some [some 1] := by decide +kernel
  rw [hin] at hevs
  obtain rfl | ⟨i, -, hpeer, recv, addr, port, rfl⟩ := hheard.only ret p evs hin
  · simp at hevs
  · obtain rfl : i = 1 := by simpa [recvPcb?] using hevs
    exact absurd hpeer.remoteIp (by decide +kernel)

end Udp

end TTcp
