import TTcp.Raw
import TTcp.Udp.Reply

/-!
# TTcp.Udp.RoundTrip

A datagram sent by one host and received by another: three headers are put in
front of the data by moving the payload pointer back, and taken off again by
moving it forward, and the receiver finds behind them what the sender was
given.
-/

namespace TTcp

/-- The packet that `t_udp_input` gets has well-formed headers. -/
theorem udpDatagram_of_frame {p : Pbuf} {n : Nat} (hlen : p.totLen.toNat = n + 28)
    (hpay : p.payload = 14) {tos : UInt8}
    (hvhl : p.mem.get16 14 = htons (0x4500 ||| tos.toUInt16))
    {m : UInt16} (hm : m.toNat = n + 8) (hudp : p.mem.get16 38 = htons m) :
    UdpDatagram p ∧ udpHdrAt p = 34 := by
  have hhl : (tIphHl p.mem 14).toNat = 5 := by rw [tIphHl, hvhl, htons_htons, vhltos_hl]
  have hat : udpHdrAt p = 34 := by rw [udpHdrAt, hhl]
  refine ⟨⟨hpay, by omega, by omega, ?_⟩, hat⟩
  rw [hat, hudp, htons_htons]
  omega

/-- The frame of a datagram in a fresh pbuf of another host, where
`t_udp_input` gets it. -/
theorem rawDemux_udpFrame {p : Pbuf} (hroom : UdpRoom p) (hlt : p.payload - 8 < 1481)
    (pcb : UdpPcb) (netif : Netif) {f : Pbuf}
    (hf : f = ipFrame (udpPacket pcb p) netif netif.ipAddr (.val pcb.remoteIp) pcb.ttl pcb.tos
      tIpProtoUdp) {q : Pbuf} (hq : Holds q f.bytes) :
    ∃ r, rawDemux q = (.udp, r) ∧ UdpDatagram r ∧ udpHdrAt r = 34 ∧
      r.totLen.toNat = p.totLen.toNat + 28 ∧ (tIphHl r.mem 14).toNat = 5 ∧
      r.mem.get32 26 = netif.ipAddr ∧ r.mem.get32 30 = pcb.remoteIp ∧
      r.mem.get16 34 = htons pcb.localPort ∧ r.mem.get16 36 = htons pcb.remotePort ∧
      r.mem.slice 42 p.totLen.toNat = p.bytes := by
  have hfields := udpFrame_fields hroom hlt pcb netif
  rw [← hf] at hfields
  obtain ⟨htot, heth, hvhl, hproto, hsrc, hdst, hsport, hdport, hudplen, hdata⟩ := hfields
  have hin := hroom.inside
  have hhead := hroom.headroom
  have hlen : f.bytes.length = p.totLen.toNat + 42 := by rw [f.length_bytes, htot]
  rw [← frameMem_get16 _ (by omega)] at heth hvhl hproto hsport hdport hudplen
  rw [← frameMem_get32 _ (by omega)] at hsrc hdst
  obtain ⟨e, hdemux⟩ := rawDemux_ipFrame hq (by omega) pcb.tos pcb.ttl tIpProtoUdp heth hvhl
    hproto
  rw [← hq.get16 (by omega)] at hvhl hsport hdport hudplen
  rw [← hq.get32 (by omega)] at hsrc hdst
  have hm : (p.totLen + 8).toNat = p.totLen.toNat + 8 := by
    rw [UInt16.toNat_add, show (8 : UInt16).toNat = 8 from rfl]
    omega
  have htot' : (q.totLen - 14).toNat = p.totLen.toNat + 28 := by
    rw [UInt16.toNat_sub, hq.totLen, hlen, show (14 : UInt16).toNat = 14 from rfl]
    omega
  obtain ⟨r, hr⟩ : ∃ r, r = { q with
    payload := 14, totLen := q.totLen - 14, len := q.len - 14, rdEnd := e } := ⟨_, rfl⟩
  have hmem : r.mem = q.mem := by rw [hr]
  have hpay : r.payload = 14 := by rw [hr]
  have htotr : r.totLen.toNat = p.totLen.toNat + 28 := by rw [hr, ← htot']
  rw [← hr] at hdemux
  rw [← hmem] at hvhl hsport hdport hudplen hsrc hdst
  have hhl : (tIphHl r.mem 14).toNat = 5 := by rw [tIphHl, hvhl, htons_htons, vhltos_hl]
  obtain ⟨hd, hat⟩ := udpDatagram_of_frame htotr hpay hvhl hm hudplen
  refine ⟨r, hdemux, hd, hat, htotr, hhl, hsrc, hdst, hsport, hdport, ?_⟩
  rw [← hdata, hmem]
  exact ByteMem.slice_congr fun j hj => by
    rw [hq.apply (by omega), frameMem_apply _ (by omega), Nat.add_assoc]

/-- **Decoding undoes encoding**: the frame that `t_udp_send` hands to the
interface, copied into a fresh pbuf on a second host, makes `t_raw_input` there
call the callback of the first connected control block for its destination,
and no other, with the sender's address and port and the payload behind the
UDP header. -/
theorem udp_roundTrip {netif : Netif} {pcb : UdpPcb} {pool : List Pbuf} {p : Pbuf}
    (hroom : UdpRoom p) {out : Netif} {frame : List UInt8}
    (hsent : (out, frame) ∈ frames (tUdpSend ⟨[netif], some netif⟩ pool pcb p).2.2)
    {u : Udp} (hu : u.Boot) {ops : List UdpOp} (hl : Run.Along Udp.step Udp.Legal u ops)
    {h : Host} (hh : h.udp = Run.final Udp.step u ops) {q : Pbuf} {pool' : List Pbuf}
    (hcopy : ether0RecvData h.pbufPool frame = (some q, pool'))
    {i : UdpPcbId}
    (hfirst : h.udp.pcbs.find? (fun j => (h.udp.pcb j).accepts pcb.remotePort pcb.remoteIp) =
      some i)
    {recv : UdpRecvFn} (hrecv : (h.udp.pcb i).recv = some recv)
    (indet : Nat → Option Netif) (cbRet : ErrT) (netif' : Netif) :
    out = netif ∧ ∃ r,
      (tRawInput (h.setPbufPool pool') indet cbRet netif' q).1 = .returns 0 ∧
      (tRawInput (h.setPbufPool pool') indet cbRet netif' q).2.2.2 =
        [.udpRecv i recv (h.udp.pcb i).recvArg r netif.ipAddr pcb.localPort] ∧
      r.bytes.drop tUdpHlen = p.bytes := by
  rw [tUdpSend_frames hroom] at hsent
  split at hsent
  · next hlt =>
    obtain ⟨f, hf⟩ : ∃ f, f = ipFrame (udpPacket pcb p) netif netif.ipAddr (.val pcb.remoteIp)
      pcb.ttl pcb.tos tIpProtoUdp := ⟨_, rfl⟩
    rw [← hf, List.mem_singleton, Prod.mk.injEq] at hsent
    obtain ⟨rfl, rfl⟩ := hsent
    have hshort : f.bytes.length < 65536 := by
      rw [f.length_bytes]
      exact f.totLen.toNat_lt
    obtain ⟨r, hdemux, hd, hat, htot, hhl, hsrc, hdst, hsport, hdport, hdata⟩ :=
      rawDemux_udpFrame hroom hlt pcb out hf (ether0RecvData_holds hshort hcopy)
    obtain ⟨l, hlist, -⟩ := hu.exists_listed hl
    rw [← hh] at hlist
    obtain ⟨e, hin⟩ := tUdpInput_datagram hlist.list hlist.length_lt hd
    rw [hat, hsport, hdport, hsrc, hdst, ntohs, htons_htons, htons_htons, ← hlist.pcbs_eq,
      hfirst] at hin
    simp only [udpRecvEvents, hrecv] at hin
    refine ⟨rfl, ?_⟩
    simp only [tRawInput, hdemux, handle, Host.setPbufPool, hin]
    refine ⟨_, trivial, rfl, ?_⟩
    have hrest : (udpPulled r e).totLen.toNat = tUdpHlen + p.totLen.toNat := by
      have := r.totLen.toNat_lt
      rw [udpPulled, hhl, UInt16.toNat_sub, UInt16.toNat_ofNat', tUdpHlen]
      omega
    rw [Pbuf.bytes, hrest, ByteMem.drop_slice, udpPulled, hat]
    exact hdata
  · simp at hsent

/-! ## three bytes -/

namespace Udp

/-- The interface 192.168.1.101. -/
def senderNetif : Netif := { sampleNetif with ipAddr := 0x6501a8c0 }

/-- The control block that sends to the one of `bindConnect`. -/
def senderPcb : UdpPcb :=
  { UdpPcb.zero with ttl := 255, localPort := 8837, remotePort := 3308, remoteIp := 0x7001a8c0 }

/-- A packet of three bytes. -/
def threeBytes : Pbuf := { emptyPacket with totLen := 3, len := 3 }

/-- The host of `bindConnect`, with one free pbuf. -/
def receiver : Host where
  tcp := TcpHost.initial ⟨[emptyPacket], []⟩ ⟨[sampleNetif], some sampleNetif⟩
  udp := Run.final Udp.step initial bindConnect
  arpTable := []

theorem threeBytes_room : UdpRoom threeBytes := ⟨by decide, by decide⟩

/-- The frame of the three bytes. -/
def threeFrame : List UInt8 :=
  (ipFrame (udpPacket senderPcb threeBytes) senderNetif senderNetif.ipAddr
    (.val senderPcb.remoteIp) senderPcb.ttl senderPcb.tos tIpProtoUdp).bytes

theorem threeFrame_sent : (senderNetif, threeFrame) ∈
    frames (tUdpSend ⟨[senderNetif], some senderNetif⟩ [] senderPcb threeBytes).2.2 := by
  rw [tUdpSend_frames threeBytes_room, if_pos (by decide)]
  exact List.mem_singleton_self _

theorem udp_roundTrip_three : ∃ q, ether0RecvData receiver.pbufPool threeFrame = (some q, []) ∧
    ∃ r, (tRawInput (receiver.setPbufPool []) (fun _ => none) 0 sampleNetif q).2.2.2 =
      [.udpRecv 0 (.app 0) 0 r 0x6501a8c0 8837] ∧ r.bytes.drop tUdpHlen = [0, 0, 0] := by
  obtain ⟨q, hq⟩ := ether0RecvData_cons emptyPacket []
    (show threeFrame.length % 65536 ≤ 1514 by decide +kernel)
  obtain ⟨-, r, -, hevs, hbytes⟩ := udp_roundTrip threeBytes_room threeFrame_sent initial_boot
    bindConnect_legal (h := receiver) rfl hq (i := 0) (by decide)
    (rfl : (receiver.udp.pcb 0).recv = some (.app 0)) (fun _ => none) 0 sampleNetif
  exact ⟨q, hq, r, hevs, hbytes⟩

end Udp

end TTcp
