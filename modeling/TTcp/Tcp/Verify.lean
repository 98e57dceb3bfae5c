import TTcp.Checksum
import TTcp.Udp.Datagram
import TTcp.Tcp.Keepalive

/-!
# TTcp.Tcp.Verify

Whatever is sent verifies: the frames of `t_tcp_output`, `tcp_keepalive` and
`t_udp_send` carry IP headers whose length and checksum are right, and the
checksum of a TCP segment is right for the addresses in its IP header.

A segment gets its checksum before the IP header is there, from the addresses
in the control block; `t_ip_output` is then called with the same addresses.
-/

namespace TTcp

open OnesSum

/-- The segment's checksum makes up for these addresses. -/
def ChksumFor (src dst : UInt32) (q : Pbuf) : Prop :=
  65535 ∣ pseudoSum src dst tIpProtoTcp q.totLen + sumLE q.data

/-- The last thing done to a segment is to fill in the checksum. -/
theorem chksumFor_set (p : Pbuf) (hlen : 20 ≤ p.len.toNat) (src dst : UInt32) :
    ChksumFor src dst (chksumPseudoSet p (p.payload + 16) src dst tIpProtoTcp) :=
  dvd_chksumPseudoSet p (by omega) (by omega) src dst tIpProtoTcp

theorem tcpAckBuild_chksumFor (pcb : TcpPcb) {p : Pbuf} (hpay : p.payload = 34)
    (hlen : p.len = 20) : ChksumFor pcb.localIp pcb.remoteIp (tcpAckBuild pcb p 34) := by
  obtain ⟨r, hr, hrpay, hrlen⟩ : ∃ r, tcpAckBuild pcb p 34 =
      chksumPseudoSet r 50 pcb.localIp pcb.remoteIp tIpProtoTcp ∧ r.payload = p.payload ∧
        r.len = p.len := ⟨_, rfl, by simp [tTcphFlagsSet, tTcphHdrlenSet],
          by simp [tTcphFlagsSet, tTcphHdrlenSet]⟩
  have h := chksumFor_set r (by rw [hrlen, hlen]; decide) pcb.localIp pcb.remoteIp
  rwa [hrpay, hpay, ← hr] at h

theorem tcpKeepaliveBuild_chksumFor (pcb : TcpPcb) {p : Pbuf} (hpay : p.payload = 34)
    (hlen : p.len = 20) : ChksumFor pcb.localIp pcb.remoteIp (tcpKeepaliveBuild pcb p 34) := by
  obtain ⟨r, hr, hrpay, hrlen⟩ : ∃ r, tcpKeepaliveBuild pcb p 34 =
      chksumPseudoSet r 50 pcb.localIp pcb.remoteIp tIpProtoTcp ∧ r.payload = p.payload ∧
        r.len = p.len := ⟨_, rfl, by simp [tTcphHdrlenSet], by simp [tTcphHdrlenSet]⟩
  have h := chksumFor_set r (by rw [hrlen, hlen]; decide) pcb.localIp pcb.remoteIp
  rwa [hrpay, hpay, ← hr] at h

/-- Every packet of a control block in order has the right checksum for the
address it is sent from, and its length fits. -/
theorem TcpPacket.chksumFor {pcb : TcpPcb} (hq : pcb.Queues) {src : UInt32} {q : Pbuf}
    (hpacket : TcpPacket pcb src q) : TcpShape q ∧ ChksumFor src pcb.remoteIp q := by
  cases hpacket with
  | seg seg hseg =>
      have hqueued := hq.unsent seg hseg
      have hle := hqueued.plen_le
      obtain ⟨-, hlen, -⟩ := segPacket_segFill pcb { pcb with localIp := src } hqueued
      refine ⟨(hqueued.segPacket pcb { pcb with localIp := src }).shape, ?_⟩
      -- the packet of a segment is its buffer with the checksum set
      obtain ⟨r, hr, hrlen⟩ : ∃ r, segPacket (segFill pcb seg) { pcb with localIp := src } =
          chksumPseudoSet r (r.payload + 16) src pcb.remoteIp tIpProtoTcp ∧
            r.len = (segPacket (segFill pcb seg) { pcb with localIp := src }).len :=
        ⟨_, rfl, rfl⟩
      rw [hlen] at hrlen
      rw [hr]
      exact chksumFor_set r (by rw [hrlen]; exact hle.1) src pcb.remoteIp
  | ack ack payload totLen len href hsrc =>
      rw [hsrc]
      exact ⟨(ackShape pcb payload totLen len).1, tcpAckBuild_chksumFor pcb payload len⟩

/-- A segment with the right checksum verifies in its frame. -/
theorem TcpShape.verifies {q : Pbuf} (hq : TcpShape q) {src dst : UInt32} (h : ChksumFor src dst q)
    (netif : Netif) (ttl tos : UInt8) :
    TcpVerifies netif (ipFrame q netif src (.val dst) ttl tos tIpProtoTcp).bytes := by
  have hfits := hq.fits
  refine ipFrame_tcpVerifies hq.payload (by omega) netif src dst ttl tos ?_
  rw [ChksumFor, Pbuf.data, hq.payload, hq.len] at h
  exact h

namespace TcpHost

variable {h : TcpHost}

/-- Every segment that a call sends verifies. -/
theorem InOrder.verifies (hi : h.InOrder) {op : SegOp} (hop : h.LegalSeg op)
    (e : Netif × List UInt8) (he : e ∈ frames (h.execSeg op).1) : TcpVerifies e.1 e.2 := by
  cases op with
  | tcp op =>
      have hframes : frames (h.execSeg (.tcp op)).1 = _ := h.frames_exec op
      rw [hframes] at he
      cases hcall : h.outputCall op with
      | none => rw [hcall] at he; exact absurd he List.not_mem_nil
      | some c =>
          obtain ⟨env, pools, pcb⟩ := c
          rw [hcall] at he
          have hq := hi.queues.outputCall hi.linked hop hcall
          obtain ⟨src, q, hpacket, -, hbytes⟩ := tTcpOutput_tcpFrames env pools hq e he
          obtain ⟨hshape, hsum⟩ := hpacket.chksumFor hq
          rw [hbytes]
          exact hshape.verifies hsum e.1 pcb.ttl pcb.tos
  | keepalive i =>
      have hframes : frames (h.execSeg (.keepalive i)).1 = _ :=
        tcpKeepalive_frames h.net h.pools (h.pcb i)
      rw [hframes] at he
      split at he
      · next p rest netif _ _ =>
        obtain ⟨q, hq⟩ : ∃ q : Pbuf, q = { p with ref := 1, payload := 34, totLen := 20, len := 20 } :=
          ⟨_, rfl⟩
        have hpay : q.payload = 34 := by rw [hq]
        have htot : q.totLen = 20 := by rw [hq]
        have hlen : q.len = 20 := by rw [hq]
        rw [← hq] at he
        rw [List.mem_singleton.mp he]
        exact (keepaliveShape (h.pcb i) hpay htot hlen).1.verifies
          (tcpKeepaliveBuild_chksumFor (h.pcb i) hpay hlen) netif (h.pcb i).ttl 0
      · exact absurd he List.not_mem_nil

end TcpHost

/-- The datagram that `t_udp_send` makes of a pbuf with headroom verifies, as
long as the length of the frame can be told. -/
theorem tUdpSend_verifies {p : Pbuf} (h42 : 42 ≤ p.payload) (hfits : p.totLen.toNat + 42 < 65536)
    (net : Net) (pool : List Pbuf) (pcb : UdpPcb) (e : Netif × List UInt8)
    (he : e ∈ frames (tUdpSend net pool pcb p).2.2) : IpVerifies e.1 e.2 := by
  rw [tUdpSend_frames_route h42] at he
  split at he
  · next hlt =>
    obtain ⟨h, hp⟩ : ∃ h, p.payload = h + 42 := ⟨p.payload - 42, by omega⟩
    obtain ⟨hpay, htot, -⟩ := udpPacket_spec pcb hp (by omega)
    split at he
    · next netif _ =>
      rw [List.mem_singleton.mp he]
      refine ipFrame_verifies hpay (by omega) ?_ netif netif.ipAddr pcb.remoteIp pcb.ttl pcb.tos
        tIpProtoUdp
      rw [htot, UInt16.toNat_add, show (8 : UInt16).toNat = 8 from rfl]
      omega
    · exact absurd he List.not_mem_nil
  · exact absurd he List.not_mem_nil

/-- **Every frame verifies**: in every reachable state, whatever
`t_tcp_output` or `tcp_keepalive` sends there, and whatever `t_udp_send` makes
of a pbuf with room in front for the headers and a length that leaves room for
them in `tot_len`. -/
theorem frames_verify {h : TcpHost} (hb : h.Boot) {ops : List SegOp}
    (hl : Run.Along TcpHost.stepSeg TcpHost.LegalSeg h ops) :
    (∀ op, (Run.final TcpHost.stepSeg h ops).LegalSeg op →
      ∀ e ∈ frames ((Run.final TcpHost.stepSeg h ops).execSeg op).1, TcpVerifies e.1 e.2) ∧
    ∀ net pool pcb p, 42 ≤ p.payload → p.totLen.toNat + 42 < 65536 →
      ∀ e ∈ frames (tUdpSend net pool pcb p).2.2, IpVerifies e.1 e.2 := by
  have hstep : ∀ (s : TcpHost) op, s.InOrder → s.LegalSeg op → (s.stepSeg op).InOrder :=
    fun _ _ hi hop => hi.stepSeg hop
  have hi : (Run.final TcpHost.stepSeg h ops).InOrder := Run.final_of_along hstep hb.inOrder hl
  exact ⟨fun op hop e he => hi.verifies hop e he,
    fun net pool pcb p h42 hfits e he => tUdpSend_verifies h42 hfits net pool pcb e he⟩

/-- After a connect, a handshake and a write. -/
theorem frames_verify_openAndWrite :
    (∀ op, (Run.final TcpHost.stepSeg sampleHost openAndWrite).LegalSeg op →
      ∀ e ∈ frames ((Run.final TcpHost.stepSeg sampleHost openAndWrite).execSeg op).1,
        TcpVerifies e.1 e.2) ∧
    ∀ net pool pcb p, 42 ≤ p.payload → p.totLen.toNat + 42 < 65536 →
      ∀ e ∈ frames (tUdpSend net pool pcb p).2.2, IpVerifies e.1 e.2 :=
  frames_verify (TcpHost.initial_boot _ _)
    ((Run.along_append TcpHost.stepSeg TcpHost.LegalSeg _ openAndWrite _).mp openAndWrite_legal).1

end TTcp
