import TTcp.Peers
import TTcp.Udp.Length
import TTcp.Udp.Peer

/-!
# TTcp.Delivered

Where the datagrams that callbacks are called with come from.

The frames under way between hosts that run this stack are ARP packets, segments and the
datagrams that `t_udp_send` was called with, and of these `t_raw_input` takes only the last for
UDP.  So whatever the network does with the frames, every callback is called with the bytes, the
port and the address of an earlier call, and on a control block that accepts its destination
(`peers_datagram`): nothing is made up, mixed up or misdelivered.
-/

namespace TTcp

namespace Host

/-- What the callback of the control block `k` of the host `h'` is told is what this host sends
when `t_udp_send` is called with the control block `i` and the pbuf `p`. -/
structure Reports (h : Host) (i : UdpPcbId) (p : Pbuf) (h' : Host) (k : UdpPcbId) (recv : UdpRecvFn)
    (r : Pbuf) (addr : UInt32) (port : UInt16) : Prop where
  data : r.bytes.drop tUdpHlen = p.bytes
  port : port = (h.udp.pcb i).localPort
  addr : ∃ out, tIpRoute h.tcp.net (h.udp.pcb i).remoteIp = some out ∧ addr = out.ipAddr
  accepts : (h'.udp.pcb k).accepts (h.udp.pcb i).remotePort (h.udp.pcb i).remoteIp = true
  recv : (h'.udp.pcb k).recv = some recv

end Host

/-! ## one datagram -/

/-- The control block that is found accepts. -/
theorem udpLookup_accepts {u : Udp} {dest : UInt16} {dst : UInt32} {k : UdpPcbId}
    (h : udpLookup u dest dst = some (some k)) : (u.pcb k).accepts dest dst = true := by
  refine Loop.run_of_invariant _ (P := fun _ => True)
    (Q := fun r => ∀ k, r = some k → (u.pcb k).accepts dest dst = true)
    (fun _ _ _ _ => trivial) (fun s r _ hdone k hr => ?_) trivial h k rfl
  cases s with
  | none =>
      rw [PtrList.findRound] at hdone
      obtain rfl := Loop.Step.done.inj hdone
      cases hr
  | some j =>
      rw [PtrList.findRound] at hdone
      split at hdone
      · next hacc =>
        obtain rfl := Loop.Step.done.inj hdone
        obtain rfl := Option.some.inj hr
        exact hacc
      · cases hdone

/-- A callback is called by the handler of UDP only. -/
theorem rawDemux_of_udpRecv {h : Host} {indet : Nat → Option Netif} {cbRet : ErrT} {netif : Netif}
    {q : Pbuf} {k : UdpPcbId} {recv : UdpRecvFn} {arg : Nat} {r : Pbuf} {addr : UInt32}
    {port : UInt16}
    (he : Event.udpRecv k recv arg r addr port ∈ (tRawInput h indet cbRet netif q).2.2.2) :
    (rawDemux q).1 = .udp := by
  by_contra hne
  rw [tRawInput_evs] at he
  have hr : r ∈ received (handle h indet cbRet netif (rawDemux q)).2.2.2 :=
    List.mem_filterMap.mpr ⟨_, he, rfl⟩
  rw [← Prod.mk.eta (p := rawDemux q), received_handle h indet cbRet netif hne] at hr
  exact absurd hr List.not_mem_nil

/-- A frame that is taken for UDP was sent for a datagram. -/
theorem PeerFrame.sent_of_udp {U : Prop} {frame : List UInt8} (hf : PeerFrame U frame) {p : Pbuf}
    (hp : Holds p frame) (hudp : (rawDemux p).1 = .udp) : U := by
  cases hf.kind with
  | arp length type =>
      rw [(rawDemux_arp hp length type).2] at hudp
      cases hudp
  | udp sent h => exact sent
  | tcp h =>
      obtain ⟨s, k, ⟨r, p', hdemux, -⟩, -⟩ := h p hp
      rw [hdemux] at hudp
      cases hudp

namespace Host

/-- A callback that is called for the frame of a datagram is told of that datagram. -/
theorem SendsUdp.reports {h : Host} {op : HostOp} {frame : List UInt8} {i : UdpPcbId} {p : Pbuf}
    {out : Netif} (hs : h.SendsUdp op frame i p out) {h' : Host} {indet : Nat → Option Netif}
    {cbRet : ErrT} {netif : Netif} {q : Pbuf} (hq : Holds q frame) {k : UdpPcbId}
    {recv : UdpRecvFn} {arg : Nat} {r : Pbuf} {addr : UInt32} {port : UInt16}
    (he : Event.udpRecv k recv arg r addr port ∈ (tRawInput h' indet cbRet netif q).2.2.2) :
    h.Reports i p h' k recv r addr port := by
  rw [hs.frame] at hq
  obtain ⟨q', hdemux, hd, hat, htot, hhl, hsrc, hdst, hsport, hdport, hdata⟩ :=
    rawDemux_udpFrame hs.room hs.payload (h.udp.pcb i) out rfl hq
  obtain ⟨e, hin⟩ := tUdpInput_eq h'.udp hd
  rw [hat, hsport, hdport, hsrc, hdst, ntohs, htons_htons, htons_htons] at hin
  rw [tRawInput_evs, hdemux] at he
  simp only [handle, hin] at he
  cases hlook : udpLookup h'.udp (h.udp.pcb i).remotePort (h.udp.pcb i).remoteIp with
  | none =>
      rw [hlook] at he
      exact absurd he List.not_mem_nil
  | some found =>
  cases found with
  | none =>
      rw [hlook] at he
      exact absurd he List.not_mem_nil
  | some j =>
  rw [hlook] at he
  simp only [Option.map_some, udpRecvEvents] at he
  cases hrecv : (h'.udp.pcb j).recv with
  | none =>
      rw [hrecv] at he
      exact absurd he List.not_mem_nil
  | some fn =>
      rw [hrecv] at he
      obtain ⟨rfl, rfl, -, rfl, rfl, rfl⟩ := Event.udpRecv.inj (List.mem_singleton.mp he)
      refine ⟨?_, rfl, ⟨out, hs.route, rfl⟩, udpLookup_accepts hlook, hrecv⟩
      have hrest : (udpPulled q' e).totLen.toNat = tUdpHlen + p.totLen.toNat := by
        have := q'.totLen.toNat_lt
        rw [udpPulled, hhl, UInt16.toNat_sub, UInt16.toNat_ofNat', tUdpHlen]
        omega
      rw [Pbuf.bytes, hrest, ByteMem.drop_slice, udpPulled, hat]
      exact hdata

/-- A frame of a peer that makes `receive` call a callback was sent for a datagram, which is what
the callback is told. -/
theorem receive_reports {h' : Host} {frame : List UInt8}
    {h : Host} {op : HostOp} (hf : PeerFrame (∃ i p out, h.SendsUdp op frame i p out) frame)
    {netif : Netif} {indet : Nat → Option Netif} {cbRet : ErrT} {k : UdpPcbId} {recv : UdpRecvFn}
    {arg : Nat} {r : Pbuf} {addr : UInt32} {port : UInt16}
    (he : Event.udpRecv k recv arg r addr port ∈ (h'.receive frame netif indet cbRet).2) :
    ∃ i p, op = .udpSend i p ∧ h.Reports i p h' k recv r addr port := by
  unfold Host.receive at he
  cases hrecv : ether0RecvData h'.pbufPool frame with
  | mk q pool =>
  rw [hrecv] at he
  cases q with
  | none => exact absurd he List.not_mem_nil
  | some q =>
  have hq := ether0RecvData_holds hf.lt hrecv
  replace he : Event.udpRecv k recv arg r addr port ∈
    (tRawInput (h'.setPbufPool pool) indet cbRet netif q).2.2.2 := he
  obtain ⟨i, p, out, hs⟩ := hf.sent_of_udp hq (rawDemux_of_udpRecv he)
  obtain ⟨data, port, addr, accepts, recv⟩ := hs.reports hq he
  exact ⟨i, p, hs.op, data, port, addr, accepts, recv⟩

end Host

/-! ## the network -/

section
variable {ι : Type*}

/-- **Datagrams between peers**: among hosts that all run this stack, whatever the network does
with the frames, every callback is called with the data, the source port and the source address
of a datagram that one of the hosts sent before, by a control block that accepts it. -/
theorem peers_datagram [DecidableEq ι] {s : Network.State ι Host (List UInt8)}
    (hboot : ∀ i, (s.node i).tcp.Boot) (hsent : s.sent = []) {as : List (ι × HostOp)} {n : ι}
    {frame : List UInt8} {netif : Netif} {indet : Nat → Option Netif} {cbRet : ErrT}
    (hl : Run.Along (Network.step (peers ι)) (Network.Legal (peers ι) fun _ => Host.ByProgram) s
      (as ++ [(n, .receive frame netif indet cbRet)])) {k : UdpPcbId} {recv : UdpRecvFn} {arg : Nat}
    {r : Pbuf} {addr : UInt32} {port : UInt16} :
    let h' := (Run.final (Network.step (peers ι)) s as).node n
    .udpRecv k recv arg r addr port ∈ (h'.receive frame netif indet cbRet).2 →
    ∃ before m i p after, as = before ++ (m, .udpSend i p) :: after ∧
      ((Run.final (Network.step (peers ι)) s before).node m).Reports i p h' k recv r addr port := by
  intro h' he
  rw [Run.along_append] at hl
  obtain ⟨hl, ⟨-, htakes⟩, -⟩ := hl
  -- the frame was sent by some action of some host
  obtain hmem | ⟨before, m, op, after, rfl, hmem⟩ := Network.exists_sender (htakes frame rfl)
  · rw [hsent] at hmem
    exact absurd hmem List.not_mem_nil
  rw [Run.along_append] at hl
  obtain ⟨hbefore, ⟨hop, htakes'⟩, -⟩ := hl
  obtain ⟨hnode, hframes⟩ := peers_inv hboot hsent hbefore
  obtain ⟨e, hfe, rfl⟩ := List.mem_map.mp hmem
  -- of all that hosts send, only a datagram makes a callback be called
  have hf := (Host.exec_peer (hnode m) hop fun f hf => hframes f (htakes' f hf)).2 e hfe
  obtain ⟨i, p, rfl, hreports⟩ := Host.receive_reports hf he
  exact ⟨before, m, i, p, after, rfl, hreports⟩

end

/-- Two hosts, the first of which has a control block connected to that of the second. -/
def udpHosts : Network.State Bool Host (List UInt8) where
  node
    | false =>
        { tcp := TcpHost.initial ⟨[], []⟩ ⟨[Udp.senderNetif], some Udp.senderNetif⟩
          udp := Udp.initial.setPcb 0 Udp.senderPcb
          arpTable := [] }
    | true => Udp.receiver
  sent := []

/-- The first one sends three bytes. -/
def threeSent : List (Bool × HostOp) := [(false, .udpSend 0 Udp.threeBytes)]

/-- The second one's callback gets them. -/
theorem peers_datagram_three :
    let h' := (Run.final (Network.step (peers Bool)) udpHosts threeSent).node true
    ∃ recv arg r addr port, .udpRecv 0 recv arg r addr port ∈
        (h'.receive Udp.threeFrame Udp.sampleNetif (fun _ => none) 0).2 ∧
      ∃ before m i p after, threeSent = before ++ (m, .udpSend i p) :: after ∧
        ((Run.final (Network.step (peers Bool)) udpHosts before).node m).Reports i p h' 0 recv r
          addr port := by
  intro h'
  have hcalled : (h'.receive Udp.threeFrame Udp.sampleNetif (fun _ => none) 0).2.map
      Udp.recvPcb? = [some 0] := by decide +kernel
  obtain ⟨e, he, hpcb⟩ : ∃ e ∈ (h'.receive Udp.threeFrame Udp.sampleNetif (fun _ => none) 0).2,
      Udp.recvPcb? e = some 0 := List.mem_map.mp (by rw [hcalled]; exact List.mem_singleton_self _)
  cases e with
  | udpRecv k recv arg r addr port =>
      obtain rfl : k = 0 := Option.some.inj hpcb
      refine ⟨recv, arg, r, addr, port, he, peers_datagram (s := udpHosts) ?_ rfl ?_ he⟩
      · intro i
        cases i <;> exact TcpHost.initial_boot _ _
      · refine ⟨⟨Udp.threeBytes_room, fun _ hm => by cases hm⟩, ⟨trivial, fun f hf => ?_⟩, trivial⟩
        obtain rfl := Option.some.inj hf
        have hframes : (Udp.senderNetif, Udp.threeFrame) ∈ frames (tUdpSend
            ⟨[Udp.senderNetif], some Udp.senderNetif⟩ [] Udp.senderPcb Udp.threeBytes).2.2 := by
          rw [tUdpSend_frames Udp.threeBytes_room, if_pos (by decide)]
          exact List.mem_singleton_self _
        exact List.mem_map.mpr ⟨_, hframes, rfl⟩
  | _ => cases hpcb

end TTcp
