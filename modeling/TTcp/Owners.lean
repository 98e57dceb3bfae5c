import TTcp.Calls
import TTcp.Tcp.Owned
import TTcp.Tcpip

/-!
# TTcp.Owners

Every buffer of a host has one owner at most.

Whatever frames come in and whatever the programs call, a segment block is free or queued once,
and a pbuf that is free is in no queue: nothing is freed twice, and nothing that was freed is used
(`one_owner`).  Pbufs that are lost, as `t_pbuf_cat` loses them, stay lost.
-/

namespace TTcp

open Ledger

/-! ## the free list -/

theorem tPbufFree_ids (pool : List Pbuf) {p : Pbuf} (hp : p.ref = 1) :
    (tPbufFree pool [p]).2.map Pbuf.id = p.id :: pool.map Pbuf.id := by
  rw [tPbufFree_single pool hp]
  rfl

/-- `t_udp_send` frees the packet, or leaves it to its caller. -/
theorem tUdpSend_pool (net : Net) (pool : List Pbuf) (pcb : UdpPcb) {p : Pbuf} (hp : p.ref = 1) :
    (tUdpSend net pool pcb p).2.1 = pool ∨
      (tUdpSend net pool pcb p).2.1.map Pbuf.id = p.id :: pool.map Pbuf.id := by
  unfold tUdpSend
  simp only
  split
  · exact Or.inl rfl
  · split
    · exact Or.inl rfl
    · right
      rw [tPbufFree_ids]
      · simp [tIpOutput_id, udpHdrWrite]
      · simp [tIpOutput_ref, udpHdrWrite, hp]

/-- `t_arp_request` gives its pbuf back. -/
theorem tArpRequest_pool (pool : List Pbuf) (netif : Netif) (ip : UInt32) :
    (tArpRequest pool netif ip).2.1.map Pbuf.id = pool.map Pbuf.id := by
  unfold tArpRequest
  split
  · next pool' ha => rw [tPbufAlloc_eq_none ha]
  · next p pool' ha =>
    obtain ⟨-, -, q, hpool, hp⟩ := tPbufAlloc_eq_some ha
    have hsame := arpRequestWrite_same p p.payload netif ip
    simp only
    rw [tPbufFree_ids _ (by rw [hsame.ref, hp]), hsame.id, hp, hpool]
    rfl

namespace Host

/-- The calls of a program: it uses control blocks that it was given, and sends and frees pbufs
that neither the free list nor a queue has. -/
def Fair (h : Host) : HostOp → Prop
  | .tcp op => h.tcp.Legal op ∧ h.tcp.Fair op
  | .udpSend _ p => p.ref = 1 ∧ p.id ∉ pbufIds h.pbufPool h.tcp.queued
  | _ => True

variable {h : Host} {blocks : List SegId}

/-- The free list may change, as long as it holds nothing twice and nothing that is queued. -/
theorem setPbufPool_owned (ho : h.tcp.Owned blocks) (pool : List Pbuf)
    (hn : (pbufIds pool h.tcp.queued).Nodup) : (h.setPbufPool pool).tcp.Owned blocks :=
  ⟨⟨ho.linked.head, ho.linked.next⟩, ho.blocks, hn, ho.inUse⟩

/-- The handlers keep the packet for nobody, and lose no block. -/
theorem handle_owned (ho : h.tcp.Owned blocks) (indet : Nat → Option Netif) (cbRet : ErrT)
    (netif : Netif) (p : Pbuf) (d : Handler) :
    let r := handle h indet cbRet netif (d, p)
    SameUse p r.2.1 ∧ r.2.2.1.tcp.Owned blocks ∧
      Keeps h.tcp.pools h.tcp.queued r.2.2.1.tcp.pools r.2.2.1.tcp.queued := by
  have hrefl : Keeps h.tcp.pools h.tcp.queued h.tcp.pools h.tcp.queued := .refl _ ho.inUse
  cases d with
  | arp => exact ⟨tArpInput_sameUse netif p h.arpTable, ho, hrefl⟩
  | icmp => exact ⟨tIcmpInput_sameUse netif p h.tcp.net, ho, hrefl⟩
  | udp =>
      cases hudp : tUdpInput h.udp p with
      | none =>
          simp only [handle, hudp]
          exact ⟨⟨rfl, rfl⟩, ho, hrefl⟩
      | some r =>
          simp only [handle, hudp]
          exact ⟨tUdpInput_sameUse p hudp, ho, hrefl⟩
  | tcp =>
      have hsame := tTcpInput_sameUse h.tcp indet cbRet p
      have hkeeps := ho.input_keeps indet cbRet p
      have howned : (h.tcp.exec (.input p cbRet indet)).2.Owned blocks := ho.exec trivial trivial
      have hexec : (h.tcp.exec (.input p cbRet indet)).2 = (tTcpInput h.tcp indet cbRet p).2.2 := by
        simp only [TcpHost.exec]
      rw [hexec] at howned
      rw [handle_tcp_eq]
      generalize tTcpInput h.tcp indet cbRet p = r at hsame hkeeps howned ⊢
      exact ⟨hsame, howned, hkeeps⟩
  | drop ret => exact ⟨⟨rfl, rfl⟩, ho, hrefl⟩

/-- A frame comes in, and its pbuf goes back to the free list. -/
theorem receive_owned (ho : h.tcp.Owned blocks) (frame : List UInt8) (netif : Netif)
    (indet : Nat → Option Netif) (cbRet : ErrT) :
    (h.receive frame netif indet cbRet).1.tcp.Owned blocks := by
  unfold Host.receive
  cases hrecv : ether0RecvData h.pbufPool frame with
  | mk p pool =>
  cases p with
  | none =>
      have hpool : pool = h.pbufPool := by
        unfold ether0RecvData at hrecv
        split at hrecv
        · next pool' ha =>
          obtain ⟨-, rfl⟩ := Prod.mk.inj hrecv
          exact tPbufAlloc_eq_none ha
        · cases hrecv
      exact setPbufPool_owned ho pool (hpool ▸ ho.pbufs)
  | some p =>
  obtain ⟨q, hpool, hid, href⟩ := Tcpip.ether0RecvData_eq_some hrecv
  -- the pbuf of the frame is in no queue
  have hcons : (p.id :: pbufIds pool h.tcp.queued).Nodup := by
    have hn := ho.pbufs
    have hfree : h.tcp.pools.pbufPool = q :: pool := hpool
    rw [hfree, pbufIds, List.map_cons, ← hid] at hn
    exact hn
  obtain ⟨hfresh, hn⟩ := List.nodup_cons.mp hcons
  have ho1 : (h.setPbufPool pool).tcp.Owned blocks := setPbufPool_owned ho pool hn
  obtain ⟨host, hhost⟩ : ∃ host, host = h.setPbufPool pool := ⟨_, rfl⟩
  have hfresh1 : p.id ∉ pbufIds host.tcp.pools.pbufPool host.tcp.queued := by
    rw [hhost]
    exact hfresh
  simp only
  rw [← hhost] at ho1 ⊢
  obtain ⟨hsame, ho2, hkeeps⟩ :=
    handle_owned ho1 indet cbRet netif (rawDemux p).2 (rawDemux p).1
  replace hsame := (rawDemux_sameUse p).trans hsame
  have hfresh2 := hkeeps.not_mem hfresh1
  unfold tRawInput
  generalize handle host indet cbRet netif (rawDemux p) = r at hsame ho2 hfresh2
  obtain ⟨fate, q', h2, evs⟩ := r
  cases fate with
  | returns ret =>
      refine setPbufPool_owned ho2 _ ?_
      rw [pbufIds, tPbufFree_ids _ (hsame.2.trans href), hsame.1]
      exact List.nodup_cons.mpr ⟨hfresh2, ho2.pbufs⟩
  | hangs => exact ho2
  | crashes => exact ho2

theorem exec_owned (ho : h.tcp.Owned blocks) {op : HostOp} (hop : h.Fair op) :
    (h.exec op).1.tcp.Owned blocks := by
  cases op with
  | tcp op => exact ho.exec hop.1 hop.2
  | udp op => exact ho
  | udpSend i p =>
      obtain ⟨href, hfresh⟩ := hop
      refine setPbufPool_owned ho (tUdpSend h.tcp.net h.pbufPool (h.udp.pcb i) p).2.1 ?_
      obtain hpool | hpool := tUdpSend_pool h.tcp.net h.pbufPool (h.udp.pcb i) href
      · rw [hpool]
        exact ho.pbufs
      · rw [pbufIds, hpool]
        exact List.nodup_cons.mpr ⟨hfresh, ho.pbufs⟩
  | arpRequest netif ip =>
      refine setPbufPool_owned ho (tArpRequest h.pbufPool netif ip).2.1 ?_
      rw [pbufIds, tArpRequest_pool]
      exact ho.pbufs
  | receive frame netif indet cbRet => exact receive_owned ho frame netif indet cbRet

/-- **One owner**: in every run of a host, whatever comes in, the segment blocks are the ones that
were free at first, each free or in one queue; a pbuf that is free is not queued, no pbuf is free
or queued twice, and those that are queued have one reference. -/
theorem one_owner (hb : h.tcp.Boot) (hn : (h.pbufPool.map Pbuf.id).Nodup) {ops : List HostOp}
    (hl : Run.Along (fun h op => (exec h op).1) Fair h ops) :
    let h' := (Run.final (fun h op => (exec h op).1) h ops).tcp
    (h'.pools.segPool ++ h'.queued.map TcpSeg.id).Perm h.tcp.pools.segPool ∧
      (h'.pools.pbufPool.map Pbuf.id ++ h'.queued.map fun seg => seg.p.id).Nodup ∧
      ∀ seg ∈ h'.queued, seg.p.ref = 1 := by
  have ho := Run.final_of_along (P := fun h : Host => h.tcp.Owned _)
    (fun _ _ ho hop => exec_owned ho hop) (hb.owned hn) hl
  exact ⟨ho.blocks, ho.pbufs, fun seg hs => ho.inUse _ (List.mem_map_of_mem hs)⟩

/-- A connect, and a frame that no layer knows. -/
theorem one_owner_connect :
    let h : Host := ⟨sampleHost, .initial, []⟩
    let netif : Netif := ⟨0x0200000a, 0, 0, #v[0, 0, 0, 0, 0, 1]⟩
    let ops : List HostOp := [.tcp .new, .tcp sampleConnect,
      .receive (List.replicate 54 7) netif (fun _ => none) 0]
    let h' := (Run.final (fun h op => (exec h op).1) h ops).tcp
    (h'.pools.segPool ++ h'.queued.map TcpSeg.id).Perm h.tcp.pools.segPool ∧
      (h'.pools.pbufPool.map Pbuf.id ++ h'.queued.map fun seg => seg.p.id).Nodup ∧
      ∀ seg ∈ h'.queued, seg.p.ref = 1 := by
  intro h netif ops
  refine one_owner (TcpHost.initial_boot _ _) (by decide +kernel) ?_
  refine ⟨⟨trivial, trivial⟩, ⟨?_, trivial⟩, trivial, trivial⟩
  show (0 : TcpPcbId) ∉ _
  decide +kernel

end Host

end TTcp
