import TTcp.Delivered
import TTcp.SMain.Hangs

/-!
# TTcp.SMain.Hears

Which datagrams does the program of `user/s_main.c` print?

A UDP test binds its control block, connects it and sets `udp_recv_data` before it sends, and
removes it after it has slept.  In between every datagram for its port is printed, whoever sent it,
and at no other time is one (`udpRecvData_iff`).
-/

namespace TTcp

/-! ## one datagram -/

/-- A UDP datagram for this address and port, as `t_raw_input` gets it. -/
structure UdpFor (dst : UInt32) (port : UInt16) (p : Pbuf) : Prop where
  type : htons (p.mem.get16 12) = tIpv4FrameType
  version : tIphV p.mem 14 = 4
  proto : tIphProto p.mem 14 = tIpProtoUdp.toUInt16
  hlen : 8 + (tIphHl p.mem 14).toNat * 4 ≤ (p.totLen - 14).toNat
  len : (htons (p.mem.get16 (udpHdrAt p + 4))).toNat + (tIphHl p.mem 14).toNat * 4 ≤
    (p.totLen - 14).toNat
  dst : p.mem.get32 30 = dst
  port : ntohs (p.mem.get16 (udpHdrAt p + 2)) = port

section
variable {u : Udp} {p : Pbuf}

/-- A packet that goes to a callback goes to that of a control block on the list. -/
theorem Udp.Listed.mem_of_forCallback {l : List UdpPcbId} (h : u.Listed l)
    (hfor : UdpForCallback u p) : ∃ i ∈ l, (u.pcb i).recv ≠ none := by
  obtain ⟨i, hi, hrecv⟩ := hfor.recv
  rw [udpLookup_of_list h.list h.length_lt] at hi
  exact ⟨i, List.mem_of_find?_eq_some (Option.some.inj hi), hrecv⟩

/-- With one that is connected, its callback gets the datagrams for it. -/
theorem Udp.Listed.forCallback_iff {i : UdpPcbId} (h : u.Listed [i])
    (hconn : (u.pcb i).connected = true) : UdpForCallback u p ↔
      (u.pcb i).recv ≠ none ∧ UdpFor (u.pcb i).localIp (u.pcb i).localPort p := by
  have hlook := udpLookup_of_list h.list h.length_lt
    (ntohs (p.mem.get16 (udpHdrAt p + 2))) (p.mem.get32 30)
  have haccepts : (u.pcb i).accepts (ntohs (p.mem.get16 (udpHdrAt p + 2))) (p.mem.get32 30) =
      true ↔ p.mem.get32 30 = (u.pcb i).localIp ∧
        ntohs (p.mem.get16 (udpHdrAt p + 2)) = (u.pcb i).localPort := by
    rw [UdpPcb.accepts, hconn, Bool.true_and, Bool.and_eq_true, beq_iff_eq, beq_iff_eq, and_comm]
    exact and_congr eq_comm eq_comm
  rw [List.find?_singleton] at hlook
  constructor
  · intro hfor
    obtain ⟨j, hj, hrecv⟩ := hfor.recv
    rw [hlook] at hj
    split at hj
    · next hacc =>
      obtain rfl : i = j := by simpa using hj
      obtain ⟨hdst, hport⟩ := haccepts.mp hacc
      exact ⟨hrecv, hfor.type, hfor.version, hfor.proto, hfor.hlen, hfor.len, hdst, hport⟩
    · simp at hj
  · rintro ⟨hrecv, hfor⟩
    refine ⟨hfor.type, hfor.version, hfor.proto, hfor.hlen, hfor.len, i, ?_, hrecv⟩
    rw [hlook, if_pos (haccepts.mpr ⟨hfor.dst, hfor.port⟩)]

/-- The callback that is called is that of a control block on the list. -/
theorem Udp.Listed.recv_of_udpRecv {l : List UdpPcbId} (hl : u.Listed l)
    {r : Int × Pbuf × List Event} (hr : tUdpInput u p = some r) {i : UdpPcbId} {recv : UdpRecvFn}
    {arg : Nat} {q : Pbuf} {addr : UInt32} {port : UInt16}
    (he : Event.udpRecv i recv arg q addr port ∈ r.2.2) : i ∈ l ∧ (u.pcb i).recv = some recv := by
  unfold tUdpInput at hr
  simp only at hr
  split at hr
  · obtain rfl := Option.some.inj hr
    cases he
  split at hr
  · obtain rfl := Option.some.inj hr
    cases he
  split at hr
  · cases hr
  · obtain rfl := Option.some.inj hr
    cases he
  next j q' hrun =>
  split at hr
  · obtain rfl := Option.some.inj hr
    cases he
  next recv' hrecv =>
  obtain rfl := Option.some.inj hr
  obtain ⟨rfl, rfl, -⟩ := Event.udpRecv.inj (List.mem_singleton.mp he)
  obtain ⟨e, hsearch⟩ := run_udpDemuxRound u _ _ _
  rw [hsearch, udpLookup_of_list hl.list hl.length_lt] at hrun
  have hfind := (Prod.mk.inj (Option.some.inj hrun)).1
  exact ⟨List.mem_of_find?_eq_some hfind, hrecv⟩

end

/-- A new control block has no callback. -/
theorem tUdpNew_recv {u : Udp} {i : UdpPcbId} (h : (tUdpNew u).1 = some i) :
    ((tUdpNew u).2.pcb i).recv = none := by
  unfold tUdpNew at h ⊢
  split at h
  · cases h
  · next j rest hp =>
    obtain rfl := Option.some.inj h
    simp only [Udp.setPcb_pcb_self]
    rfl

theorem connected_connectedPcb (pcb : UdpPcb) (ipaddr : Option UInt32) (port : UInt16) :
    (connectedPcb pcb ipaddr port).connected = true := by
  have hbool : ∀ a b : Bool, ((a || b) && b) = b := by decide
  have hflag : ∀ flags : UInt8, (flags ||| tUdpFlagsConnected) &&& tUdpFlagsConnected =
      tUdpFlagsConnected := fun flags => by
    apply UInt8.toBitVec_inj.mp
    ext i hi
    simp only [UInt8.toBitVec_and, UInt8.toBitVec_or, BitVec.getElem_and, BitVec.getElem_or]
    exact hbool _ _
  rw [UdpPcb.connected, connectedPcb, hflag]
  rfl

/-- The packet is as the driver leaves it: it begins where its buffer does and fits it, and both
lengths are the same. -/
structure Pbuf.Fresh (p : Pbuf) : Prop where
  payload : p.payload = 0
  len : p.len = p.totLen
  fits : p.totLen.toNat ≤ 1514

theorem ether0RecvData_fresh {pool pool' : List Pbuf} {frame : List UInt8} {p : Pbuf}
    (h : ether0RecvData pool frame = (some p, pool')) : p.Fresh := by
  unfold ether0RecvData at h
  split at h
  · cases h
  · next q _ halloc =>
    obtain ⟨hlen, -, r, -, rfl⟩ := tPbufAlloc_eq_some halloc
    rw [UInt16.add_zero] at hlen
    obtain ⟨h, -⟩ := Prod.mk.inj h
    obtain rfl := Option.some.inj h
    unfold tPbufCopyData
    split <;> exact ⟨rfl, rfl, hlen⟩

/-! ## the control block of a test -/

/-- The control block that `udp_recv_data` is set for. -/
def MainAt.hearing : MainAt → Option UdpPcbId
  | pbufAlloc i | udpSend i _ | udpRemove i => some i
  | _ => none

theorem MainAt.of_hearing {main : MainAt} {i : UdpPcbId} (h : main.hearing = some i) :
    main.taken = [i] ∧ main.bound = [i] ∧ ∀ j, main ≠ .udpConnect j := by
  cases main with
  | pbufAlloc j | udpSend j p | udpRemove j =>
      obtain rfl := Option.some.inj h
      exact ⟨rfl, rfl, fun j => by simp⟩
  | _ => cases h

theorem MainAt.bound_subset_taken (main : MainAt) : main.bound ⊆ main.taken := by
  cases main with
  | udpBind i => exact List.nil_subset _
  | _ => exact List.Subset.refl _

theorem MainAt.packet_of_taken {main : MainAt} (h : main.taken = []) : main.packet = [] := by
  cases main with
  | udpSend i p => cases h
  | _ => rfl

/-- The control block of a UDP test, as the calls up to here have left it. -/
structure Hears (times : UInt32) (main : MainAt) (u : Udp) : Prop where
  recv : ∀ i ∈ main.taken, (u.pcb i).recv = main.hearing.map fun _ => udpRecvData
  localIp : ∀ i ∈ main.bound, (u.pcb i).localIp = netif0.ipAddr
  localPort : ∀ i ∈ main.bound, (3307 + times).toUInt16 ≠ 0 →
    (u.pcb i).localPort = (3307 + times).toUInt16
  connected : ∀ i ∈ main.bound, main ≠ .udpConnect i → (u.pcb i).connected = true ∧
    (u.pcb i).remoteIp = testHost ∧ (u.pcb i).remotePort = testPort

namespace Hears

variable {times : UInt32} {main main' : MainAt} {u : Udp}

theorem of_taken (h : main.taken = []) : Hears times main u := by
  have hbound : ∀ i, i ∉ main.bound := fun i hi =>
    absurd (h ▸ main.bound_subset_taken hi) List.not_mem_nil
  exact ⟨fun i hi => absurd (h ▸ hi) List.not_mem_nil, fun i hi => absurd hi (hbound i),
    fun i hi => absurd hi (hbound i), fun i hi => absurd hi (hbound i)⟩

/-- Between `t_set_udp_recv` and `t_udp_remove`. -/
theorem congr {i : UdpPcbId} (h : Hears times main u) (hmain : main.hearing = some i)
    (hmain' : main'.hearing = some i) : Hears times main' u := by
  obtain ⟨htaken, hbound, hconn⟩ := MainAt.of_hearing hmain
  obtain ⟨htaken', hbound', -⟩ := MainAt.of_hearing hmain'
  refine ⟨fun j hj => ?_, fun j hj => ?_, fun j hj => ?_, fun j hj _ => ?_⟩
  · rw [hmain', ← hmain]
    exact h.recv j (htaken ▸ htaken' ▸ hj)
  · exact h.localIp j (hbound ▸ hbound' ▸ hj)
  · exact h.localPort j (hbound ▸ hbound' ▸ hj)
  · exact h.connected j (hbound ▸ hbound' ▸ hj) (hconn j)

/-- It has an endpoint, once it is on the list. -/
theorem bind {i : UdpPcbId} (h : Hears times (.udpBind i) u) {u' : Udp}
    (hu : u'.pcb = Function.update u.pcb i
      (Udp.boundPcb u i (some netif0.ipAddr) (3307 + times).toUInt16)) :
    Hears times (.udpConnect i) u' := by
  have hrecv := h.recv i (List.mem_singleton_self i)
  refine ⟨fun j hj => ?_, fun j hj => ?_, fun j hj hport => ?_, fun j hj hne => ?_⟩
  all_goals obtain rfl := List.mem_singleton.mp hj
  · rw [hu, Function.update_self]
    exact hrecv
  · rw [hu, Function.update_self]
    rfl
  · rw [hu, Function.update_self]
    show (udpPort u _).1 = _
    rw [udpPort, if_neg hport]
  · exact absurd rfl hne

/-- Connecting binds again when the port of the counter was 0. -/
theorem connect {i : UdpPcbId} (h : Hears times (.udpConnect i) u) {u' : Udp}
    (hu : u'.pcb = Function.update u.pcb i (connectedPcb (if (u.pcb i).localPort = 0 then
      Udp.boundPcb u i (some (u.pcb i).localIp) 0 else u.pcb i) (some testHost) testPort)) :
    Hears times (.setUdpRecv i) u' := by
  have hmem := List.mem_singleton_self i
  have hrecv := h.recv i hmem
  have hlocalIp := h.localIp i hmem
  have hlocalPort := h.localPort i hmem
  refine ⟨fun j hj => ?_, fun j hj => ?_, fun j hj hport => ?_, fun j hj _ => ?_⟩
  all_goals
    obtain rfl := List.mem_singleton.mp hj
    rw [hu, Function.update_self]
  · split <;> exact hrecv
  · split <;> exact hlocalIp
  · rw [if_neg (hlocalPort hport ▸ hport)]
    exact hlocalPort hport
  · exact ⟨connected_connectedPcb _ _ _, rfl, rfl⟩

theorem setRecv {i : UdpPcbId} (h : Hears times (.setUdpRecv i) u) :
    Hears times (.pbufAlloc i) (tSetUdpRecv u i (some udpRecvData) 0) := by
  have hmem := List.mem_singleton_self i
  refine ⟨fun j hj => ?_, fun j hj => ?_, fun j hj hport => ?_, fun j hj _ => ?_⟩
  all_goals
    obtain rfl := List.mem_singleton.mp hj
    rw [tSetUdpRecv, Udp.setPcb_pcb_self]
  · rfl
  · exact h.localIp j hmem
  · exact h.localPort j hmem hport
  · exact h.connected j hmem (by simp)

end Hears

/-! ## one step -/

/-- The frames in the mailbox are as the driver has left them. -/
def Tcpip.Fresh (s : Tcpip) : Prop :=
  ∀ msg ∈ s.mbox, ∀ p netif, msg.body = .input p netif → p.Fresh

/-- The driver does nothing to UDP. -/
theorem ether0Recv_fresh {s : Tcpip} (hs : s.Fresh) (frame : List UInt8) (inp : Netif)
    (posted : Bool) : (ether0Recv s frame inp posted).host.udp = s.host.udp ∧
      (ether0Recv s frame inp posted).Fresh := by
  unfold ether0Recv
  split
  · exact ⟨rfl, hs⟩
  · next p pool hp =>
    unfold tTcpipInput
    split
    · exact ⟨rfl, hs⟩
    · next id msgPool hpool =>
      split
      · refine ⟨rfl, fun msg hmsg q netif hbody => ?_⟩
        obtain hmsg | hmsg := List.mem_append.mp hmsg
        · exact hs msg hmsg q netif hbody
        · obtain rfl := List.mem_singleton.mp hmsg
          obtain ⟨rfl, -⟩ := TcpipMsgBody.input.inj hbody
          exact ether0RecvData_fresh hp
      · exact ⟨rfl, hs⟩

namespace SMain

/-- What the datagrams of the tests depend on: the control block, the packet that is about to be
sent, and the frames that have come in. -/
structure Hearing (s : SMain) : Prop where
  test : Hears s.times s.main s.host.udp
  packet : ∀ p ∈ s.main.packet, p.payload = 42 ∧ p.totLen = 10 ∧ p.bytes = testData
  fresh : s.tcpip.Fresh

variable {n : Nat} {s : SMain}

theorem Hearing.of_taken {s' : SMain} (h : s.Hearing) (htaken : s'.main.taken = [])
    (hmbox : s'.tcpip.mbox = s.tcpip.mbox) : s'.Hearing := by
  refine ⟨.of_taken htaken, ?_, ?_⟩
  · rw [MainAt.packet_of_taken htaken]
    exact fun p hp => absurd hp List.not_mem_nil
  · rw [Tcpip.Fresh, hmbox]
    exact h.fresh

/-- A key. -/
theorem Hearing.key (h : s.Hearing) (hmain : s.main = .getchar) (c : UInt8) : (s.key c).Hearing := by
  by_cases hexit : c = 32
  · rw [SMain.key, if_pos hexit]
    exact h.of_taken rfl rfl
  by_cases hudp : c = 0x31
  · rw [SMain.key, if_neg hexit, if_pos hudp]
    simp only
    split
    · next i hnew =>
      refine ⟨⟨fun j hj => ?_, fun j hj => absurd hj List.not_mem_nil,
        fun j hj => absurd hj List.not_mem_nil, fun j hj => absurd hj List.not_mem_nil⟩,
        fun p hp => absurd hp List.not_mem_nil, h.fresh⟩
      obtain rfl := List.mem_singleton.mp hj
      exact tUdpNew_recv hnew
    · exact h.of_taken (by rw [show _ = s.main from rfl, hmain]; rfl) rfl
  by_cases htcp : c = 0x32
  · rw [SMain.key, if_neg hexit, if_neg hudp, if_pos htcp]
    exact h.of_taken rfl rfl
  · rw [SMain.key, if_neg hexit, if_neg hudp, if_neg htcp]
    exact h

/-- A call of `main`. -/
theorem Hearing.call (h : s.Hearing) (hi : Inv n s) (hback : s.tcpip.mbox.length ≤ backlog)
    (indet : Nat → Option Netif) : (s.call indet).1.Hearing := by
  have htest := h.test
  cases hmain : s.main with
  | udpBind i =>
      rw [hmain] at htest
      obtain ⟨u, hcall, -, -, hpcb⟩ := hi.udpBind_eq indet hmain
      rw [hcall]
      exact ⟨htest.bind hpcb, fun p hp => absurd hp List.not_mem_nil, h.fresh⟩
  | udpConnect i =>
      rw [hmain] at htest
      obtain ⟨u, hcall, -, -, hpcb⟩ := hi.udpConnect_eq indet hmain
      rw [hcall]
      exact ⟨htest.connect hpcb, fun p hp => absurd hp List.not_mem_nil, h.fresh⟩
  | setUdpRecv i =>
      rw [hmain] at htest
      rw [call_setUdpRecv_eq indet hmain]
      exact ⟨htest.setRecv, fun p hp => absurd hp List.not_mem_nil, h.fresh⟩
  | pbufAlloc i =>
      rw [hmain] at htest
      obtain ⟨q, pool, p, -, hcall, -, hpacket⟩ := hi.pbufAlloc_eq indet hmain hback
      rw [hcall]
      refine ⟨htest.congr rfl rfl, fun p' hp => ?_, h.fresh⟩
      obtain rfl := List.mem_singleton.mp hp
      exact hpacket
  | udpSend i p =>
      rw [hmain] at htest
      rw [hi.udpSend_eq indet hmain]
      exact ⟨htest.congr rfl rfl, fun p hp => absurd hp List.not_mem_nil, h.fresh⟩
  | udpRemove i =>
      obtain ⟨u, hcall, -⟩ := hi.udpRemove_eq indet hmain
      rw [hcall]
      exact h.of_taken rfl rfl
  | tcpConnect i =>
      cases i with
      | none =>
          simp only [SMain.call, hmain]
          exact h.of_taken rfl rfl
      | some i =>
          rw [hi.tcpConnect_eq indet hmain]
          exact h.of_taken rfl rfl
  | keepalive i again =>
      rw [hi.keepalive_eq indet hmain]
      refine h.of_taken ?_ rfl
      cases again <;> rfl
  | getchar | exited | hung | crashed =>
      simp only [SMain.call, hmain]
      exact h

/-- One step. -/
theorem Hearing.step (h : s.Hearing) (hi : Inv n s) {op : SMainOp} (hop : s.Legal op) :
    (s.step op).Hearing := by
  cases op with
  | key c => exact h.key (MainAt.eq_of_atKey hop.enabled.2) c
  | call indet => exact h.call hi hop.waiting indet
  | recv frame posted =>
      obtain ⟨hudp, hfresh⟩ := ether0Recv_fresh h.fresh frame netif0 posted
      refine ⟨?_, h.packet, hfresh⟩
      show Hears s.times s.main (ether0Recv s.tcpip frame netif0 posted).host.udp
      rw [hudp]
      exact h.test
  | task fetched indet mapped =>
      obtain ⟨hstep, -⟩ | ⟨-, p, netif, msg, mbox, host, msgPool, fate, hmbox, -, -, -, hhandles,
          hstep⟩ := hi.task_cases fetched indet mapped
      · rw [hstep]
        exact ⟨h.test, h.packet, h.fresh⟩
      · rw [hstep]
        refine ⟨?_, h.packet, fun m hm => h.fresh m (hmbox ▸ List.mem_cons_of_mem msg hm)⟩
        show Hears s.times s.main host.udp
        rw [hhandles.udp]
        exact h.test

theorem start_hearing (mem : PbufId → ByteMem) : (start mem).Hearing :=
  ⟨.of_taken rfl, fun _ hp => absurd hp List.not_mem_nil, fun _ hmsg => absurd hmsg List.not_mem_nil⟩

/-! ## what is printed -/

/-- The stack has a callback for a packet if `main` has set one, and the packet is for its port. -/
theorem Hearing.forCallback_iff (h : s.Hearing) (hi : Inv n s) (p : Pbuf) :
    UdpForCallback s.host.udp p ↔ ∃ i, s.main.hearing = some i ∧
      UdpFor netif0.ipAddr (s.host.udp.pcb i).localPort p := by
  have hlisted := hi.udp.listed
  cases hhear : s.main.hearing with
  | none =>
      refine iff_of_false (fun hfor => ?_) (by simp)
      obtain ⟨i, hmem, hrecv⟩ := hlisted.mem_of_forCallback hfor
      rw [h.test.recv i (s.main.bound_subset_taken hmem), hhear] at hrecv
      exact hrecv rfl
  | some i =>
      obtain ⟨htaken, hbound, hconn⟩ := MainAt.of_hearing hhear
      have hrecv := h.test.recv i (htaken ▸ List.mem_singleton_self i)
      have hmem : i ∈ s.main.bound := hbound ▸ List.mem_singleton_self i
      rw [hbound] at hlisted
      rw [hlisted.forCallback_iff (h.test.connected i hmem (hconn i)).1, h.test.localIp i hmem, hrecv,
        hhear]
      simp

/-- The callback that is called is `udp_recv_data`. -/
theorem Hearing.of_udpRecv (h : s.Hearing) (hi : Inv n s) {indet : Nat → Option Netif}
    {cbRet : ErrT} {netif : Netif} {p : Pbuf} {i : UdpPcbId} {recv : UdpRecvFn} {arg : Nat}
    {q : Pbuf} {addr : UInt32} {port : UInt16}
    (he : Event.udpRecv i recv arg q addr port ∈ (tRawInput s.host indet cbRet netif p).2.2.2) :
    s.main.hearing = some i ∧ recv = udpRecvData := by
  have hdemux := rawDemux_of_udpRecv he
  rw [tRawInput_evs, ← Prod.mk.eta (p := rawDemux p), hdemux] at he
  cases hr : tUdpInput s.host.udp (rawDemux p).2 with
  | none =>
      simp only [handle, hr] at he
      exact absurd he List.not_mem_nil
  | some r =>
      simp only [handle, hr] at he
      obtain ⟨hmem, hrecv⟩ := hi.udp.listed.recv_of_udpRecv hr he
      rw [h.test.recv i (s.main.bound_subset_taken hmem)] at hrecv
      obtain ⟨j, hhear, rfl⟩ := Option.map_eq_some_iff.mp hrecv
      rw [(MainAt.of_hearing hhear).2.1] at hmem
      obtain rfl := List.mem_singleton.mp hmem
      exact ⟨hhear, rfl⟩

theorem Fetches.fresh {p : Pbuf} (h : s.Fetches p) (hs : s.tcpip.Fresh) : p.Fresh := by
  obtain ⟨msg, netif, hmsg, hbody⟩ := h
  exact hs msg (List.mem_of_mem_head? hmsg) p netif hbody

/-- **The datagrams that are printed**: in every run of the program an iteration of the task calls a
callback exactly when `main` is between `t_set_udp_recv` and `t_udp_remove` and a datagram is fetched
for the address of the interface and the port of the test.  The callback is `udp_recv_data`, and the
port is the one that `main` asked for, unless that was 0. -/
theorem udpRecvData_iff (mem : PbufId → ByteMem) {ops : List SMainOp}
    (hl : Run.Along SMain.step Legal (start mem) ops) (fetched : Bool)
    (indet : Nat → Option Netif) (mapped : Bool) :
    let s := Run.final SMain.step (start mem) ops
    let evs := (s.exec (.task fetched indet mapped)).2
    (received evs ≠ [] ↔ fetched ∧ ∃ p i, s.Fetches p ∧ s.main.hearing = some i ∧
        UdpFor netif0.ipAddr (s.host.udp.pcb i).localPort p) ∧
      (∀ i recv arg q addr port, .udpRecv i recv arg q addr port ∈ evs →
        s.main.hearing = some i ∧ recv = udpRecvData) ∧
      ∀ i, s.main.hearing = some i → (3307 + s.times).toUInt16 ≠ 0 →
        (s.host.udp.pcb i).localPort = (3307 + s.times).toUInt16 := by
  intro s evs
  have hi : Inv (0 + ops.countP SMainOp.isTcpTest) s := (inv_start mem).final hl
  have h : s.Hearing :=
    (inv_start mem).final_of_step (fun hi h _ hop => h.step hi hop) (start_hearing mem) hl
  have hport : ∀ i, s.main.hearing = some i → (3307 + s.times).toUInt16 ≠ 0 →
      (s.host.udp.pcb i).localPort = (3307 + s.times).toUInt16 := fun i hhear =>
    h.test.localPort i ((MainAt.of_hearing hhear).2.1 ▸ List.mem_singleton_self i)
  have hexec : evs = taskEvents s.tcpip fetched indet := exec_task_evs s fetched indet mapped
  obtain ⟨-, hevs, hno⟩ | ⟨rfl, p, netif, msg, mbox, -, -, -, hmbox, hbody, -, hevs, -⟩ :=
    hi.task_cases fetched indet mapped
  · have hnone : evs = [] := hexec.trans hevs
    rw [hnone]
    refine ⟨iff_of_false (fun hne => hne rfl) ?_, fun i recv arg q addr port he => ?_, hport⟩
    · rintro ⟨hf, p, i, hp, -⟩
      exact hno hf p hp
    · exact absurd he List.not_mem_nil
  · have hraw : evs = (tRawInput s.host indet 0 netif p).2.2.2 := hexec.trans hevs
    have hp : s.Fetches p := ⟨msg, netif, by rw [hmbox]; rfl, hbody⟩
    have hfresh := hp.fresh h.fresh
    obtain ⟨hyes, hnot⟩ := received_tRawInput s.host indet 0 netif hfresh.payload hfresh.len
    rw [hraw]
    refine ⟨?_, fun i recv arg q addr port he => h.of_udpRecv hi he, hport⟩
    by_cases hfor : UdpForCallback s.host.udp p
    · obtain ⟨e, he⟩ := hyes hfor
      obtain ⟨i, hhear, hudp⟩ := (h.forCallback_iff hi p).mp hfor
      refine iff_of_true (by simp [he]) ⟨rfl, p, i, hp, hhear, hudp⟩
    · refine iff_of_false (fun hne => hne (hnot hfor)) ?_
      rintro ⟨-, p', i, hp', hhear, hudp⟩
      obtain rfl := hp.unique hp'
      exact hfor ((h.forCallback_iff hi p).mpr ⟨i, hhear, hudp⟩)

/-- "pong", from the host that the tests talk to, to the port of the first test.  `len` is the low
byte of the length in the UDP header. -/
def pong (len : UInt8) : List UInt8 :=
  List.replicate 12 0 ++ [0x08, 0, 0x45, 0, 0, 32, 0, 0, 0, 0, 64, 17, 0, 0, 192, 168, 1, 101,
    192, 168, 1, 112, 0x22, 0x85, 0x0c, 0xec, 0, len, 0, 0, 0x70, 0x6f, 0x6e, 0x67]

/-- The first UDP test, up to where it waits, and the answer that comes in meanwhile. -/
def oneUdpTest (len : UInt8) : List SMainOp :=
  let call := SMainOp.call fun _ => none
  [.key 0x31, call, call, call, call, call, .recv (pong len) true]

theorem udpRecvData_oneUdpTest :
    let s := Run.final SMain.step (start fun _ _ => 0) (oneUdpTest 12)
    let evs := (s.exec (.task true (fun _ => none) false)).2
    ((received evs ≠ [] ↔ true ∧ ∃ p i, s.Fetches p ∧ s.main.hearing = some i ∧
        UdpFor netif0.ipAddr (s.host.udp.pcb i).localPort p) ∧
      (∀ i recv arg q addr port, .udpRecv i recv arg q addr port ∈ evs →
        s.main.hearing = some i ∧ recv = udpRecvData) ∧
      ∀ i, s.main.hearing = some i → (3307 + s.times).toUInt16 ≠ 0 →
        (s.host.udp.pcb i).localPort = (3307 + s.times).toUInt16) ∧
      (received evs).length = 1 :=
  ⟨udpRecvData_iff (fun _ _ => 0) (by decide +kernel) true (fun _ => none) false, by decide +kernel⟩

end SMain

end TTcp
