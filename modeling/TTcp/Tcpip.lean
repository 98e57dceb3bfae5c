import TTcp.Raw
import TTcp.Tcp.Places

/-!
# TTcp.Tcpip

The receive pipeline (`api/t_tcpip.c`, `user/s_main.c`).

The driver's thread copies a frame into a fresh pbuf, and `t_tcpip_input` posts a message with it
to a mailbox.  `t_tcpip_task` fetches the messages, one in each iteration, hands the packet to
`t_raw_input` and frees the message.  Both threads suspend each other while they change a free
list, so the steps of the two interleave.

A post may fail.  `t_tcpip_input` then forgets the message and the pbuf in it
(`Tcpip.buffers_conserved_iff`).

The callback of a UDP control block is an event here.  `t_recv_udp`, which may free the packet
before `t_raw_input` does, is in `TTcp.Api.Recv`: the free list is then as after one free.
-/

namespace TTcp

/-! ## messages -/

abbrev tMempNumTcpipMsg : Nat := tPbufPoolSize

/-- The place of a block in the `T_MEMP_TCPIP_MSG` pool. -/
abbrev TcpipMsgId := Fin tMempNumTcpipMsg

/-- The `type` and the `msg` of a message.  What is in the others does not matter here: the task
only frees them. -/
inductive TcpipMsgBody where
  | api
  | input (p : Pbuf) (netif : Netif)
  | callback

/-- `struct t_tcpip_msg`. -/
structure TcpipMsg where
  id : TcpipMsgId
  body : TcpipMsgBody

/-- The pbuf that a message refers to. -/
def TcpipMsg.pbufs (msg : TcpipMsg) : List Pbuf :=
  match msg.body with
  | .input p _ => [p]
  | _ => []

/-- A host, the free messages, and those in `mbox`, the oldest first. -/
structure Tcpip where
  host : Host
  msgPool : List TcpipMsgId
  mbox : List TcpipMsg

/-! ## the two threads -/

/-- `t_tcpip_input`.  `posted` is whether the mailbox takes the message. -/
def tTcpipInput (s : Tcpip) (p : Pbuf) (inp : Netif) (posted : Bool) : Int × Tcpip :=
  match s.msgPool with
  | [] => (-1, { s with host := s.host.setPbufPool (tPbufFree s.host.pbufPool [p]).2 })
  | id :: msgPool =>
      if posted then (0, { s with msgPool, mbox := s.mbox ++ [⟨id, .input p inp⟩] })
      else (-1, { s with msgPool })

/-- `ether0_recv_data`, which does not look at what `t_tcpip_input` returns. -/
def ether0Recv (s : Tcpip) (frame : List UInt8) (inp : Netif) (posted : Bool) : Tcpip :=
  match ether0RecvData s.host.pbufPool frame with
  | (none, pbufPool) => { s with host := s.host.setPbufPool pbufPool }
  | (some p, pbufPool) =>
      (tTcpipInput { s with host := s.host.setPbufPool pbufPool } p inp posted).2

/-- The `switch` of `t_tcpip_task` over the type of a message. -/
def tcpipDispatch (h : Host) (indet : Nat → Option Netif) (cbRet : ErrT) :
    TcpipMsgBody → Fate × Host
  | .api => (.returns 0, h)
  | .input p netif =>
      let (fate, _, h, _) := tRawInput h indet cbRet netif p
      (fate, h)
  | .callback => (.returns 0, h)

/-- An iteration of `t_tcpip_task`.  `fetched` is whether `t_sys_mbox_fetch` finds a message
before it times out.  An iteration that does not return never frees the message. -/
def tTcpipTask (s : Tcpip) (fetched : Bool) (indet : Nat → Option Netif) (cbRet : ErrT) :
    Fate × Tcpip :=
  match s.mbox with
  | [] => (.returns 0, s)
  | msg :: mbox =>
      if fetched then
        match tcpipDispatch s.host indet cbRet msg.body with
        | (.returns ret, host) => (.returns ret, { host, msgPool := msg.id :: s.msgPool, mbox })
        | (fate, host) => (fate, { s with host, mbox })
      else (.returns 0, s)

/-- A step of one of the threads. -/
inductive TcpipOp where
  | recv (frame : List UInt8) (inp : Netif) (posted : Bool)
  | task (fetched : Bool) (indet : Nat → Option Netif) (cbRet : ErrT)

namespace Tcpip

def step (s : Tcpip) : TcpipOp → Tcpip
  | .recv frame inp posted => ether0Recv s frame inp posted
  | .task fetched indet cbRet => (tTcpipTask s fetched indet cbRet).2

/-- An iteration of the task comes to its end. -/
def Ends (s : Tcpip) : TcpipOp → Prop
  | .recv .. => True
  | .task fetched indet cbRet => ∃ ret, (tTcpipTask s fetched indet cbRet).1 = .returns ret

/-! ## where things are -/

def freePbufs (s : Tcpip) : List PbufId := s.host.pbufPool.map Pbuf.id

def postedPbufs (s : Tcpip) : List PbufId := (s.mbox.flatMap TcpipMsg.pbufs).map Pbuf.id

def postedMsgs (s : Tcpip) : List TcpipMsgId := s.mbox.map TcpipMsg.id

/-- Every pbuf is in one place, its free list or a message in the mailbox, and every message too.
`kept` and `keptMsgs` are those that somebody else has. -/
structure Conserved (kept : List PbufId) (keptMsgs : List TcpipMsgId) (s : Tcpip) : Prop where
  pbufs : ∀ i ∉ kept, (s.freePbufs ++ s.postedPbufs).count i = 1
  msgs : ∀ m ∉ keptMsgs, (s.msgPool ++ s.postedMsgs).count m = 1

/-- The pbufs in use that the stack knows of: those in messages, and those in the queues of the
TCP control blocks. -/
def inUsePbufs (s : Tcpip) : List Pbuf :=
  s.mbox.flatMap TcpipMsg.pbufs ++ s.host.tcp.queuedPbufs

/-- Everything has one owner. -/
structure Owned (kept : List PbufId) (keptMsgs : List TcpipMsgId) (s : Tcpip) : Prop where
  inUse : InUse s.inUsePbufs
  nodup : ((s.host.pbufPool ++ s.inUsePbufs).map Pbuf.id).Nodup
  mem : ∀ i ∉ kept, i ∈ s.freePbufs ++ s.postedPbufs
  queued : s.host.tcp.queuedPbufs.map Pbuf.id ⊆ kept
  msgs_nodup : (s.msgPool ++ s.postedMsgs).Nodup
  mem_msgs : ∀ m, m ∈ s.msgPool ++ s.postedMsgs ↔ m ∉ keptMsgs

/-- If there is a pbuf and a message for a frame, it is posted. -/
def Posts (s : Tcpip) : TcpipOp → Prop
  | .recv frame _ posted => posted = true ∨ s.host.pbufPool = [] ∨ 1514 < frame.length % 65536 ∨
      s.msgPool = []
  | .task .. => True

end Tcpip

/-! ## a packet and its pbuf -/

section
variable (h : Host) (indet : Nat → Option Netif) (cbRet : ErrT) (netif : Netif) (p : Pbuf)

theorem tArpInput_sameUse (table : ArpTable) : SameUse p (tArpInput table netif p).2.1 := by
  have hreply := fun q : Pbuf => arpReplyWrite_same q p.payload netif
  unfold tArpInput
  split
  · simp only
    split
    · split
      · exact ⟨(hreply _).id, (hreply _).ref⟩
      · split
        · split <;> exact ⟨rfl, rfl⟩
        · exact ⟨rfl, rfl⟩
    · exact ⟨rfl, rfl⟩
  · exact ⟨rfl, rfl⟩

theorem tIcmpInput_sameUse (net : Net) : SameUse p (tIcmpInput net netif p).2.1 := by
  unfold tIcmpInput
  simp only
  split
  · split
    · exact ⟨by simp [icmpReplyWrite], by simp [icmpReplyWrite]⟩
    · exact ⟨by simp, by simp⟩
  · exact ⟨rfl, rfl⟩

theorem run_udpDemuxRound_sameUse {u : Udp} {dest : UInt16} {iphdr : Nat} {q : Pbuf}
    {r : Option UdpPcbId × Pbuf}
    (hr : Loop.run (udpDemuxRound u dest iphdr) Udp.rounds (u.tUdpPcbs, q) = some r) :
    SameUse q r.2 := by
  obtain ⟨e, he⟩ := run_udpDemuxRound u dest iphdr q
  rw [he] at hr
  obtain ⟨i, -, rfl⟩ := Option.map_eq_some_iff.mp hr
  exact ⟨rfl, rfl⟩

theorem tUdpInput_sameUse {u : Udp} {r : Int × Pbuf × List Event} (hr : tUdpInput u p = some r) :
    SameUse p r.2.1 := by
  unfold tUdpInput at hr
  simp only at hr
  split at hr
  · obtain rfl := Option.some.inj hr
    exact ⟨rfl, rfl⟩
  · split at hr
    · obtain rfl := Option.some.inj hr
      exact ⟨by simp, by simp⟩
    · split at hr
      · contradiction
      · next hrun =>
        obtain rfl := Option.some.inj hr
        exact SameUse.trans ⟨by simp, by simp⟩ (run_udpDemuxRound_sameUse hrun)
      · next hrun =>
        have hsame := run_udpDemuxRound_sameUse hrun
        split at hr
        · obtain rfl := Option.some.inj hr
          exact SameUse.trans ⟨by simp, by simp⟩ hsame
        · obtain rfl := Option.some.inj hr
          exact SameUse.trans ⟨by simp, by simp⟩ hsame

theorem rawDemux_sameUse : SameUse p (rawDemux p).2 := by
  unfold rawDemux ipDemux
  simp only
  split
  · exact ⟨rfl, rfl⟩
  · split
    · split
      · exact ⟨by simp, by simp⟩
      · split
        · exact ⟨by simp, by simp⟩
        · exact ⟨by simp, by simp⟩
    · exact ⟨rfl, rfl⟩

/-- The handlers keep the packet for nobody, and TCP gives back what it does not keep. -/
theorem handle_givesBack (d : Handler) (hin : InUse h.tcp.queuedPbufs) :
    SameUse p (handle h indet cbRet netif (d, p)).2.1 ∧
      GivesBack h.pbufPool h.tcp.queuedPbufs (handle h indet cbRet netif (d, p)).2.2.1.pbufPool
        (handle h indet cbRet netif (d, p)).2.2.1.tcp.queuedPbufs := by
  cases d with
  | arp => exact ⟨tArpInput_sameUse netif p h.arpTable, .refl hin⟩
  | icmp => exact ⟨tIcmpInput_sameUse netif p h.tcp.net, .refl hin⟩
  | udp =>
      cases hudp : tUdpInput h.udp p with
      | none =>
          simp only [handle, hudp]
          exact ⟨⟨rfl, rfl⟩, .refl hin⟩
      | some r =>
          simp only [handle, hudp]
          exact ⟨tUdpInput_sameUse p hudp, .refl hin⟩
  | tcp =>
      have hsame := tTcpInput_sameUse h.tcp indet cbRet p
      have hback := tTcpInput_givesBack h.tcp indet cbRet p hin
      obtain ⟨r, hr⟩ : ∃ r, tTcpInput h.tcp indet cbRet p = r := ⟨_, rfl⟩
      obtain ⟨out, q, tcp⟩ := r
      rw [hr] at hsame hback
      simp only [handle, hr]
      exact ⟨hsame, hback⟩
  | drop ret => exact ⟨⟨rfl, rfl⟩, .refl hin⟩

/-- `t_raw_input`, when it returns, gives back the packet too. -/
theorem tRawInput_givesBack {ret : Int} (hp : p.ref = 1) (hin : InUse h.tcp.queuedPbufs)
    (hret : (tRawInput h indet cbRet netif p).1 = .returns ret) :
    let h' := (tRawInput h indet cbRet netif p).2.2.1
    GivesBack h.pbufPool (p :: h.tcp.queuedPbufs) h'.pbufPool h'.tcp.queuedPbufs ∧
      h'.tcp.queuedPbufs.map Pbuf.id ⊆ h.tcp.queuedPbufs.map Pbuf.id := by
  obtain ⟨d, q, hdemux⟩ : ∃ d q, rawDemux p = (d, q) := ⟨_, _, rfl⟩
  have hq : SameUse p q := by
    have hsame := rawDemux_sameUse p
    rwa [hdemux] at hsame
  obtain ⟨hsame, hback⟩ := handle_givesBack h indet cbRet netif q d hin
  obtain ⟨fate, q', h', evs, hr⟩ : ∃ fate q' h' evs,
      handle h indet cbRet netif (d, q) = (fate, q', h', evs) := ⟨_, _, _, _, rfl⟩
  rw [hr] at hsame hback
  unfold tRawInput at hret ⊢
  rw [hdemux, hr] at hret ⊢
  have hfree : GivesBack h'.pbufPool (q' :: h'.tcp.queuedPbufs) (tPbufFree h'.pbufPool [q']).2
      h'.tcp.queuedPbufs := .free ((hq.trans hsame).2.trans hp) hback.inUse
  cases fate with
  | returns r => exact ⟨(hback.cons (hq.trans hsame) hp).trans hfree, hback.subset⟩
  | hangs => cases hret
  | crashes => cases hret

end

/-! ## steps -/

namespace Tcpip

/-- Pbufs and messages change their places between `s` and `s'`, and the queues of TCP get none
that they did not have. -/
structure Moves (s s' : Tcpip) : Prop where
  pbufs : ((s'.host.pbufPool ++ s'.inUsePbufs).map Pbuf.id).Perm
    ((s.host.pbufPool ++ s.inUsePbufs).map Pbuf.id)
  inUse : InUse s'.inUsePbufs
  queued : s'.host.tcp.queuedPbufs.map Pbuf.id ⊆ s.host.tcp.queuedPbufs.map Pbuf.id
  msgs : (s'.msgPool ++ s'.postedMsgs).Perm (s.msgPool ++ s.postedMsgs)

variable {s s' : Tcpip} {kept : List PbufId} {keptMsgs : List TcpipMsgId}

theorem Moves.refl (hin : InUse s.inUsePbufs) : s.Moves s :=
  ⟨List.Perm.refl _, hin, List.Subset.refl _, List.Perm.refl _⟩

/-- A pbuf in use or free is on the free list, in a message or in a queue. -/
theorem mem_places {i : PbufId} : i ∈ (s.host.pbufPool ++ s.inUsePbufs).map Pbuf.id ↔
    i ∈ s.freePbufs ++ s.postedPbufs ∨ i ∈ s.host.tcp.queuedPbufs.map Pbuf.id := by
  rw [inUsePbufs, ← List.append_assoc, List.map_append, List.mem_append, List.map_append]
  rfl

namespace Owned

variable (h : s.Owned kept keptMsgs)
include h

theorem moves (hm : s.Moves s') : s'.Owned kept keptMsgs where
  inUse := hm.inUse
  nodup := hm.pbufs.nodup_iff.mpr h.nodup
  mem i hi := by
    have hplace := hm.pbufs.mem_iff.mpr (mem_places.mpr (Or.inl (h.mem i hi)))
    exact (mem_places.mp hplace).resolve_right fun hq => hi (h.queued (hm.queued hq))
  queued := List.Subset.trans hm.queued h.queued
  msgs_nodup := hm.msgs.nodup_iff.mpr h.msgs_nodup
  mem_msgs m := hm.msgs.mem_iff.trans (h.mem_msgs m)

/-- With one owner, a thing is in one place. -/
theorem conserved : s.Conserved kept keptMsgs where
  pbufs i hi := by
    have hnodup := h.nodup
    rw [inUsePbufs, ← List.append_assoc, List.map_append, List.map_append] at hnodup
    exact List.count_eq_one_of_mem (List.nodup_append.mp hnodup).1 (h.mem i hi)
  msgs m hm := List.count_eq_one_of_mem h.msgs_nodup ((h.mem_msgs m).mpr hm)

end Owned

/-- What a message refers to goes back, unless the task hangs. -/
theorem tcpipDispatch_givesBack {h : Host} {indet : Nat → Option Netif} {cbRet : ErrT}
    {msg : TcpipMsg} {ret : Int} (hin : InUse (msg.pbufs ++ h.tcp.queuedPbufs))
    (hret : (tcpipDispatch h indet cbRet msg.body).1 = .returns ret) :
    let h' := (tcpipDispatch h indet cbRet msg.body).2
    GivesBack h.pbufPool (msg.pbufs ++ h.tcp.queuedPbufs) h'.pbufPool h'.tcp.queuedPbufs ∧
      h'.tcp.queuedPbufs.map Pbuf.id ⊆ h.tcp.queuedPbufs.map Pbuf.id := by
  obtain ⟨id, body⟩ := msg
  cases body with
  | api => exact ⟨.refl hin, List.Subset.refl _⟩
  | input p netif =>
      obtain ⟨hp, hq⟩ := inUse_cons.mp hin
      exact tRawInput_givesBack h indet cbRet netif p hp hq hret
  | callback => exact ⟨.refl hin, List.Subset.refl _⟩

/-- An iteration of the task. -/
theorem tTcpipTask_moves (hin : InUse s.inUsePbufs) {fetched : Bool} {indet : Nat → Option Netif}
    {cbRet : ErrT} (hends : s.Ends (.task fetched indet cbRet)) :
    s.Moves (tTcpipTask s fetched indet cbRet).2 := by
  obtain ⟨ret, hret⟩ := hends
  unfold tTcpipTask at hret ⊢
  cases hmbox : s.mbox with
  | nil => exact .refl hin
  | cons msg mbox =>
      rw [hmbox] at hret
      cases fetched with
      | false => exact .refl hin
      | true =>
          obtain ⟨fate, host, hr⟩ : ∃ fate host,
              tcpipDispatch s.host indet cbRet msg.body = (fate, host) := ⟨_, _, rfl⟩
          have hperm : s.inUsePbufs.Perm
              (msg.pbufs ++ s.host.tcp.queuedPbufs ++ mbox.flatMap TcpipMsg.pbufs) := by
            rw [inUsePbufs, hmbox, List.flatMap_cons, List.append_assoc, List.append_assoc]
            exact List.perm_append_comm.append_left _
          obtain ⟨hmsg, hrest⟩ := inUse_append.mp (hin.perm hperm.symm)
          simp only [hr, if_true] at hret ⊢
          cases fate with
          | hangs => cases hret
          | crashes => cases hret
          | returns r =>
              obtain ⟨hback, hqueued⟩ := tcpipDispatch_givesBack hmsg (congrArg Prod.fst hr)
              rw [hr] at hback hqueued
              have hall := (GivesBack.of_perm (hperm.symm.map _) (hin.perm hperm.symm)).trans
                (hback.append_right hrest)
              have hperm' : (Tcpip.inUsePbufs ⟨host, msg.id :: s.msgPool, mbox⟩).Perm
                  (host.tcp.queuedPbufs ++ mbox.flatMap TcpipMsg.pbufs) := List.perm_append_comm
              refine ⟨((hperm'.append_left _).map _).trans hall.perm, hall.inUse.perm hperm',
                hqueued, ?_⟩
              rw [postedMsgs, postedMsgs, hmbox, List.map_cons]
              exact List.perm_middle.symm

/-- A pbuf for a frame comes from the free list. -/
theorem ether0RecvData_eq_some {pool pool' : List Pbuf} {frame : List UInt8} {p : Pbuf}
    (h : ether0RecvData pool frame = (some p, pool')) : ∃ q, pool = q :: pool' ∧ p.id = q.id ∧
      p.ref = 1 := by
  unfold ether0RecvData at h
  split at h
  · cases h
  · next q pool'' ha =>
    obtain ⟨-, -, r, hr, hq⟩ := tPbufAlloc_eq_some ha
    obtain ⟨hp, rfl⟩ := Prod.mk.inj h
    have hsame : SameUse q (tPbufCopyData q (frameMem frame) frame.length).2 := by
      unfold tPbufCopyData
      split <;> exact ⟨rfl, rfl⟩
    rw [Option.some.inj hp] at hsame
    exact ⟨r, hr, by rw [hsame.1, hq], by rw [hsame.2, hq]⟩

/-- What a step of the driver can do: there is no pbuf, or there is no message and the pbuf is
freed, or a message is taken, and posted or lost. -/
theorem ether0Recv_cases (s : Tcpip) (frame : List UInt8) (inp : Netif) (posted : Bool) :
    ((s.host.pbufPool = [] ∨ 1514 < frame.length % 65536) ∧ ether0Recv s frame inp posted = s) ∨
      frame.length % 65536 ≤ 1514 ∧ ∃ q p pool, s.host.pbufPool = q :: pool ∧ p.id = q.id ∧
        p.ref = 1 ∧ ((s.msgPool = [] ∧ ether0Recv s frame inp posted =
            { s with host := s.host.setPbufPool (tPbufFree pool [p]).2 }) ∨
          ∃ id msgPool, s.msgPool = id :: msgPool ∧ ether0Recv s frame inp posted =
            ⟨s.host.setPbufPool pool, msgPool,
              if posted then s.mbox ++ [⟨id, .input p inp⟩] else s.mbox⟩) := by
  by_cases hdrop : s.host.pbufPool = [] ∨ 1514 < frame.length % 65536
  · refine Or.inl ⟨hdrop, ?_⟩
    rw [ether0Recv, ether0RecvData_drop hdrop.symm]
    rfl
  · right
    obtain ⟨hpool, hfit⟩ := not_or.mp hdrop
    obtain ⟨q, pool, hq⟩ := List.exists_cons_of_ne_nil hpool
    obtain ⟨p, hp⟩ := ether0RecvData_cons q pool (not_lt.mp hfit)
    obtain ⟨r, hr, hid, href⟩ := ether0RecvData_eq_some hp
    obtain ⟨rfl, -⟩ := List.cons.inj hr
    refine ⟨not_lt.mp hfit, q, p, pool, hq, hid, href, ?_⟩
    rw [ether0Recv, hq, hp]
    cases hmsg : s.msgPool with
    | nil => exact Or.inl ⟨rfl, rfl⟩
    | cons id msgPool =>
        refine Or.inr ⟨id, msgPool, rfl, ?_⟩
        cases posted <;> rfl

/-- A step of the driver whose message is posted, if there is one. -/
theorem ether0Recv_moves (hin : InUse s.inUsePbufs) {frame : List UInt8} {inp : Netif}
    {posted : Bool} (hposts : s.Posts (.recv frame inp posted)) :
    s.Moves (ether0Recv s frame inp posted) := by
  obtain ⟨-, heq⟩ | ⟨hfit, q, p, pool, hpool, hid, href, ⟨-, heq⟩ | ⟨id, msgPool, hmsg, heq⟩⟩ :=
    ether0Recv_cases s frame inp posted
  · rw [heq]
    exact .refl hin
  · rw [heq, tPbufFree_single pool href]
    refine ⟨List.Perm.of_eq ?_, hin, List.Subset.refl _, List.Perm.refl _⟩
    rw [hpool, List.map_append, List.map_append, List.map_cons, ← hid]
    rfl
  · have hposted : posted = true := hposts.resolve_right fun hno => by
      rcases hno with hno | hno | hno
      · rw [hno] at hpool
        cases hpool
      · omega
      · rw [hno] at hmsg
        cases hmsg
    rw [heq, if_pos hposted]
    have huse : (inUsePbufs ⟨s.host.setPbufPool pool, msgPool,
        s.mbox ++ [⟨id, .input p inp⟩]⟩).Perm (p :: s.inUsePbufs) := by
      rw [inUsePbufs, List.flatMap_append, List.append_assoc]
      exact List.perm_middle
    refine ⟨?_, InUse.perm (inUse_cons.mpr ⟨href, hin⟩) huse, List.Subset.refl _, ?_⟩
    · refine (((huse.append_left _).map _).trans (List.perm_middle.map _)).trans (List.Perm.of_eq ?_)
      rw [hpool, List.cons_append, List.map_cons, List.map_cons, hid]
      rfl
    · rw [hmsg, postedMsgs, List.map_append, ← List.append_assoc]
      exact List.perm_append_singleton _ _

/-- A post that fails loses the message. -/
theorem not_conserved {frame : List UInt8} {inp : Netif} {posted : Bool}
    (h : s.Owned kept keptMsgs) (hposts : ¬ s.Posts (.recv frame inp posted)) :
    ¬ (ether0Recv s frame inp posted).Conserved kept keptMsgs := by
  simp only [Posts, not_or] at hposts
  obtain ⟨hposted, hpool, hfit, hmsgs⟩ := hposts
  obtain ⟨hdrop, -⟩ | ⟨-, q, p, pool, -, -, -, ⟨hmsg, -⟩ | ⟨id, msgPool, hmsg, heq⟩⟩ :=
    ether0Recv_cases s frame inp posted
  · exact absurd hdrop (not_or.mpr ⟨hpool, hfit⟩)
  · exact absurd hmsg hmsgs
  · intro hc
    have hnodup := h.msgs_nodup
    have hid : id ∉ keptMsgs := (h.mem_msgs id).mp (by rw [hmsg]; exact List.mem_cons_self)
    have hcount := hc.msgs id hid
    rw [hmsg, List.cons_append] at hnodup
    rw [heq, if_neg hposted] at hcount
    have hnot : id ∉ msgPool ++ s.postedMsgs := (List.nodup_cons.mp hnodup).1
    rw [show (msgPool ++ postedMsgs ⟨s.host.setPbufPool pool, msgPool, s.mbox⟩).count id = 0 from
      List.count_eq_zero.mpr hnot] at hcount
    exact absurd hcount (by decide)

theorem Owned.step (h : s.Owned kept keptMsgs) {op : TcpipOp} (hends : s.Ends op)
    (hposts : s.Posts op) : (s.step op).Owned kept keptMsgs := by
  cases op with
  | recv frame inp posted => exact h.moves (ether0Recv_moves h.inUse hposts)
  | task fetched indet cbRet => exact h.moves (tTcpipTask_moves h.inUse hends)

theorem Owned.posts (h : s.Owned kept keptMsgs) {op : TcpipOp}
    (hc : (s.step op).Conserved kept keptMsgs) : s.Posts op := by
  cases op with
  | recv frame inp posted => exact not_not.mp fun hposts => not_conserved h hposts hc
  | task fetched indet cbRet => trivial

/-- **Buffers are conserved** in a run of the two threads exactly when, for every frame that
finds a pbuf and a message, the message is posted. -/
theorem buffers_conserved_iff (h : s.Owned kept keptMsgs) {ops : List TcpipOp}
    (hends : Run.Along Tcpip.step Ends s ops) :
    Run.Throughout Tcpip.step (Conserved kept keptMsgs) s ops ↔ Run.Along Tcpip.step Posts s ops :=
  Run.throughout_iff_along_of_strong (fun _ hs => hs.conserved)
    (fun _ _ hs hends hposts => hs.step hends hposts) (fun _ _ hs _ hc => hs.posts hc) h hends

/-! ## after initialisation -/

/-- Nothing is in use yet. -/
def initial (mem : PbufId → ByteMem) (net : Net) (udp : Udp) : Tcpip where
  host := ⟨.initial (.init mem) net, udp, []⟩
  msgPool := List.finRange tMempNumTcpipMsg
  mbox := []

theorem initial_owned (mem : PbufId → ByteMem) (net : Net) (udp : Udp) :
    (initial mem net udp).Owned [] [] := by
  have hpool : (initial mem net udp).freePbufs = List.finRange tPbufPoolSize := by
    show (tPbufInit mem).map Pbuf.id = _
    rw [tPbufInit, List.map_map]
    exact List.map_id _
  have hqueued : (initial mem net udp).host.tcp.queuedPbufs = [] :=
    List.flatMap_eq_nil_iff.mpr fun _ _ => rfl
  have huse : (initial mem net udp).inUsePbufs = [] := hqueued
  refine ⟨?_, ?_, fun i _ => ?_, ?_, ?_, fun m => ?_⟩
  · rw [huse]
    exact inUse_nil
  · rw [huse, List.append_nil]
    show (initial mem net udp).freePbufs.Nodup
    rw [hpool]
    exact List.nodup_finRange _
  · rw [hpool]
    exact List.mem_append_left _ (List.mem_finRange i)
  · rw [hqueued]
    exact List.nil_subset _
  · exact (List.append_nil _).symm ▸ List.nodup_finRange _
  · exact iff_of_true (List.mem_append_left _ (List.mem_finRange m)) List.not_mem_nil

/-- An ARP request comes in, and the task takes it. -/
def arpIn (posted : Bool) : List TcpipOp :=
  [.recv (arpFrame (arpPair true).hwaddr 1 (arpPair true).hwaddr 2) (arpPair false) posted,
    .task true (fun _ => none) 0]

def sampleTcpip : Tcpip := initial (fun _ _ => 0) ⟨[arpPair false], some (arpPair false)⟩ .initial

theorem arpIn_ends (posted : Bool) : Run.Along Tcpip.step Ends sampleTcpip (arpIn posted) := by
  refine ⟨trivial, ⟨0, ?_⟩, trivial⟩
  cases posted
  · rfl
  · decide +kernel

theorem buffers_conserved_arp :
    Run.Throughout Tcpip.step (Conserved [] []) sampleTcpip (arpIn true) ↔
      Run.Along Tcpip.step Posts sampleTcpip (arpIn true) :=
  buffers_conserved_iff (initial_owned _ _ _) (arpIn_ends true)

/-- The mailbox does not take the message. -/
theorem not_buffers_conserved : ¬ ∀ (s : Tcpip) (ops : List TcpipOp), s.Owned [] [] →
    Run.Along Tcpip.step Ends s ops → Run.Throughout Tcpip.step (Conserved [] []) s ops := by
  intro hall
  have hown : sampleTcpip.Owned [] [] := initial_owned _ _ _
  have hthrough := hall sampleTcpip (arpIn false) hown (arpIn_ends false)
  have hposts : sampleTcpip.Posts _ := hown.posts hthrough.2.1
  rcases hposts with h | h | h | h
  · cases h
  · cases h
  · revert h
    decide
  · revert h
    decide

end Tcpip

end TTcp
