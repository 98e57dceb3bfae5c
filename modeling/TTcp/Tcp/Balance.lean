import TTcp.Tcp.Accept
import TTcp.Tcp.Owned

/-!
# TTcp.Tcp.Balance

How many buffers are free?

A queued segment is one block and one pbuf less on the free lists.  Sending, receiving and a
connect, which queues a SYN, keep that count (`Balanced`), so a program that only connects can tell
what is free from the queues of its control blocks.  Such a control block has at most one segment in
them, the SYN that nobody has answered (`TcpPcb.Quiet`).
-/

namespace TTcp

open Ledger

/-- What was taken from the free lists, and given back, is what the queues got, and lost. -/
structure Balanced (pools : Pools) (queued : List Pbuf) (pools' : Pools) (queued' : List Pbuf) :
    Prop where
  pbufs : pools'.pbufPool.length + queued'.length = pools.pbufPool.length + queued.length
  segs : pools'.segPool.length + queued'.length = pools.segPool.length + queued.length
  inUse : InUse queued'

namespace Balanced

variable {pools pools' pools'' : Pools} {queued queued' queued'' : List Pbuf}

theorem refl (pools : Pools) (hin : InUse queued) : Balanced pools queued pools queued :=
  ⟨rfl, rfl, hin⟩

theorem trans (h : Balanced pools queued pools' queued')
    (h' : Balanced pools' queued' pools'' queued'') : Balanced pools queued pools'' queued'' :=
  ⟨h'.pbufs.trans h.pbufs, h'.segs.trans h.segs, h'.inUse⟩

/-- The order does not matter. -/
theorem of_perm (pools : Pools) (h : queued'.Perm queued) (hin : InUse queued) :
    Balanced pools queued pools queued' :=
  ⟨by rw [h.length_eq], by rw [h.length_eq], hin.perm h⟩

/-- What others have queued does not matter. -/
theorem append_right (h : Balanced pools queued pools' queued') {l : List Pbuf} (hin : InUse l) :
    Balanced pools (queued ++ l) pools' (queued' ++ l) where
  pbufs := by
    rw [List.length_append, List.length_append, ← Nat.add_assoc, h.pbufs, Nat.add_assoc]
  segs := by
    rw [List.length_append, List.length_append, ← Nat.add_assoc, h.segs, Nat.add_assoc]
  inUse := inUse_append.mpr ⟨h.inUse, hin⟩

/-- Nothing is lost. -/
theorem of_givesBack {queue queue' : List TcpSeg}
    (h : GivesBack pools.pbufPool (queue.map TcpSeg.p) pools'.pbufPool (queue'.map TcpSeg.p))
    (hblocks : Moves [] pools.segPool (queue.map TcpSeg.id) pools'.segPool
      (queue'.map TcpSeg.id)) :
    Balanced pools (queue.map TcpSeg.p) pools' (queue'.map TcpSeg.p) where
  pbufs := by
    have hlen := h.perm.length_eq
    rwa [List.length_map, List.length_map, List.length_append, List.length_append] at hlen
  segs := by
    have hlen := hblocks.length
    simp only [List.length_map] at hlen ⊢
    exact hlen
  inUse := h.inUse

end Balanced

/-! ## the calls -/

section
variable (env : OutEnv) (pools : Pools)

theorem tTcpOutput_balanced {pcb : TcpPcb} (hin : InUse pcb.pbufs) :
    let r := tTcpOutput env pools pcb
    Balanced pools pcb.pbufs r.2.1 r.2.2.1.pbufs :=
  .of_givesBack (tTcpOutput_givesBack env pools hin) (tTcpOutput_keeps env pools hin).blocks

theorem tTcpReceive_balanced (cbRet : ErrT) {pcb : TcpPcb} (s : Incoming) (hin : InUse pcb.pbufs) :
    let r := tTcpReceive env cbRet pools pcb s
    Balanced pools pcb.pbufs r.2.1 r.2.2.1.pbufs :=
  .of_givesBack (tTcpReceive_givesBack env pools cbRet s hin)
    (tTcpReceive_keeps env pools cbRet s hin).blocks

/-- A SYN is chained into no segment, and it is one pbuf. -/
theorem tTcpEnqueueSyn_balanced {pcb : TcpPcb} (opt : ByteMem) (hin : InUse pcb.pbufs) :
    let r := tTcpEnqueue pools pcb none 0 tcpSyn.toUInt8 false (some opt) 4
    Balanced pools pcb.pbufs r.2.1 r.2.2.pbufs := by
  obtain ⟨a, ha⟩ : ∃ a : EnqueueArgs, a = ⟨none, tcpSyn.toUInt8, false, some opt, 4⟩ := ⟨_, rfl⟩
  have hkeeps := tTcpEnqueue_keeps pools pcb a 0 hin
  have hconserves : Conserves pools pcb
      (tTcpEnqueue pools pcb a.arg 0 a.flags a.copy a.optdata a.optlen) := by
    by_cases hstarts : EnqueueStarts pools pcb a 0
    · refine hstarts.conserves_iff.mpr ⟨by rw [ha]; rfl, ?_⟩
      have hsyn : tcpSyn.toUInt8.toUInt16 &&& (tcpSyn ||| tcpFin) ≠ 0 := by decide
      rintro ⟨useg, -, -, -, hflags, -⟩
      rw [ha] at hflags
      exact hsyn hflags
    · exact conserves_of_not_starts hstarts
  have hunacked : (tTcpEnqueue pools pcb a.arg 0 a.flags a.copy a.optdata a.optlen).2.2.unacked =
      pcb.unacked := by
    by_cases hret : (tTcpEnqueue pools pcb a.arg 0 a.flags a.copy a.optdata a.optlen).1 = 0
    · obtain ⟨-, -, segPool, st, -, -, -, hpcb⟩ := tTcpEnqueue_of_eq_zero rfl hret
      rw [hpcb]
    · rw [(tTcpEnqueue_of_ne_zero rfl hret).1]
  rw [ha] at hkeeps hconserves hunacked
  intro r
  have hlen := hconserves.length_eq
  have hsegs := hkeeps.blocks.length
  simp only [pbufIds, TcpPcb.queued, List.length_append, List.length_map, hunacked] at hlen hsegs
  refine ⟨?_, ?_, hkeeps.inUse⟩
  · simp only [TcpPcb.pbufs, List.length_append, List.length_map, r, hunacked]
    omega
  · simp only [TcpPcb.pbufs, List.length_append, List.length_map, r, hunacked]
    omega

end

namespace TcpHost

/-- What one control block does, all of them together do. -/
theorem balanced_of_pcb {h h' : TcpHost} {i : TcpPcbId} (hother : ∀ j, j ≠ i → h'.pcb j = h.pcb j)
    (hin : InUse h.queuedPbufs)
    (hpcb : InUse (h.pcb i).pbufs → Balanced h.pools (h.pcb i).pbufs h'.pools (h'.pcb i).pbufs) :
    Balanced h.pools h.queuedPbufs h'.pools h'.queuedPbufs := by
  have hsplit := h.queuedPbufs_perm i
  have hsplit' := h'.queuedPbufs_perm i
  rw [otherPbufs_congr hother] at hsplit'
  obtain ⟨hi, hrest⟩ := inUse_append.mp (hin.perm hsplit.symm)
  have hall := (hpcb hi).append_right hrest
  exact ((Balanced.of_perm _ hsplit.symm hin).trans hall).trans (.of_perm _ hsplit' hall.inUse)

variable {h : TcpHost} (hin : InUse h.queuedPbufs)
include hin

/-- `t_tcp_input`. -/
theorem input_balanced (indet : Nat → Option Netif) (cbRet : ErrT) (p : Pbuf) :
    Balanced h.pools h.queuedPbufs (tTcpInput h indet cbRet p).2.2.pools
      (tTcpInput h indet cbRet p).2.2.queuedPbufs := by
  obtain ⟨-, -, -, hh⟩ | ⟨i, prev, s, k, -, -, -, -, hh⟩ := h.tTcpInput_cases indet cbRet p
  · rw [hh]
    exact .refl _ hin
  · refine balanced_of_pcb (i := i) (fun j hj => ?_) hin fun hpcb => ?_
    · rw [hh]
      exact (setPcb_pcb_of_ne _ hj _).trans (congrFun (h.moveToFront_pcb i prev) j)
    · rw [hh]
      simp only [setPcb_pcb_self]
      exact tTcpReceive_balanced _ h.pools cbRet s hpcb

theorem connect_balanced (indet : Nat → Option Netif) (i : TcpPcbId) (ipaddr : UInt32)
    (port : UInt16) (connected : Option Nat) :
    let r := tTcpConnect h indet i ipaddr port connected
    Balanced h.pools h.queuedPbufs r.2.pools r.2.queuedPbufs := by
  obtain ⟨localPort, iss, h1, heq, -, hpcb, -⟩ := tTcpConnectEnqueue_eq h i ipaddr port connected
  have hsyn := fun hi => @tTcpEnqueueSyn_balanced h.pools
    (tcpConnectPcb (h.pcb i) ipaddr port localPort iss connected) (mssOption tTcpMss) hi
  rw [tTcpConnect_eq, heq]
  generalize tTcpEnqueue h.pools (tcpConnectPcb (h.pcb i) ipaddr port localPort iss connected) none
    0 tcpSyn.toUInt8 false (some (mssOption tTcpMss)) 4 = r at hsyn
  obtain ⟨ret, pools, pcb⟩ := r
  have hother : ∀ pools' pcb' j, j ≠ i →
      TcpHost.pcb { h1.setPcb i pcb' with pools := pools' } j = h.pcb j := fun pools' pcb' j hj =>
    (setPcb_pcb_of_ne _ hj _).trans (congrFun hpcb j)
  simp only at hsyn ⊢
  split
  · refine balanced_of_pcb (hother _ _) hin fun hi => ?_
    simp only [setPcb_pcb_self]
    exact (hsyn hi).trans (tTcpOutput_balanced _ pools (hsyn hi).inUse)
  · refine balanced_of_pcb (hother _ _) hin fun hi => ?_
    simp only [setPcb_pcb_self]
    exact hsyn hi

end TcpHost

/-! ## control blocks without data -/

namespace TcpPcb

/-- Nothing is queued, and no answer is awaited. -/
structure Idle (pcb : TcpPcb) : Prop where
  state : pcb.state ≠ .synSent
  unsent : pcb.unsent = []
  unacked : pcb.unacked = []
  sndQueuelen : pcb.sndQueuelen = 0

/-- The SYN is all that is queued, and awaits its answer. -/
structure Asked (pcb : TcpPcb) : Prop where
  state : pcb.state = .synSent
  unsent : pcb.unsent = []
  unacked : ∃ syn, pcb.unacked = [syn]
  sndQueuelen : pcb.sndQueuelen = 1

/-- No data is queued. -/
def Quiet (pcb : TcpPcb) : Prop := pcb.Idle ∨ pcb.Asked

theorem idle_init (iss ticks : UInt32) : (tcpPcbInit iss ticks).Idle :=
  ⟨by simp [tcpPcbInit, TcpPcb.zero], rfl, rfl, rfl⟩

variable {pcb : TcpPcb}

/-- With nothing unsent, at most an empty acknowledgement goes out. -/
theorem output_of_unsent_nil (env : OutEnv) (pools : Pools) (h : pcb.unsent = []) :
    ∃ flags, (tTcpOutput env pools pcb).2.2.1 = { pcb with flags } := by
  obtain hout | hout := tTcpOutput_cases env pools pcb
  · rw [hout]
    exact (tTcpOutputAck_spec env pools pcb).1
  · have hloop : tTcpOutputLoop env pcb.wnd pools pcb pcb.unsent = (pools, pcb, []) := by
      rw [h, tTcpOutputLoop]
    rw [hout, hloop]
    exact ⟨pcb.flags, rfl⟩

theorem Quiet.not_nullUnacked (h : pcb.Quiet) (s : Incoming) : ¬ pcb.NullUnacked s := by
  rintro ⟨hstate, -, -, hnil⟩
  obtain h | h := h
  · exact h.state hstate
  · obtain ⟨syn, hsyn⟩ := h.unacked
    rw [hsyn] at hnil
    contradiction

theorem Quiet.length_pbufs (h : pcb.Quiet) : pcb.pbufs.length ≤ 1 := by
  obtain h | h := h
  · rw [pbufs, h.unsent, h.unacked]
    exact Nat.zero_le 1
  · obtain ⟨syn, hsyn⟩ := h.unacked
    rw [pbufs, h.unsent, hsyn]
    exact Nat.le_refl 1

section
variable (env : OutEnv) (cbRet : ErrT) (pools : Pools) (s : Incoming)

/-- What is sent in answer changes nothing that matters here. -/
theorem receive_of_process {P : TcpPcb → Prop} (hflags : ∀ pcb flags, P pcb → P { pcb with flags })
    (hunsent : (tTcpProcess env cbRet pools pcb s).2.2.1.unsent = [])
    (h : P (tTcpProcess env cbRet pools pcb s).2.2.1) :
    P (tTcpReceive env cbRet pools pcb s).2.2.1 := by
  obtain ⟨heq, -⟩ | ⟨heq, -⟩ := tTcpReceive_eq pcb env cbRet pools s
  · rw [heq]
    exact h
  · obtain ⟨flags, hout⟩ := output_of_unsent_nil env (tTcpProcess env cbRet pools pcb s).2.1 hunsent
    rw [heq, hout]
    exact hflags _ flags h

theorem Idle.receive (h : pcb.Idle) : (tTcpReceive env cbRet pools pcb s).2.2.1.Idle := by
  have hproc : (tTcpProcess env cbRet pools pcb s).2.2.1.Idle := by
    rw [tTcpProcess_of_ignored env cbRet pools (Quiet.not_nullUnacked (.inl h) s) fun hacc =>
      h.state hacc.1]
    exact ⟨h.state, h.unsent, h.unacked, h.sndQueuelen⟩
  exact receive_of_process env cbRet pools s
    (fun _ _ hi => ⟨hi.state, hi.unsent, hi.unacked, hi.sndQueuelen⟩) hproc.unsent hproc

/-- The answer takes the SYN off, and nothing else does anything. -/
theorem Quiet.receive (h : pcb.Quiet) : (tTcpReceive env cbRet pools pcb s).2.2.1.Quiet := by
  obtain h | h := h
  · exact .inl (h.receive env cbRet pools s)
  have hproc : (tTcpProcess env cbRet pools pcb s).2.2.1.Quiet := by
    by_cases hacc : pcb.Accepts s
    · obtain ⟨rseg, unacked, p, hun, -, hhang, hdone⟩ :=
        tTcpProcess_of_accepts env cbRet pools hacc
      obtain ⟨syn, hsyn⟩ := h.unacked
      obtain rfl : unacked = [] := by
        rw [hsyn] at hun
        exact (List.cons.inj hun).2.symm
      have hql : pcb.sndQueuelen - 1 = 0 := by rw [h.sndQueuelen]; rfl
      cases hopt : s.options with
      | none =>
          rw [hhang hopt]
          exact .inl ⟨by simp [tcpAcceptPcb], h.unsent, rfl, hql⟩
      | some mss =>
          rw [hdone mss hopt]
          exact .inl ⟨by simp [tcpAcceptPcb], h.unsent, rfl, hql⟩
    · rw [tTcpProcess_of_ignored env cbRet pools (Quiet.not_nullUnacked (.inr h) s) hacc]
      exact .inr ⟨h.state, h.unsent, h.unacked, h.sndQueuelen⟩
  have hunsent : (tTcpProcess env cbRet pools pcb s).2.2.1.unsent = [] :=
    hproc.elim Idle.unsent Asked.unsent
  refine receive_of_process env cbRet pools s (fun _ _ hq => ?_) hunsent hproc
  obtain hi | hi := hq
  · exact .inl ⟨hi.state, hi.unsent, hi.unacked, hi.sndQueuelen⟩
  · exact .inr ⟨hi.state, hi.unsent, hi.unacked, hi.sndQueuelen⟩

end

end TcpPcb

theorem tTcpConnect_pcb_of_ne (h : TcpHost) (indet : Nat → Option Netif) {i j : TcpPcbId}
    (ipaddr : UInt32) (port : UInt16) (connected : Option Nat) (hij : j ≠ i) :
    (tTcpConnect h indet i ipaddr port connected).2.pcb j = h.pcb j := by
  simp only [tTcpConnect]
  split <;> split <;> exact TcpHost.setPcb_pcb_of_ne _ hij _

namespace TcpHost

variable {h : TcpHost}

/-- No control block has data queued. -/
def Quiet (h : TcpHost) : Prop := ∀ i, (h.pcb i).Quiet

theorem Quiet.length_queuedPbufs (hq : h.Quiet) : h.queuedPbufs.length ≤ tMempNumTcpPcb := by
  have hsum := List.sum_le_card_nsmul
    ((List.finRange tMempNumTcpPcb).map fun i => (h.pcb i).pbufs.length) 1 fun n hn => by
      obtain ⟨i, -, rfl⟩ := List.mem_map.mp hn
      exact (hq i).length_pbufs
  rw [List.length_map, List.length_finRange, smul_eq_mul, Nat.mul_one] at hsum
  rwa [queuedPbufs, List.length_flatMap]

/-- A control block that was idle stays so. -/
theorem input_idle (indet : Nat → Option Netif) (cbRet : ErrT) (p : Pbuf) {i : TcpPcbId}
    (hi : (h.pcb i).Idle) : ((tTcpInput h indet cbRet p).2.2.pcb i).Idle := by
  obtain ⟨-, -, -, hh⟩ | ⟨j, prev, s, k, -, -, -, -, hh⟩ := h.tTcpInput_cases indet cbRet p
  · rw [hh]
    exact hi
  · rw [hh]
    by_cases hij : i = j
    · subst hij
      simp only [setPcb_pcb_self]
      exact hi.receive _ cbRet h.pools s
    · rw [show TcpHost.pcb _ i = h.pcb i from
        (setPcb_pcb_of_ne _ hij _).trans (congrFun (h.moveToFront_pcb j prev) i)]
      exact hi

theorem Quiet.input (hq : h.Quiet) (indet : Nat → Option Netif) (cbRet : ErrT) (p : Pbuf) :
    (tTcpInput h indet cbRet p).2.2.Quiet := by
  intro i
  obtain ⟨-, -, -, hh⟩ | ⟨j, prev, s, k, -, -, -, -, hh⟩ := h.tTcpInput_cases indet cbRet p
  · rw [hh]
    exact hq i
  · rw [hh]
    by_cases hij : i = j
    · subst hij
      simp only [setPcb_pcb_self]
      exact (hq i).receive _ cbRet h.pools s
    · rw [show TcpHost.pcb _ i = h.pcb i from
        (setPcb_pcb_of_ne _ hij _).trans (congrFun (h.moveToFront_pcb j prev) i)]
      exact hq i

/-- With room for the SYN, a connect leaves its control block waiting. -/
theorem Quiet.connect (hq : h.Quiet) (indet : Nat → Option Netif) {i : TcpPcbId} (ipaddr : UInt32)
    (port : UInt16) (connected : Option Nat) (hi : (h.pcb i).Idle) (hseg : h.pools.segPool ≠ [])
    (hpbuf : h.pools.pbufPool ≠ []) :
    (tTcpConnect h indet i ipaddr port connected).2.Quiet := by
  obtain ⟨localPort, iss, pcb, hpcb, -, -, -, hok⟩ :=
    tTcpConnect_spec h indet i ipaddr port connected hi.unsent
  have hroom : SynRoom h.pools (h.pcb i) := ⟨hseg, hpbuf, by rw [hi.sndQueuelen]; decide⟩
  obtain ⟨-, -, syn, localIp, rtime, rttest, rtseq, sndMax, -, -, -, hasked⟩ := hok hroom
  intro j
  by_cases hij : j = i
  · subst hij
    rw [hasked, hpcb]
    refine .inr ⟨rfl, hi.unsent, ⟨syn, ?_⟩, ?_⟩
    · show unackedInsert (h.pcb j).unacked syn = [syn]
      rw [hi.unacked]
      rfl
    · show (h.pcb j).sndQueuelen + 1 = 1
      rw [hi.sndQueuelen]
      rfl
  · rw [tTcpConnect_pcb_of_ne h indet ipaddr port connected hij]
    exact hq j

end TcpHost

end TTcp
