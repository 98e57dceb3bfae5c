import TTcp.Lib.Ledger
import TTcp.Tcp.Active
import TTcp.Tcp.Frame
import TTcp.Tcp.Leak
import TTcp.Tcp.Places

/-!
# TTcp.Tcp.Owned

Who holds a segment block, and who a pbuf?

A block is free or the block of one queued segment; no call loses one.  A pbuf is free or the `p`
of one queued segment, or it is lost: no call hands a pbuf out that a queue still holds, and none
frees one twice.
-/

namespace TTcp

open Ledger

/-- The segments of a control block. -/
def TcpPcb.queued (pcb : TcpPcb) : List TcpSeg := pcb.unsent ++ pcb.unacked

/-- The segments hold their blocks and their pbufs, each with one reference.  All blocks that were
free or held are that after it, of the pbufs some may be lost. -/
structure Keeps (pools : Pools) (queue : List TcpSeg) (pools' : Pools) (queue' : List TcpSeg) :
    Prop where
  blocks : Moves [] pools.segPool (queue.map TcpSeg.id) pools'.segPool (queue'.map TcpSeg.id)
  pbufs : ∃ lost, Moves lost (pools.pbufPool.map Pbuf.id) (queue.map fun seg => seg.p.id)
    (pools'.pbufPool.map Pbuf.id) (queue'.map fun seg => seg.p.id)
  inUse : InUse (queue'.map TcpSeg.p)

namespace Keeps

variable {pools pools' pools'' : Pools} {queue queue' queue'' : List TcpSeg}

theorem refl (pools : Pools) (h : InUse (queue.map TcpSeg.p)) : Keeps pools queue pools queue :=
  ⟨.refl _ _, ⟨[], .refl _ _⟩, h⟩

theorem trans (h : Keeps pools queue pools' queue') (h' : Keeps pools' queue' pools'' queue'') :
    Keeps pools queue pools'' queue'' where
  blocks := h.blocks.trans h'.blocks
  pbufs := by
    obtain ⟨lost, hlost⟩ := h.pbufs
    obtain ⟨lost', hlost'⟩ := h'.pbufs
    exact ⟨lost ++ lost', hlost.trans hlost'⟩
  inUse := h'.inUse

/-- Other segments do not matter. -/
theorem frame (h : Keeps pools queue pools' queue') {l : List TcpSeg}
    (hin : InUse (l.map TcpSeg.p)) : Keeps pools (queue ++ l) pools' (queue' ++ l) where
  blocks := by
    rw [List.map_append, List.map_append]
    exact h.blocks.frame _
  pbufs := by
    obtain ⟨lost, hlost⟩ := h.pbufs
    refine ⟨lost, ?_⟩
    rw [List.map_append, List.map_append]
    exact hlost.frame _
  inUse := by
    rw [List.map_append]
    exact inUse_append.mpr ⟨h.inUse, hin⟩

/-- The same blocks and pbufs, with other contents. -/
theorem congr_right (h : Keeps pools queue pools' queue')
    (hid : queue''.map TcpSeg.id = queue'.map TcpSeg.id)
    (hpbuf : queue''.map (fun seg => seg.p.id) = queue'.map fun seg => seg.p.id)
    (href : queue''.map (fun seg => seg.p.ref) = queue'.map fun seg => seg.p.ref) :
    Keeps pools queue pools' queue'' where
  blocks := hid ▸ h.blocks
  pbufs := hpbuf ▸ h.pbufs
  inUse := by
    intro p hp
    obtain ⟨seg, hseg, rfl⟩ := List.mem_map.mp hp
    have hmem : seg.p.ref ∈ queue'.map fun seg => seg.p.ref := href ▸ List.mem_map_of_mem hseg
    obtain ⟨seg', hseg', heq⟩ := List.mem_map.mp hmem
    exact heq.symm.trans (h.inUse _ (List.mem_map_of_mem hseg'))

/-- No pbuf comes from outside. -/
theorem not_mem (h : Keeps pools queue pools' queue') {i : PbufId}
    (hi : i ∉ pbufIds pools.pbufPool queue) : i ∉ pbufIds pools'.pbufPool queue' := by
  obtain ⟨lost, hlost⟩ := h.pbufs
  exact fun hmem => hi (hlost.subset hmem)

/-- A step that loses no pbuf. -/
theorem of_givesBack
    (h : GivesBack pools.pbufPool (queue.map TcpSeg.p) pools'.pbufPool (queue'.map TcpSeg.p))
    (hblocks : Moves [] pools.segPool (queue.map TcpSeg.id) pools'.segPool
      (queue'.map TcpSeg.id)) : Keeps pools queue pools' queue' where
  blocks := hblocks
  pbufs := by
    have hperm := h.perm
    rw [List.map_append, List.map_append, List.map_map, List.map_map] at hperm
    exact ⟨[], hperm⟩
  inUse := h.inUse

end Keeps

/-! ## output -/

section
variable (env : OutEnv) (pools : Pools)

theorem tTcpOutputSegment_id (indet : Option Netif) (seg : TcpSeg) (pcb : TcpPcb) :
    (tTcpOutputSegment env indet seg pcb).1.id = seg.id := by
  have hsend : ∀ (arg : NetifArg) (seg : TcpSeg) (pcb : TcpPcb),
      (tTcpOutputSegmentSend env indet arg seg pcb).1.id = seg.id := fun arg seg pcb => by
    obtain ⟨rttest, rtseq, h⟩ := tTcpOutputSegmentSend_eq env indet arg seg pcb
    rw [h]
  obtain ⟨-, h⟩ | ⟨n, -, h⟩ | ⟨-, h⟩ := tTcpOutputSegment_cases env indet seg pcb
  · rw [h]
    rfl
  · rw [h, hsend]
    rfl
  · rw [h, hsend]
    rfl

/-- One round: the block goes to the unacked queue with its segment, or is freed. -/
theorem tTcpOutputRound_blocks (indet : Option Netif) (pcb : TcpPcb) (seg : TcpSeg) :
    let r := tTcpOutputRound env indet pools pcb seg
    Moves [] pools.segPool (seg.id :: pcb.queued.map TcpSeg.id) r.1.segPool
      (r.2.1.queued.map TcpSeg.id) := by
  obtain ⟨flags, hflags⟩ := pcb.outgoing_eq
  obtain ⟨r, hr⟩ : ∃ r, r = tTcpOutputSegment env indet (seg.outgoing pcb.state) pcb.outgoing :=
    ⟨_, rfl⟩
  obtain ⟨sndMax, hround⟩ := tTcpOutputRound_eq env pools hr
  obtain ⟨-, hunsent, hunacked⟩ :=
    tTcpOutputSegment_kept env indet (seg.outgoing pcb.state) pcb.outgoing
  have hid : r.1.id = seg.id := by
    rw [hr, tTcpOutputSegment_id]
    obtain h | h := seg.outgoing_cases pcb.state
    · rw [h]
      rfl
    · rw [h]
  rw [← hr, hflags] at hunsent hunacked
  rw [hround]
  split
  · refine .of_perm _ ?_
    rw [← hid, ← List.map_cons]
    refine List.Perm.map _ ?_
    simp only [TcpPcb.queued, hunsent, hunacked]
    exact ((unackedInsert_perm _ _).append_left _).trans List.perm_middle
  · rw [← hid]
    simp only [TcpPcb.queued, hunsent, hunacked]
    exact .release _ _ _

theorem tTcpOutputLoop_blocks (wnd : UInt32) {pcb : TcpPcb} {unsent : List TcpSeg}
    (hun : pcb.unsent = unsent) :
    let r := tTcpOutputLoop env wnd pools pcb unsent
    Moves [] pools.segPool (pcb.queued.map TcpSeg.id) r.1.segPool
      (r.2.1.queued.map TcpSeg.id) := by
  induction unsent generalizing pools pcb with
  | nil => exact .refl _ _
  | cons seg rest ih =>
      rw [tTcpOutputLoop]
      split
      · have hround := tTcpOutputRound_blocks env pools (env.indet rest.length)
          { pcb with unsent := rest } seg
        have hun' := (tTcpOutputRound_outputs env pools (env.indet rest.length)
          { pcb with unsent := rest } seg).2
        rw [TcpPcb.queued, hun, List.cons_append, List.map_cons]
        exact hround.trans (ih _ hun')
      · exact .refl _ _

/-- `t_tcp_output` loses nothing. -/
theorem tTcpOutput_keeps {pcb : TcpPcb} (hin : InUse (pcb.queued.map TcpSeg.p)) :
    let r := tTcpOutput env pools pcb
    Keeps pools pcb.queued r.2.1 r.2.2.1.queued := by
  refine .of_givesBack (tTcpOutput_givesBack env pools hin) ?_
  rcases tTcpOutput_cases env pools pcb with h | h
  · obtain ⟨⟨flags, hpcb⟩, hpool, -⟩ := tTcpOutputAck_spec env pools pcb
    rw [h, hpcb, hpool]
    exact .refl _ _
  · rw [h]
    exact tTcpOutputLoop_blocks env pools pcb.wnd rfl

/-! ## input -/

theorem tTcpProcess_blocks (cbRet : ErrT) (pcb : TcpPcb) (s : Incoming) :
    let r := tTcpProcess env cbRet pools pcb s
    Moves [] pools.segPool (pcb.queued.map TcpSeg.id) r.2.1.segPool
      (r.2.2.1.queued.map TcpSeg.id) := by
  unfold tTcpProcess
  simp only
  split
  · split
    · exact .refl _ _
    · next rseg unacked hcons =>
      -- the block of the SYN goes back
      have hfree : Moves [] pools.segPool (pcb.queued.map TcpSeg.id) (rseg.id :: pools.segPool)
          ((pcb.unsent ++ unacked).map TcpSeg.id) := by
        rw [TcpPcb.queued, hcons]
        exact (Moves.of_perm _ (List.perm_middle.symm.map _)).trans (.release _ _ _)
      split
      · split
        · exact hfree
        · exact hfree
      · exact .refl _ _
  · exact .refl _ _

/-- A segment coming in makes nothing be lost. -/
theorem tTcpReceive_keeps (cbRet : ErrT) {pcb : TcpPcb} (s : Incoming)
    (hin : InUse (pcb.queued.map TcpSeg.p)) :
    let r := tTcpReceive env cbRet pools pcb s
    Keeps pools pcb.queued r.2.1 r.2.2.1.queued := by
  have hproc : Keeps pools pcb.queued (tTcpProcess env cbRet pools pcb s).2.1
      (tTcpProcess env cbRet pools pcb s).2.2.1.queued :=
    .of_givesBack (tTcpProcess_givesBack env pools cbRet s hin)
      (tTcpProcess_blocks env pools cbRet pcb s)
  unfold tTcpReceive
  generalize tTcpProcess env cbRet pools pcb s = r at hproc
  obtain ⟨fate, pools', pcb', p, evs⟩ := r
  cases fate with
  | returns err =>
      simp only at hproc ⊢
      split
      · exact hproc.trans (tTcpOutput_keeps env pools' hproc.inUse)
      · exact hproc
  | hangs => exact hproc
  | crashes => exact hproc

end

/-! ## queueing -/

theorem map_modifyLast {α β : Type*} {f : α → β} {g : α → α} (h : ∀ a, f (g a) = f a)
    (l : List α) : (l.modifyLast g).map f = l.map f := by
  rcases List.eq_nil_or_concat' l with rfl | ⟨init, last, rfl⟩
  · rfl
  · rw [List.modifyLast_concat, List.map_append, List.map_append, List.map_singleton,
      List.map_singleton, h]

/-- Linking the new segments frees a block if the first of them is chained, and its pbuf is lost
then. -/
theorem enqueueLink_keeps (mss : UInt16) (flags : UInt8) {unsent queue : List TcpSeg}
    (segPool : List SegId) (pool : List Pbuf) (hin : InUse ((unsent ++ queue).map TcpSeg.p)) :
    let r := enqueueLink mss flags unsent queue segPool
    Keeps ⟨pool, segPool⟩ (unsent ++ queue) ⟨pool, r.2.1⟩ r.1 := by
  unfold enqueueLink
  split
  · next useg seg rest hlast =>
    split
    · obtain ⟨init, rfl⟩ := List.getLast?_eq_some_iff.mp hlast
      have hid : (useg.chain seg).p.id = useg.p.id := by
        simp only [TcpSeg.chain, tPbufCat, Pbuf.memcpy_id]
      have href : (useg.chain seg).p.ref = useg.p.ref := by
        simp only [TcpSeg.chain, tPbufCat, Pbuf.memcpy_ref]
      rw [List.dropLast_concat]
      -- the block and the pbuf of `seg` come to the front
      have hfront : (init ++ [useg] ++ seg :: rest).Perm (seg :: (init ++ useg :: rest)) := by
        rw [List.append_assoc, List.singleton_append]
        exact (List.Perm.append_left _ (List.Perm.swap _ _ _)).trans List.perm_middle
      have hall := hin.perm (hfront.symm.map TcpSeg.p)
      rw [List.map_cons, inUse_cons] at hall
      have hmoved : Keeps ⟨pool, segPool⟩ (init ++ [useg] ++ seg :: rest) ⟨pool, seg.id :: segPool⟩
          (init ++ useg :: rest) := by
        refine ⟨?_, ⟨[seg.p.id], ?_⟩, hall.2⟩
        · exact (Moves.of_perm _ (hfront.symm.map _)).trans (.release _ _ _)
        · exact (Moves.of_perm _ (hfront.symm.map _)).trans (.lose _ _ _)
      exact hmoved.congr_right (by simp) (by simp [hid]) (by simp [href])
    · exact .refl _ hin
  · exact .refl _ hin

/-- `t_tcp_enqueue`: new segments take blocks and pbufs, and a call that fails gives all blocks
back. -/
theorem tTcpEnqueue_keeps (pools : Pools) (pcb : TcpPcb) (a : EnqueueArgs) (len : UInt16)
    (hin : InUse (pcb.queued.map TcpSeg.p)) :
    let r := tTcpEnqueue pools pcb a.arg len a.flags a.copy a.optdata a.optlen
    Keeps pools pcb.queued r.2.1 r.2.2.queued := by
  obtain ⟨r, hr⟩ : ∃ r, tTcpEnqueue pools pcb a.arg len a.flags a.copy a.optdata a.optlen = r :=
    ⟨_, rfl⟩
  rw [hr]
  intro r'
  rw [show r' = r from rfl]
  by_cases hret : r.1 = 0
  swap
  · obtain ⟨hpcb, hpools | hloop⟩ := tTcpEnqueue_of_ne_zero hr hret
    · rw [hpcb, hpools]
      exact .refl _ hin
    · obtain ⟨lost, -, -, -, hids⟩ :=
        tTcpEnqueueLoop_error_ids (EnqueueState.start_accounts pools pcb a len) hloop
      rw [hpcb]
      refine ⟨(tTcpEnqueueLoop_error_segPool hloop).append_right _, ⟨lost, ?_⟩, hin⟩
      rw [Moves, ← List.append_assoc]
      exact hids.symm.append_right _
  obtain ⟨-, -, segPool, st, hloop, hpool, hseg, hpcb⟩ := tTcpEnqueue_of_eq_zero hr hret
  obtain ⟨⟨⟨lost, -, hids⟩, href⟩, -⟩ :=
    tTcpEnqueueLoop_ok_ids (EnqueueState.start_accounts pools pcb a len) hloop
  obtain ⟨hblocks, -⟩ := tTcpEnqueueLoop_ok
    (I := fun st segPool => (st.queue.map TcpSeg.id ++ segPool).Perm pools.segPool)
    (fun _ _ _ _ _ hi hround => tTcpEnqueueRound_perm hround hi) (List.Perm.refl _) hloop
  have hqueue : InUse (st.queue.map TcpSeg.p) := fun p hp => by
    obtain ⟨seg, hs, rfl⟩ := List.mem_map.mp hp
    exact href seg hs
  rw [TcpPcb.queued, List.map_append, inUse_append] at hin
  have htaken : ([] ++ (segPool ++ st.queue.map TcpSeg.id)).Perm pools.segPool := by
    rw [List.nil_append]
    exact List.perm_append_comm.trans hblocks
  -- the new segments, then what linking does to them and the unsent ones
  have hnew : Keeps pools (pcb.unsent ++ pcb.unacked) ⟨st.pbufPool, segPool⟩
      (pcb.unsent ++ st.queue ++ pcb.unacked) := by
    refine ⟨?_, ⟨lost, ?_⟩, ?_⟩
    · simp only [List.map_append]
      exact .insert htaken _ _
    · simp only [List.map_append]
      exact .insert hids.symm _ _
    · simp only [List.map_append, inUse_append]
      exact ⟨⟨hin.1, hqueue⟩, hin.2⟩
  have hlink : Keeps ⟨st.pbufPool, segPool⟩ (pcb.unsent ++ st.queue)
      ⟨st.pbufPool, (enqueueLink pcb.mss a.flags pcb.unsent st.queue segPool).2.1⟩
      (enqueueLink pcb.mss a.flags pcb.unsent st.queue segPool).1 :=
    enqueueLink_keeps pcb.mss a.flags segPool st.pbufPool (by
      rw [List.map_append]
      exact inUse_append.mpr ⟨hin.1, hqueue⟩)
  have hall := hnew.trans (hlink.frame hin.2)
  have hpools : r.2.1 =
      ⟨st.pbufPool, (enqueueLink pcb.mss a.flags pcb.unsent st.queue segPool).2.1⟩ := by
    rw [← hpool, ← hseg]
  rw [hpools, hpcb]
  refine hall.congr_right ?_ ?_ ?_
  all_goals
    simp only [TcpPcb.queued, List.map_append]
    split
    · rw [map_modifyLast (g := (TcpSeg.setFlag · tcpPsh)) fun _ => rfl]
    · rfl

theorem tTcpWrite_keeps (pools : Pools) {pcb : TcpPcb} (arg : ByteMem) (len : UInt16)
    (copy : Bool) (hin : InUse (pcb.queued.map TcpSeg.p)) :
    let r := tTcpWrite pools pcb arg len copy
    Keeps pools pcb.queued r.2.1 r.2.2.queued := by
  unfold tTcpWrite
  split
  · split
    · exact tTcpEnqueue_keeps pools pcb ⟨some arg, 0, copy, none, 0⟩ len hin
    · exact .refl _ hin
  · exact .refl _ hin

/-! ## a host -/

namespace TcpHost

/-- What `f` says of a control block in use, and `z` for one that is free. -/
def ofUsed {α : Type*} (h : TcpHost) (z : α) (f : TcpPcb → α) (i : TcpPcbId) : α :=
  if i ∈ h.tcpPcbPool then z else f (h.pcb i)

section
variable {α : Type*} {h h' : TcpHost} {z : α} {f : TcpPcb → α} {i : TcpPcbId}

theorem ofUsed_of_not_mem (hi : i ∉ h.tcpPcbPool) : h.ofUsed z f i = f (h.pcb i) := if_neg hi

theorem ofUsed_congr (hpool : h'.tcpPcbPool = h.tcpPcbPool) (hpcb : h'.pcb i = h.pcb i) :
    h'.ofUsed z f i = h.ofUsed z f i := by
  rw [ofUsed, ofUsed, hpool, hpcb]

/-- A new control block is like a free one, if a zeroed one is. -/
theorem new_ofUsed (hz : ∀ iss ticks, f (tcpPcbInit iss ticks) = z) (j : TcpPcbId) :
    (tTcpNew h).2.ofUsed z f j = h.ofUsed z f j := by
  unfold tTcpNew
  split
  · rfl
  · next i pool hpool =>
    simp only [ofUsed, tTcpNextIss, hpool, List.mem_cons]
    by_cases hij : j = i
    · subst hij
      rw [if_pos (Or.inl rfl), setPcb_pcb_self, hz]
      exact ite_self z
    · rw [setPcb_pcb_of_ne _ hij]
      simp only [hij, false_or]
      rfl

end

/-- The segments of all control blocks in use. -/
def queued (h : TcpHost) : List TcpSeg :=
  (List.finRange tMempNumTcpPcb).flatMap (h.ofUsed [] TcpPcb.queued)

theorem mem_queued {h : TcpHost} {seg : TcpSeg} :
    seg ∈ h.queued ↔ ∃ i, i ∉ h.tcpPcbPool ∧ seg ∈ (h.pcb i).queued := by
  simp [queued, ofUsed]

/-- What one control block keeps, the host keeps. -/
theorem keeps_of_pcb {h : TcpHost} (h' : TcpHost) {i : TcpPcbId} (hi : i ∉ h.tcpPcbPool)
    (hpool : h'.tcpPcbPool = h.tcpPcbPool) (hother : ∀ j, j ≠ i → h'.pcb j = h.pcb j)
    (hin : InUse (h.queued.map TcpSeg.p))
    (hpcb : InUse ((h.pcb i).queued.map TcpSeg.p) →
      Keeps h.pools (h.pcb i).queued h'.pools (h'.pcb i).queued) :
    Keeps h.pools h.queued h'.pools h'.queued := by
  have hmem := List.mem_finRange i
  have hnodup := List.nodup_finRange tMempNumTcpPcb
  have hkeeps := hpcb fun p hp => by
    obtain ⟨seg, hs, rfl⟩ := List.mem_map.mp hp
    exact hin _ (List.mem_map_of_mem (mem_queued.mpr ⟨i, hi, hs⟩))
  refine ⟨?_, ?_, fun p hp => ?_⟩
  · rw [queued, queued, List.map_flatMap, List.map_flatMap]
    refine .flatMap hnodup hmem (fun j hj => by rw [ofUsed_congr hpool (hother j hj)]) ?_
    rw [ofUsed_of_not_mem hi, ofUsed_of_not_mem (hpool ▸ hi)]
    exact hkeeps.blocks
  · obtain ⟨lost, hlost⟩ := hkeeps.pbufs
    refine ⟨lost, ?_⟩
    rw [queued, queued, List.map_flatMap, List.map_flatMap]
    refine .flatMap hnodup hmem (fun j hj => by rw [ofUsed_congr hpool (hother j hj)]) ?_
    rw [ofUsed_of_not_mem hi, ofUsed_of_not_mem (hpool ▸ hi)]
    exact hlost
  · obtain ⟨seg, hs, rfl⟩ := List.mem_map.mp hp
    obtain ⟨j, hj, hs⟩ := mem_queued.mp hs
    by_cases hij : j = i
    · subst hij
      exact hkeeps.inUse _ (List.mem_map_of_mem hs)
    · rw [hother j hij] at hs
      rw [hpool] at hj
      exact hin _ (List.mem_map_of_mem (mem_queued.mpr ⟨j, hj, hs⟩))

/-- Every one of `blocks` is free or the block of one queued segment, and no pbuf is in two
places. -/
structure Owned (blocks : List SegId) (h : TcpHost) : Prop where
  linked : h.Linked
  blocks : (h.pools.segPool ++ h.queued.map TcpSeg.id).Perm blocks
  pbufs : (pbufIds h.pools.pbufPool h.queued).Nodup
  inUse : InUse (h.queued.map TcpSeg.p)

/-- The rest of the program takes and frees no block, and frees no pbuf that a queue holds. -/
def Fair (h : TcpHost) : TcpOp → Prop
  | .other pools _ => pools.segPool = h.pools.segPool ∧ (pbufIds pools.pbufPool h.queued).Nodup
  | _ => True

section
variable {h h' : TcpHost} {blocks : List SegId}

theorem Boot.owned (hb : h.Boot) (hn : (h.pools.pbufPool.map Pbuf.id).Nodup) :
    h.Owned h.pools.segPool := by
  have hnil : h.queued = [] := by simp [queued, ofUsed, hb.pool]
  refine ⟨hb.linked, ?_, ?_, ?_⟩
  · rw [hnil, List.map_nil, List.append_nil]
  · rw [hnil, pbufIds, List.map_nil, List.append_nil]
    exact hn
  · rw [hnil]
    exact inUse_nil

theorem Owned.of_keeps (ho : h.Owned blocks) (hk : Keeps h.pools h.queued h'.pools h'.queued)
    (hl : h'.Linked) : h'.Owned blocks where
  linked := hl
  blocks := by
    have hperm : ([] ++ (h'.pools.segPool ++ h'.queued.map TcpSeg.id)).Perm
      (h.pools.segPool ++ h.queued.map TcpSeg.id) := hk.blocks
    exact hperm.trans ho.blocks
  pbufs := by
    obtain ⟨lost, hlost⟩ := hk.pbufs
    exact hlost.nodup ho.pbufs
  inUse := hk.inUse

/-- `t_tcp_input`. -/
theorem Owned.input_keeps (ho : h.Owned blocks) (indet : Nat → Option Netif) (cbRet : ErrT)
    (p : Pbuf) : Keeps h.pools h.queued (tTcpInput h indet cbRet p).2.2.pools
      (tTcpInput h indet cbRet p).2.2.queued := by
  obtain ⟨-, -, -, hh⟩ | ⟨i, prev, s, k, -, hd, -, -, hh⟩ := h.tTcpInput_cases indet cbRet p
  · rw [hh]
    exact .refl _ ho.inUse
  · refine keeps_of_pcb _ (ho.linked.demux hd).1 ?_ (fun j hj => ?_) ho.inUse fun hin => ?_
    · rw [hh]
      exact h.moveToFront_tcpPcbPool i prev
    · rw [hh]
      exact (setPcb_pcb_of_ne _ hj _).trans (congrFun (h.moveToFront_pcb i prev) j)
    · rw [hh]
      simp only [setPcb_pcb_self]
      exact tTcpReceive_keeps (h.outEnv indet) h.pools cbRet s hin

theorem Owned.connect_keeps (ho : h.Owned blocks) {i : TcpPcbId} (hi : i ∉ h.tcpPcbPool)
    (indet : Nat → Option Netif) (ipaddr : UInt32) (port : UInt16) (connected : Option Nat) :
    Keeps h.pools h.queued (tTcpConnect h indet i ipaddr port connected).2.pools
      (tTcpConnect h indet i ipaddr port connected).2.queued := by
  obtain ⟨localPort, iss, h1, heq, -, hpcb, hpool⟩ :=
    tTcpConnectEnqueue_eq h i ipaddr port connected
  rw [tTcpConnect_eq, heq]
  have henq := fun hin => tTcpEnqueue_keeps h.pools
    (tcpConnectPcb (h.pcb i) ipaddr port localPort iss connected)
    ⟨none, tcpSyn.toUInt8, false, some (mssOption tTcpMss), 4⟩ 0 hin
  generalize tTcpEnqueue h.pools (tcpConnectPcb (h.pcb i) ipaddr port localPort iss connected) none
    0 tcpSyn.toUInt8 false (some (mssOption tTcpMss)) 4 = r at henq
  obtain ⟨ret, pools, pcb⟩ := r
  simp only at henq ⊢
  split
  · refine keeps_of_pcb _ hi hpool (fun j hj => ?_) ho.inUse fun hin => ?_
    · rw [← hpcb]
      exact setPcb_pcb_of_ne _ hj _
    · simp only [setPcb_pcb_self]
      exact (henq hin).trans (tTcpOutput_keeps _ pools (henq hin).inUse)
  · refine keeps_of_pcb _ hi hpool (fun j hj => ?_) ho.inUse fun hin => ?_
    · rw [← hpcb]
      exact setPcb_pcb_of_ne _ hj _
    · simp only [setPcb_pcb_self]
      exact henq hin

/-- A new control block has no segments. -/
theorem new_queued (h : TcpHost) : (tTcpNew h).2.queued = h.queued :=
  List.flatMap_congr fun j _ => new_ofUsed (fun _ _ => rfl) j

/-- One call. -/
theorem Owned.exec (ho : h.Owned blocks) {op : TcpOp} (hop : h.Legal op) (hfair : h.Fair op) :
    (h.exec op).2.Owned blocks := by
  have hl := ho.linked.exec hop
  have hset : ∀ {i : TcpPcbId} (pools : Pools) (pcb : TcpPcb), i ∉ h.tcpPcbPool →
      (InUse ((h.pcb i).queued.map TcpSeg.p) → Keeps h.pools (h.pcb i).queued pools pcb.queued) →
      Keeps h.pools h.queued pools (queued { h.setPcb i pcb with pools }) := fun pools pcb hi hk =>
    keeps_of_pcb { h.setPcb _ pcb with pools } hi rfl
      (fun j hj => setPcb_pcb_of_ne _ hj _) ho.inUse fun hin => by
        simp only [setPcb_pcb_self]
        exact hk hin
  cases op with
  | new =>
      have hpools : (tTcpNew h).2.pools = h.pools := by
        unfold tTcpNew
        split <;> rfl
      have hkeeps : Keeps h.pools h.queued (tTcpNew h).2.pools (tTcpNew h).2.queued := by
        rw [new_queued, hpools]
        exact .refl _ ho.inUse
      exact ho.of_keeps hkeeps hl
  | connect i ipaddr port connected indet =>
      exact ho.of_keeps (ho.connect_keeps hop indet ipaddr port connected) hl
  | write i arg len copy =>
      exact ho.of_keeps (hset _ _ hop (tTcpWrite_keeps h.pools arg len copy)) hl
  | output i indet =>
      exact ho.of_keeps (hset _ _ hop (tTcpOutput_keeps (h.outEnv indet) h.pools)) hl
  | input p cbRet indet =>
      have hexec : (h.exec (.input p cbRet indet)).2 = (tTcpInput h indet cbRet p).2.2 := by
        simp only [TcpHost.exec]
      rw [hexec] at hl ⊢
      exact ho.of_keeps (ho.input_keeps indet cbRet p) hl
  | other pools tcpTicks =>
      obtain ⟨hseg, hn⟩ := hfair
      refine ⟨hl, ?_, hn, ho.inUse⟩
      rw [show (h.exec (.other pools tcpTicks)).2.pools = pools from rfl, hseg]
      exact ho.blocks

end

end TcpHost

end TTcp
