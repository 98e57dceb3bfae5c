import TTcp.Tcp.Queue

/-!
# TTcp.Tcp.Places

Which pbufs does a connection keep while segments come in?

Receiving and sending queue nothing new.  A pbuf in a queue of a control block stays in one of
its queues or goes back to the free list, and the pbuf of an empty acknowledgement goes back
before the call returns (`GivesBack`).
-/

namespace TTcp

/-! ## pbufs that go back -/

/-- Pbufs in use, with one reference each. -/
def InUse (l : List Pbuf) : Prop := ∀ p ∈ l, p.ref = 1

@[simp] theorem inUse_nil : InUse [] := fun _ hp => absurd hp List.not_mem_nil

@[simp] theorem inUse_cons {p : Pbuf} {l : List Pbuf} : InUse (p :: l) ↔ p.ref = 1 ∧ InUse l :=
  List.forall_mem_cons

@[simp] theorem inUse_append {l l' : List Pbuf} : InUse (l ++ l') ↔ InUse l ∧ InUse l' :=
  List.forall_mem_append

theorem InUse.perm {l l' : List Pbuf} (h : InUse l) (hp : l'.Perm l) : InUse l' := fun p hmem =>
  h p (hp.mem_iff.mp hmem)

/-- The pbuf is the same one, with the same references. -/
def SameUse (p q : Pbuf) : Prop := q.id = p.id ∧ q.ref = p.ref

theorem SameUse.trans {p q r : Pbuf} (h : SameUse p q) (h' : SameUse q r) : SameUse p r :=
  ⟨h'.1.trans h.1, h'.2.trans h.2⟩

/-- The free list was `pool` and `kept` the pbufs in use.  Some of these went back, and all others
are still kept. -/
structure GivesBack (pool kept pool' kept' : List Pbuf) : Prop where
  perm : ((pool' ++ kept').map Pbuf.id).Perm ((pool ++ kept).map Pbuf.id)
  subset : kept'.map Pbuf.id ⊆ kept.map Pbuf.id
  inUse : InUse kept'

namespace GivesBack

variable {pool kept pool' kept' pool'' kept'' : List Pbuf}

/-- The pbufs change their places among those that are kept, and what is in them. -/
theorem of_perm (h : (kept'.map Pbuf.id).Perm (kept.map Pbuf.id)) (hin : InUse kept') :
    GivesBack pool kept pool kept' where
  perm := by
    rw [List.map_append, List.map_append]
    exact h.append_left _
  subset := h.subset
  inUse := hin

theorem refl (hin : InUse kept) : GivesBack pool kept pool kept := of_perm (List.Perm.refl _) hin

theorem trans (h : GivesBack pool kept pool' kept') (h' : GivesBack pool' kept' pool'' kept'') :
    GivesBack pool kept pool'' kept'' where
  perm := h'.perm.trans h.perm
  subset := List.Subset.trans h'.subset h.subset
  inUse := h'.inUse

/-- The others do not matter. -/
theorem append_right (h : GivesBack pool kept pool' kept') {l : List Pbuf} (hin : InUse l) :
    GivesBack pool (kept ++ l) pool' (kept' ++ l) where
  perm := by
    have hsplit : ∀ a b : List Pbuf, (a ++ (b ++ l)).map Pbuf.id =
        (a ++ b).map Pbuf.id ++ l.map Pbuf.id := fun a b => by
      rw [← List.append_assoc, List.map_append]
    rw [hsplit, hsplit]
    exact h.perm.append_right _
  subset := by
    rw [List.map_append, List.map_append]
    exact List.append_subset.mpr ⟨List.subset_append_of_subset_left _ h.subset,
      List.subset_append_right _ _⟩
  inUse := inUse_append.mpr ⟨h.inUse, hin⟩

/-- One more pbuf in use stays that. -/
theorem cons (h : GivesBack pool kept pool' kept') {p q : Pbuf} (hq : SameUse p q)
    (hp : p.ref = 1) : GivesBack pool (p :: kept) pool' (q :: kept') where
  perm := by
    refine ((List.perm_middle.map _).trans ?_).trans (List.perm_middle.map _).symm
    rw [List.map_cons, List.map_cons, hq.1]
    exact h.perm.cons _
  subset := by
    rw [List.map_cons, List.map_cons, hq.1]
    exact List.cons_subset_cons _ h.subset
  inUse := inUse_cons.mpr ⟨hq.2.trans hp, h.inUse⟩

/-- A pbuf in use is freed. -/
theorem free {p : Pbuf} (hp : p.ref = 1) (hin : InUse kept) :
    GivesBack pool (p :: kept) (tPbufFree pool [p]).2 kept where
  perm := by
    rw [tPbufFree_single pool hp, List.cons_append, List.map_cons, List.map_append, List.map_append,
      List.map_cons]
    exact List.perm_middle.symm
  subset := fun _ hmem => List.mem_cons_of_mem _ hmem
  inUse := hin

/-- A pbuf is allocated and freed. -/
theorem allocFree {offset length flags : UInt16} {p q : Pbuf}
    (ha : tPbufAlloc pool offset length flags = (some p, pool')) (hq : SameUse p q)
    (hin : InUse kept) : GivesBack pool kept (tPbufFree pool' [q]).2 kept := by
  obtain ⟨-, -, r, hr, rfl⟩ := tPbufAlloc_eq_some ha
  have hid : q.id = r.id := hq.1
  have hids : ((tPbufFree pool' [q]).2 ++ kept).map Pbuf.id = (pool ++ kept).map Pbuf.id := by
    rw [tPbufFree_single pool' hq.2, hr, List.cons_append, List.cons_append, List.map_cons,
      List.map_cons, hid]
  exact ⟨List.Perm.of_eq hids, List.Subset.refl _, hin⟩

end GivesBack

/-! ## output -/

/-- The pbufs in the queues of a control block. -/
def TcpPcb.pbufs (pcb : TcpPcb) : List Pbuf := (pcb.unsent ++ pcb.unacked).map TcpSeg.p

section
variable (env : OutEnv) (pools : Pools)

theorem tTcpOutputSegmentSend_kept (indet : Option Netif) (arg : NetifArg) (seg : TcpSeg)
    (pcb : TcpPcb) :
    SameUse seg.p (tTcpOutputSegmentSend env indet arg seg pcb).1.p ∧
      (tTcpOutputSegmentSend env indet arg seg pcb).2.1.unsent = pcb.unsent ∧
      (tTcpOutputSegmentSend env indet arg seg pcb).2.1.unacked = pcb.unacked := by
  obtain ⟨rttest, rtseq, h⟩ := tTcpOutputSegmentSend_eq env indet arg seg pcb
  rw [h]
  exact ⟨⟨tIpOutput_id .., tIpOutput_ref ..⟩, rfl, rfl⟩

theorem tTcpOutputSegment_kept (indet : Option Netif) (seg : TcpSeg) (pcb : TcpPcb) :
    SameUse seg.p (tTcpOutputSegment env indet seg pcb).1.p ∧
      (tTcpOutputSegment env indet seg pcb).2.1.unsent = pcb.unsent ∧
      (tTcpOutputSegment env indet seg pcb).2.1.unacked = pcb.unacked := by
  have hfill : SameUse seg.p (seg.completed pcb).p := ⟨rfl, rfl⟩
  obtain ⟨-, h⟩ | ⟨n, -, h⟩ | ⟨-, h⟩ := tTcpOutputSegment_cases env indet seg pcb
  · rw [h]
    exact ⟨hfill, rfl, rfl⟩
  · obtain ⟨hsame, hunsent, hunacked⟩ := tTcpOutputSegmentSend_kept env indet (.value (some n))
      (seg.completed pcb) { pcb with localIp := n.ipAddr }
    rw [h]
    exact ⟨hfill.trans hsame, hunsent, hunacked⟩
  · obtain ⟨hsame, hunsent, hunacked⟩ := tTcpOutputSegmentSend_kept env indet .unassigned
      (seg.completed pcb) pcb
    rw [h]
    exact ⟨hfill.trans hsame, hunsent, hunacked⟩

theorem unackedInsert_perm (unacked : List TcpSeg) (seg : TcpSeg) :
    (unackedInsert unacked seg).Perm (seg :: unacked) := by
  unfold unackedInsert
  split
  · next hnone =>
    rw [List.getLast?_eq_none_iff.mp hnone]
  · split
    · exact List.Perm.refl _
    · exact List.perm_append_singleton _ _

/-- One round of output: the segment taken goes to the unacked queue, or is freed. -/
theorem tTcpOutputRound_givesBack (indet : Option Netif) {pcb : TcpPcb} {seg : TcpSeg}
    (hin : InUse (seg.p :: pcb.pbufs)) :
    GivesBack pools.pbufPool (seg.p :: pcb.pbufs)
      (tTcpOutputRound env indet pools pcb seg).1.pbufPool
      (tTcpOutputRound env indet pools pcb seg).2.1.pbufs := by
  obtain ⟨flags, hflags⟩ := pcb.outgoing_eq
  obtain ⟨r, hr⟩ : ∃ r, r = tTcpOutputSegment env indet (seg.outgoing pcb.state) pcb.outgoing :=
    ⟨_, rfl⟩
  obtain ⟨sndMax, hround⟩ := tTcpOutputRound_eq env pools hr
  obtain ⟨hsame, hunsent, hunacked⟩ :=
    tTcpOutputSegment_kept env indet (seg.outgoing pcb.state) pcb.outgoing
  rw [← hr] at hsame hunsent hunacked
  rw [hflags] at hunsent hunacked
  have hout : SameUse seg.p (seg.outgoing pcb.state).p := by
    rcases seg.outgoing_cases pcb.state with h | h <;> rw [h] <;> exact ⟨rfl, rfl⟩
  have hp : SameUse seg.p r.1.p := hout.trans hsame
  obtain ⟨href, hin⟩ := inUse_cons.mp hin
  -- the segment with its header filled in
  have hfill : GivesBack pools.pbufPool (seg.p :: pcb.pbufs) pools.pbufPool (r.1.p :: pcb.pbufs) :=
    .of_perm (by rw [List.map_cons, List.map_cons, hp.1])
      (inUse_cons.mpr ⟨hp.2.trans href, hin⟩)
  rw [hround]
  split
  · refine hfill.trans ?_
    have hperm : (TcpPcb.pbufs { r.2.1 with
        sndNxt := r.1.seqno + UInt32.ofNat r.1.tcplen
        sndMax := sndMax
        unacked := unackedInsert r.2.1.unacked r.1 }).Perm (r.1.p :: pcb.pbufs) := by
      rw [TcpPcb.pbufs, TcpPcb.pbufs, hunsent, hunacked, ← List.map_cons (f := TcpSeg.p)]
      exact (((unackedInsert_perm _ _).append_left _).trans List.perm_middle).map _
    exact .of_perm (hperm.map _) (hfill.inUse.perm hperm)
  · refine hfill.trans ?_
    have hpbufs : TcpPcb.pbufs { r.2.1 with
        sndNxt := r.1.seqno + UInt32.ofNat r.1.tcplen
        sndMax := sndMax } = pcb.pbufs := by
      rw [TcpPcb.pbufs, TcpPcb.pbufs, hunsent, hunacked]
    rw [hpbufs]
    exact .free (hp.2.trans href) hin

/-- The loop of output. -/
theorem tTcpOutputLoop_givesBack (wnd : UInt32) {pcb : TcpPcb} {unsent : List TcpSeg}
    (hun : pcb.unsent = unsent) (hin : InUse pcb.pbufs) :
    GivesBack pools.pbufPool pcb.pbufs (tTcpOutputLoop env wnd pools pcb unsent).1.pbufPool
      (tTcpOutputLoop env wnd pools pcb unsent).2.1.pbufs := by
  induction unsent generalizing pools pcb with
  | nil => exact .refl hin
  | cons seg rest ih =>
      rw [tTcpOutputLoop]
      split
      · have hpop : pcb.pbufs = seg.p :: TcpPcb.pbufs { pcb with unsent := rest } := by
          rw [TcpPcb.pbufs, TcpPcb.pbufs, hun, List.cons_append, List.map_cons]
        have hround := tTcpOutputRound_givesBack env pools (env.indet rest.length) (hpop ▸ hin)
        have hun' := (tTcpOutputRound_outputs env pools (env.indet rest.length)
          { pcb with unsent := rest } seg).2
        rw [hpop]
        exact hround.trans (ih _ hun' hround.inUse)
      · exact .refl hin

/-- The pbuf of an empty acknowledgement goes back. -/
theorem tTcpOutputAck_givesBack {pcb : TcpPcb} (hin : InUse pcb.pbufs) :
    GivesBack pools.pbufPool pcb.pbufs (tTcpOutputAck env pools pcb).2.1.pbufPool
      (tTcpOutputAck env pools pcb).2.2.1.pbufs := by
  unfold tTcpOutputAck
  simp only
  split
  · next pool ha =>
    rw [tPbufAlloc_eq_none ha]
    exact .refl hin
  · next p pool ha =>
    refine .allocFree ha (SameUse.trans (q := tcpAckBuild _ p p.payload) ⟨?_, ?_⟩
      ⟨tIpOutput_id .., tIpOutput_ref ..⟩) hin
    · simp [tcpAckBuild, tTcphFlagsSet, tTcphHdrlenSet]
    · exact (tcpAckBuild_spec _ p p.payload).2.2.1

theorem tTcpOutput_givesBack {pcb : TcpPcb} (hin : InUse pcb.pbufs) :
    GivesBack pools.pbufPool pcb.pbufs (tTcpOutput env pools pcb).2.1.pbufPool
      (tTcpOutput env pools pcb).2.2.1.pbufs := by
  rcases tTcpOutput_cases env pools pcb with h | h
  · rw [h]
    exact tTcpOutputAck_givesBack env pools hin
  · rw [h]
    exact tTcpOutputLoop_givesBack env pools pcb.wnd rfl hin

/-! ## input -/

/-- An accepted SYN|ACK frees the SYN. -/
theorem tTcpProcess_givesBack (cbRet : ErrT) {pcb : TcpPcb} (s : Incoming) (hin : InUse pcb.pbufs) :
    GivesBack pools.pbufPool pcb.pbufs (tTcpProcess env cbRet pools pcb s).2.1.pbufPool
      (tTcpProcess env cbRet pools pcb s).2.2.1.pbufs := by
  unfold tTcpProcess
  simp only
  split
  · split
    · exact .refl hin
    · next rseg unacked hcons =>
      have hperm : pcb.pbufs.Perm (rseg.p :: (pcb.unsent ++ unacked).map TcpSeg.p) := by
        rw [TcpPcb.pbufs, hcons, ← List.map_cons (f := TcpSeg.p)]
        exact List.perm_middle.map _
      obtain ⟨href, hin'⟩ := inUse_cons.mp (hin.perm hperm.symm)
      have hfree : GivesBack pools.pbufPool pcb.pbufs (tPbufFree pools.pbufPool [rseg.p]).2
          ((pcb.unsent ++ unacked).map TcpSeg.p) :=
        (GivesBack.of_perm (hperm.symm.map _) (hin.perm hperm.symm)).trans (.free href hin')
      split
      · split
        · exact hfree
        · exact hfree
      · exact .refl hin
  · exact .refl hin

theorem tTcpReceive_givesBack (cbRet : ErrT) {pcb : TcpPcb} (s : Incoming) (hin : InUse pcb.pbufs) :
    GivesBack pools.pbufPool pcb.pbufs (tTcpReceive env cbRet pools pcb s).2.1.pbufPool
      (tTcpReceive env cbRet pools pcb s).2.2.1.pbufs := by
  have hproc := tTcpProcess_givesBack env pools cbRet s hin
  unfold tTcpReceive
  split
  · next err pools' pcb' p evs heq =>
    rw [heq] at hproc
    split
    · exact hproc.trans (tTcpOutput_givesBack env _ hproc.inUse)
    · exact hproc
  · exact hproc

end

/-! ## a host -/

namespace TcpHost

variable (h : TcpHost)

/-- The pbufs in the queues of all control blocks. -/
def queuedPbufs : List Pbuf := (List.finRange tMempNumTcpPcb).flatMap fun i => (h.pcb i).pbufs

/-- Those of the other control blocks. -/
def otherPbufs (i : TcpPcbId) : List Pbuf :=
  ((List.finRange tMempNumTcpPcb).erase i).flatMap fun j => (h.pcb j).pbufs

theorem queuedPbufs_perm (i : TcpPcbId) :
    h.queuedPbufs.Perm ((h.pcb i).pbufs ++ h.otherPbufs i) :=
  (List.perm_cons_erase (List.mem_finRange i)).flatMap_right _

theorem otherPbufs_congr {h h' : TcpHost} {i : TcpPcbId} (hother : ∀ j, j ≠ i → h'.pcb j = h.pcb j) :
    h'.otherPbufs i = h.otherPbufs i := by
  refine List.flatMap_congr fun j hj => ?_
  rw [hother j ((List.nodup_finRange _).mem_erase_iff.mp hj).1]

/-- A control block gives pbufs back. -/
theorem givesBack_of_pcb {h h' : TcpHost} {i : TcpPcbId}
    (hpcb : InUse (h.pcb i).pbufs → GivesBack h.pools.pbufPool (h.pcb i).pbufs h'.pools.pbufPool
      (h'.pcb i).pbufs)
    (hother : ∀ j, j ≠ i → h'.pcb j = h.pcb j) (hin : InUse h.queuedPbufs) :
    GivesBack h.pools.pbufPool h.queuedPbufs h'.pools.pbufPool h'.queuedPbufs := by
  have hsplit := h.queuedPbufs_perm i
  have hin' := hin.perm hsplit.symm
  have hrest := (hpcb (inUse_append.mp hin').1).append_right (inUse_append.mp hin').2
  have hsplit' := h'.queuedPbufs_perm i
  rw [otherPbufs_congr hother] at hsplit'
  exact ((GivesBack.of_perm (hsplit.symm.map _) hin').trans hrest).trans
    (.of_perm (hsplit'.map _) (hrest.inUse.perm hsplit'))

end TcpHost

/-- `t_tcp_input`. -/
theorem tTcpInput_givesBack (h : TcpHost) (indet : Nat → Option Netif) (cbRet : ErrT) (p : Pbuf)
    (hin : InUse h.queuedPbufs) :
    GivesBack h.pools.pbufPool h.queuedPbufs (tTcpInput h indet cbRet p).2.2.pools.pbufPool
      (tTcpInput h indet cbRet p).2.2.queuedPbufs := by
  obtain ⟨-, -, -, hh⟩ | ⟨i, prev, s, k, -, -, -, -, hh⟩ := h.tTcpInput_cases indet cbRet p
  · rw [hh]
    exact .refl hin
  · refine TcpHost.givesBack_of_pcb (i := i) (fun hpcb => ?_) (fun j hj => ?_) hin
    · rw [hh]
      simp only [TcpHost.setPcb_pcb_self]
      exact tTcpReceive_givesBack (h.outEnv indet) h.pools cbRet s hpcb
    · rw [hh]
      exact (TcpHost.setPcb_pcb_of_ne _ hj _).trans (congrFun (h.moveToFront_pcb i prev) j)

/-! ## the packet -/

theorem Pbuf.ReadMore.sameUse {p q : Pbuf} (h : p.ReadMore q) : SameUse p q := by
  obtain ⟨e, -, rfl⟩ := h
  exact ⟨rfl, rfl⟩

theorem tTcpReceive_sameUse (env : OutEnv) (cbRet : ErrT) (pools : Pools) (pcb : TcpPcb)
    (s : Incoming) : SameUse s.p (tTcpReceive env cbRet pools pcb s).2.2.2.1 := by
  rw [tTcpReceive_pbuf]
  exact (tTcpProcess_readMore env cbRet pools pcb s).sameUse

theorem tTcpInputHeader_sameUse (p : Pbuf) : SameUse p (tTcpInputHeader p).1 ∧
    ∀ s k, (tTcpInputHeader p).2 = some (s, k) → SameUse p s.p := by
  unfold tTcpInputHeader
  simp only
  split
  · exact ⟨⟨by simp, by simp⟩, by simp⟩
  · refine ⟨⟨by simp, by simp⟩, fun s k h => ?_⟩
    obtain ⟨rfl, -⟩ := Prod.mk.inj (Option.some.inj h)
    exact ⟨by simp, by simp⟩

/-- `t_tcp_input` keeps the packet for nobody. -/
theorem tTcpInput_sameUse (h : TcpHost) (indet : Nat → Option Netif) (cbRet : ErrT) (p : Pbuf) :
    SameUse p (tTcpInput h indet cbRet p).2.1 := by
  obtain ⟨hp, hs⟩ := tTcpInputHeader_sameUse p
  unfold tTcpInput
  split
  · next heq =>
    rw [heq] at hp
    exact hp
  · next s k heq =>
    rw [heq] at hp hs
    split
    · exact hp
    · exact hp
    · exact (hs s k rfl).trans (tTcpReceive_sameUse ..)

end TTcp
