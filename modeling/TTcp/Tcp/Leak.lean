import TTcp.Tcp.Batch

/-!
# TTcp.Tcp.Leak

Does `t_tcp_enqueue` lose pbufs?

A pbuf is free, or it is the `p` of a queued segment.  `t_pbuf_cat` copies where it
should link, and two kinds of pbufs are then in neither place: the one that data goes
through when it is not to be copied, and that of a segment which is chained into the
last unsent one.
-/

namespace TTcp

/-- The pbufs that are free, and those of the segments of a queue. -/
def pbufIds (pool : List Pbuf) (queue : List TcpSeg) : List PbufId :=
  pool.map Pbuf.id ++ queue.map fun seg => seg.p.id

/-- The pbufs are where a call may leave them: free, or in an unsent segment. -/
def Conserves (pools : Pools) (pcb : TcpPcb) (r : ErrT × Pools × TcpPcb) : Prop :=
  (pbufIds r.2.1.pbufPool r.2.2.unsent).Perm (pbufIds pools.pbufPool pcb.unsent)

/-- All are when none is lost. -/
theorem conserves_iff_of_perm {pools : Pools} {pcb : TcpPcb} {r : ErrT × Pools × TcpPcb}
    {lost : List PbufId}
    (h : (pbufIds pools.pbufPool pcb.unsent).Perm
      (lost ++ pbufIds r.2.1.pbufPool r.2.2.unsent)) :
    Conserves pools pcb r ↔ lost.length = 0 := by
  constructor
  · intro hc
    have hlen := (hc.trans h).length_eq
    rw [List.length_append] at hlen
    omega
  · intro hzero
    rw [List.length_eq_zero_iff.mp hzero, List.nil_append] at h
    exact h.symm

/-! ## the pbufs of a batch -/

section
variable {pcb : TcpPcb} {a : EnqueueArgs} {pool0 : List PbufId} {id : SegId}
variable {st st' : EnqueueState}

/-- The pbufs of `pool0` are free or in the queue under construction, but for as many
as the segments have cost beyond one each. -/
structure EnqueueState.Accounts (a : EnqueueArgs) (pool0 : List PbufId) (st : EnqueueState) :
    Prop where
  ids : ∃ lost, lost.length + st.queue.length = st.queue.length * a.slots.toNat ∧
    pool0.Perm (lost ++ pbufIds st.pbufPool st.queue)
  ref : ∀ seg ∈ st.queue, seg.p.ref = 1

theorem EnqueueState.Accounts.round (hi : st.Accounts a pool0)
    (hr : tTcpEnqueueRound pcb a id st = .ok st') : st'.Accounts a pool0 := by
  obtain ⟨⟨lost, hlost, hids⟩, href⟩ := hi
  rcases tTcpEnqueueRound_cases pcb a id st with ⟨pool, -, hr'⟩ | ⟨p, pool, ha, hr'⟩
  · rw [hr'] at hr
    cases hr
  · rw [hr'] at hr
    split at hr
    · cases hr
    · obtain rfl := Except.ok.inj hr
      obtain ⟨lost', hlost', hpool⟩ := enqueueAlloc_ids ha
      have hw := enqueueSeg_writesOnly pcb a id st.seqno (enqueueSeglen pcb.mss st.left) p
      refine ⟨⟨lost ++ lost', ?_, ?_⟩, fun seg hs => ?_⟩
      · simp only [List.length_append, List.length_singleton, Nat.add_mul, Nat.one_mul]
        omega
      · refine hids.trans ?_
        rw [List.append_assoc]
        refine List.Perm.append_left lost ?_
        simp only [pbufIds, hpool, List.map_append, List.map_cons, List.map_nil, hw.id,
          List.append_assoc, List.cons_append]
        refine List.Perm.append_left lost' ?_
        rw [← List.append_assoc]
        exact List.perm_append_singleton .. |>.symm
      · rcases List.mem_append.mp hs with hs | hs
        · exact href seg hs
        · rw [List.mem_singleton.mp hs, hw.ref]
          exact (enqueueAlloc_spec ha).2.ref

theorem EnqueueState.Accounts.block_ref (hi : st.Accounts a pool0) :
    ∀ seg ∈ st.queue.map TcpSeg.block, ∀ p ∈ seg.2, p.ref = 1 := by
  intro seg hs p hp
  obtain ⟨seg, hseg, rfl⟩ := List.mem_map.mp hs
  exact Option.mem_some.mp hp ▸ hi.ref seg hseg

/-- What the rounds append stays behind what there was. -/
theorem tTcpEnqueueRound_kept (hr : tTcpEnqueueRound pcb a id st = .ok st') :
    st.queue <+: st'.queue := by
  obtain ⟨p, pool, -, -, rfl⟩ := tTcpEnqueueRound_ok hr
  exact List.prefix_append _ _

/-- Segments with one reference are freed with their pbufs. -/
theorem tTcpSegsFree_ids {pools : Pools} {segs : List (SegId × Option Pbuf)}
    (href : ∀ seg ∈ segs, ∀ p ∈ seg.2, p.ref = 1) :
    ((tTcpSegsFree pools segs).2.pbufPool.map Pbuf.id).Perm
      ((segs.filterMap Prod.snd).map Pbuf.id ++ pools.pbufPool.map Pbuf.id) := by
  induction segs generalizing pools with
  | nil => exact List.Perm.refl _
  | cons seg segs ih =>
      have hrest := fun s hs => href s (List.mem_cons_of_mem seg hs)
      obtain ⟨id, _ | p⟩ := seg
      · exact ih hrest
      · have hfree := tPbufFree_single pools.pbufPool (href _ List.mem_cons_self p rfl)
        have hpool : (tTcpSegFree pools (id, some p)).2.pbufPool =
            { p with ref := 0 } :: pools.pbufPool := by simp only [tTcpSegFree, hfree]
        have htail := @ih (tTcpSegFree pools (id, some p)).2 hrest
        rw [hpool] at htail
        exact htail.trans List.perm_middle

theorem filterMap_block (queue : List TcpSeg) :
    ((queue.map TcpSeg.block).filterMap Prod.snd).map Pbuf.id =
      queue.map fun seg => seg.p.id := by
  simp [TcpSeg.block, Function.comp_def]

/-- A round that fails has given its pbufs back, or leaves the one of its segment to
`memerr`. -/
theorem tTcpEnqueueRound_error_ids {pool : List Pbuf} {p : Option Pbuf}
    (hr : tTcpEnqueueRound pcb a id st = .error (pool, p)) :
    (p = none ∧ pool.map Pbuf.id = st.pbufPool.map Pbuf.id) ∨
    ∃ q lost, p = some q ∧ q.ref = 1 ∧ lost.length + 1 = a.slots.toNat ∧
      st.pbufPool.map Pbuf.id = lost ++ q.id :: pool.map Pbuf.id := by
  rcases tTcpEnqueueRound_cases pcb a id st with ⟨pool', ha, hr'⟩ | ⟨q, pool', ha, hr'⟩
  · rw [hr'] at hr
    obtain ⟨rfl, rfl⟩ := Prod.mk.inj (Except.error.inj hr)
    exact Or.inl ⟨rfl, (enqueueAlloc_none ha).1⟩
  · rw [hr'] at hr
    split at hr
    · obtain ⟨rfl, rfl⟩ := Prod.mk.inj (Except.error.inj hr)
      obtain ⟨lost, hlost, hids⟩ := enqueueAlloc_ids ha
      exact Or.inr ⟨q, lost, rfl, (enqueueAlloc_spec ha).2.ref, hlost, hids⟩
    · cases hr

/-- A loop that fails has lost as many as its segments have cost beyond one each, and
they are no fewer than those queued before. -/
theorem tTcpEnqueueLoop_error_ids {segPool : List SegId} {pools : Pools}
    (hi : st.Accounts a pool0) (h : tTcpEnqueueLoop pcb a st segPool = .error pools) :
    ∃ lost n, st.queue.length ≤ n ∧ lost.length + n = n * a.slots.toNat ∧
      pool0.Perm (lost ++ pools.pbufPool.map Pbuf.id) := by
  have hcases := tTcpEnqueueLoop_error
    (I := fun st' _ => st'.Accounts a pool0 ∧ st.queue <+: st'.queue)
    (fun _ _ _ _ _ hi hr => ⟨hi.1.round hr, hi.2.trans (tTcpEnqueueRound_kept hr)⟩)
    ⟨hi, List.prefix_rfl⟩ h
  rcases hcases with ⟨st', ⟨hi', hpre⟩, rfl⟩ | ⟨st', id, segPool', pool, p, ⟨hi', hpre⟩, hr, rfl⟩
  · obtain ⟨lost, hlost, hids⟩ := hi'.ids
    refine ⟨lost, st'.queue.length, hpre.length_le, hlost, hids.trans ?_⟩
    refine List.Perm.append_left lost (List.Perm.symm ?_)
    refine (tTcpSegsFree_ids (hi'.block_ref)).trans ?_
    rw [filterMap_block, pbufIds]
    exact List.perm_append_comm
  · obtain ⟨lost, hlost, hids⟩ := hi'.ids
    rcases tTcpEnqueueRound_error_ids hr with ⟨rfl, hpool⟩ | ⟨q, lost', rfl, hq, hlost', hpool⟩
    · refine ⟨lost, st'.queue.length, hpre.length_le, hlost, hids.trans ?_⟩
      refine List.Perm.append_left lost (List.Perm.symm ?_)
      refine (tTcpSegsFree_ids fun seg hs q hq => ?_).trans ?_
      · rcases List.mem_append.mp hs with hs | hs
        · exact hi'.block_ref seg hs q hq
        · rw [List.mem_singleton.mp hs] at hq
          simp at hq
      · rw [List.filterMap_append, List.map_append, filterMap_block, pbufIds, hpool]
        simpa using List.perm_append_comm
    · refine ⟨lost ++ lost', st'.queue.length + 1, hpre.length_le.trans (Nat.le_succ _), ?_,
        hids.trans ?_⟩
      · rw [List.length_append, Nat.add_mul, Nat.one_mul]
        omega
      rw [List.append_assoc]
      refine List.Perm.append_left lost ?_
      rw [pbufIds, hpool, List.append_assoc]
      refine List.Perm.append_left lost' (List.Perm.symm ?_)
      refine (tTcpSegsFree_ids fun seg hs q' hq' => ?_).trans ?_
      · rcases List.mem_append.mp hs with hs | hs
        · exact hi'.block_ref seg hs q' hq'
        · rw [List.mem_singleton.mp hs] at hq'
          exact Option.mem_some.mp hq' ▸ hq
      · rw [List.filterMap_append, List.map_append, filterMap_block]
        rw [List.append_assoc]
        exact List.perm_append_comm

/-- A loop that ends has queued behind what there was. -/
theorem tTcpEnqueueLoop_ok_ids {segPool segPool' : List SegId} (hi : st.Accounts a pool0)
    (h : tTcpEnqueueLoop pcb a st segPool = .ok (segPool', st')) :
    st'.Accounts a pool0 ∧ st.queue <+: st'.queue :=
  (tTcpEnqueueLoop_ok (I := fun st' _ => st'.Accounts a pool0 ∧ st.queue <+: st'.queue)
    (fun _ _ _ _ _ hi hr => ⟨hi.1.round hr, hi.2.trans (tTcpEnqueueRound_kept hr)⟩)
    ⟨hi, List.prefix_rfl⟩ h).1

end

/-! ## linking the batch -/

/-- The first segment of a call is chained into the last unsent one. -/
def Coalesces (pcb : TcpPcb) (a : EnqueueArgs) (len : UInt16) : Prop :=
  ∃ useg ∈ pcb.unsent.getLast?, useg.tcplen ≠ 0 ∧ useg.flags &&& (tcpSyn ||| tcpFin) = 0 ∧
    a.flags.toUInt16 &&& (tcpSyn ||| tcpFin) = 0 ∧
    useg.len.toNat + min pcb.mss.toNat len.toNat ≤ pcb.mss.toNat

/-- A segment that another is chained into has data, so all data of the call goes into
that one. -/
theorem Coalesces.min_eq {pcb : TcpPcb} {a : EnqueueArgs} {len : UInt16}
    (h : Coalesces pcb a len) : min pcb.mss.toNat len.toNat = len.toNat := by
  obtain ⟨useg, -, htcplen, hflags, -, hle⟩ := h
  obtain ⟨hsyn, hfin⟩ := and_eq_zero_of_or hflags
  rw [TcpSeg.tcplen_of_flags hfin hsyn] at htcplen
  omega

theorem ids_modifyLast_setFlag (q : List TcpSeg) (flags : UInt16) :
    (q.modifyLast (TcpSeg.setFlag · flags)).map (fun seg => seg.p.id) =
      q.map fun seg => seg.p.id := by
  rcases List.eq_nil_or_concat' q with rfl | ⟨init, last, rfl⟩
  · rfl
  · rw [List.modifyLast_concat, List.map_append, List.map_append]
    rfl

/-- Linking a batch loses the pbuf of its first segment if that is chained, and nothing
else. -/
theorem enqueueLink_ids {pcb : TcpPcb} {len : UInt16} {seg : TcpSeg} (a : EnqueueArgs)
    (rest : List TcpSeg) (segPool : List SegId)
    (hlen : seg.len.toNat = min pcb.mss.toNat len.toNat) :
    ∃ lost : List PbufId, (lost.length = 0 ↔ ¬ Coalesces pcb a len) ∧
      (pcb.unsent.map (fun seg => seg.p.id) ++ (seg :: rest).map fun seg => seg.p.id).Perm
        (lost ++ (enqueueLink pcb.mss a.flags pcb.unsent (seg :: rest) segPool).1.map
          fun seg => seg.p.id) := by
  have hchains : ∀ useg ∈ pcb.unsent.getLast?,
      (chains pcb.mss a.flags useg seg = true ↔ Coalesces pcb a len) := fun useg hu => by
    have hget : pcb.unsent.getLast? = some useg := hu
    simp [chains, Coalesces, hget, hlen, and_assoc]
  by_cases hco : Coalesces pcb a len
  · obtain ⟨useg, hu, -⟩ := id hco
    have hch := (hchains useg hu).mpr hco
    rcases List.eq_nil_or_concat' pcb.unsent with hnil | ⟨us, useg', hus⟩
    · simp [hnil] at hu
    · rw [hus] at hu ⊢
      obtain rfl : useg' = useg := by simpa using hu
      refine ⟨[seg.p.id], iff_of_false (by simp) (not_not.mpr hco), ?_⟩
      have hid : (useg'.chain seg).p.id = useg'.p.id := by
        simp only [TcpSeg.chain, tPbufCat, Pbuf.memcpy_id]
      simp only [enqueueLink, List.getLast?_concat, hch, if_true, List.dropLast_concat,
        List.map_append, List.map_cons, List.map_nil, hid, List.append_assoc, List.cons_append,
        List.nil_append]
      have hmiddle := @List.perm_middle _ seg.p.id
        (us.map (fun seg => seg.p.id) ++ [useg'.p.id]) (rest.map fun seg => seg.p.id)
      simpa using hmiddle
  · have hno : ∀ useg ∈ pcb.unsent.getLast?, chains pcb.mss a.flags useg seg = false :=
      fun useg hu => by simpa using mt (hchains useg hu).mp hco
    refine ⟨[], iff_of_true rfl hco, ?_⟩
    rw [enqueueLink_append segPool hno, List.map_append]
    exact List.Perm.refl _

/-! ## a whole call -/

/-- The call gets as far as the pbufs of its first segment. -/
structure EnqueueStarts (pools : Pools) (pcb : TcpPcb) (a : EnqueueArgs) (len : UInt16) :
    Prop where
  buf : len ≤ pcb.sndBuf
  queuelen : pcb.sndQueuelen < tTcpSndQueuelen
  segs : pools.segPool ≠ []
  /-- The size check, on a 16-bit sum. -/
  fits : (a.room (enqueueSeglen pcb.mss len.toNat) + tPbufTransport).toNat ≤ 1514
  pbufs : a.slots.toNat ≤ pools.pbufPool.length

section
variable {pools : Pools} {pcb : TcpPcb} {a : EnqueueArgs} {len : UInt16}

theorem EnqueueState.start_accounts (pools : Pools) (pcb : TcpPcb) (a : EnqueueArgs)
    (len : UInt16) :
    (EnqueueState.start pools pcb len).Accounts a (pools.pbufPool.map Pbuf.id) where
  ids := ⟨[], by simp [EnqueueState.start], by simp [EnqueueState.start, pbufIds]⟩
  ref := by simp [EnqueueState.start]

/-- A call that does not get that far changes no pbuf. -/
theorem conserves_of_not_starts (h : ¬ EnqueueStarts pools pcb a len) :
    Conserves pools pcb (tTcpEnqueue pools pcb a.arg len a.flags a.copy a.optdata a.optlen) := by
  by_cases hbuf : pcb.sndBuf < len
  · rw [tTcpEnqueue, if_pos hbuf]
    exact List.Perm.refl _
  by_cases hfull : tTcpSndQueuelen ≤ pcb.sndQueuelen
  · rw [tTcpEnqueue, if_neg hbuf, if_pos hfull]
    exact List.Perm.refl _
  have hstart : ¬ ((EnqueueState.start pools pcb len).queue ≠ [] ∧
      (EnqueueState.start pools pcb len).left = 0) := by simp [EnqueueState.start]
  suffices hloop : ∃ pools', tTcpEnqueueLoop pcb a (.start pools pcb len) pools.segPool =
      .error pools' ∧ pools'.pbufPool.map Pbuf.id = pools.pbufPool.map Pbuf.id by
    obtain ⟨pools', hloop, hids⟩ := hloop
    rw [tTcpEnqueue_of_error hbuf hfull hloop, Conserves, pbufIds, pbufIds, hids]
  cases hsegs : pools.segPool with
  | nil =>
      refine ⟨⟨pools.pbufPool, []⟩, ?_, rfl⟩
      rw [tTcpEnqueueLoop, if_neg hstart]
      rfl
  | cons id segPool =>
      rcases tTcpEnqueueRound_cases pcb a id (.start pools pcb len) with
        ⟨pool, ha, hr⟩ | ⟨p, pool, ha, -⟩
      · refine ⟨⟨pool, id :: segPool⟩, ?_, (enqueueAlloc_none ha).1⟩
        rw [tTcpEnqueueLoop, if_neg hstart, hr]
        rfl
      · obtain ⟨-, hp⟩ := enqueueAlloc_spec ha
        obtain ⟨taken, htaken, hpool⟩ := hp.taken
        refine absurd ⟨UInt16.not_lt.mp hbuf, UInt8.not_le.mp hfull, by simp [hsegs], hp.room_le, ?_⟩ h
        have hlen : pools.pbufPool.length = (taken ++ pool).length := congrArg List.length hpool
        rw [List.length_append, htaken] at hlen
        omega

/-- The first round of a call that does takes its pbufs.  It fails only if two are one
too many for the queue. -/
theorem EnqueueStarts.round (h : EnqueueStarts pools pcb a len) (id : SegId) :
    ∃ p pool, enqueueAlloc a pools.pbufPool (enqueueSeglen pcb.mss len.toNat) 0 =
        (some (p, a.slots), pool) ∧
      ((a.slots = 2 ∧ tTcpEnqueueRound pcb a id (.start pools pcb len) = .error (pool, some p)) ∨
      ∃ st', tTcpEnqueueRound pcb a id (.start pools pcb len) = .ok st' ∧
        st'.left = len.toNat - min pcb.mss.toNat len.toNat ∧
        st'.queue = [enqueueSeg pcb a id pcb.sndLbb (enqueueSeglen pcb.mss len.toNat) p]) := by
  obtain ⟨p, pool, halloc⟩ := enqueueAlloc_of_fits 0 h.pbufs h.fits
  refine ⟨p, pool, halloc, ?_⟩
  rcases tTcpEnqueueRound_cases pcb a id (.start pools pcb len) with
    ⟨pool', ha, -⟩ | ⟨p', pool', ha, hr⟩
  · have hbad := halloc.symm.trans ha
    simp at hbad
  · have hsame := halloc.symm.trans ha
    simp only [Prod.mk.injEq, Option.some.injEq] at hsame
    obtain ⟨⟨rfl, -⟩, rfl⟩ := hsame
    have hlt := h.queuelen
    rw [UInt8.lt_iff_toNat_lt, tTcpSndQueuelen, show (40 : UInt8).toNat = 40 from rfl] at hlt
    by_cases hover : tTcpSndQueuelen < (EnqueueState.start pools pcb len).queuelen + a.slots
    · rw [if_pos hover] at hr
      refine Or.inl ⟨?_, hr⟩
      rw [UInt8.lt_iff_toNat_lt, UInt8.toNat_add, tTcpSndQueuelen,
        show (40 : UInt8).toNat = 40 from rfl, EnqueueState.start] at hover
      simp only at hover
      rcases a.toNat_slots with hone | htwo
      · omega
      · exact UInt8.toNat_inj.mp htwo
    · rw [if_neg hover] at hr
      exact Or.inr ⟨_, hr, by simp [EnqueueState.start], rfl⟩

/-- If it fails after that, one of the segments is among those that have cost pbufs; and
data that is all in the first segment goes through. -/
theorem EnqueueStarts.error_ids {pools' : Pools} (h : EnqueueStarts pools pcb a len)
    (hloop : tTcpEnqueueLoop pcb a (.start pools pcb len) pools.segPool = .error pools') :
    (∃ lost n, 1 ≤ n ∧ lost.length + n = n * a.slots.toNat ∧
      (pools.pbufPool.map Pbuf.id).Perm (lost ++ pools'.pbufPool.map Pbuf.id)) ∧
    (a.slots = 2 ∨ ¬ Coalesces pcb a len) := by
  obtain ⟨id, segPool, hsegs⟩ := List.exists_cons_of_ne_nil h.segs
  have hstart : ¬ ((EnqueueState.start pools pcb len).queue ≠ [] ∧
      (EnqueueState.start pools pcb len).left = 0) := by simp [EnqueueState.start]
  obtain ⟨p, pool, ha, ⟨htwo, hr⟩ | ⟨st, hr, hleft, hqueue⟩⟩ := h.round id
  · rw [hsegs, tTcpEnqueueLoop, if_neg hstart, hr] at hloop
    obtain ⟨lost, hlost, hids⟩ := enqueueAlloc_ids ha
    refine ⟨⟨lost, 1, le_rfl, by omega, ?_⟩, Or.inl htwo⟩
    rw [← Except.error.inj hloop, hids]
    refine List.Perm.append_left lost (List.Perm.symm ?_)
    refine (tTcpSegsFree_ids fun seg hs q hq => ?_).trans (List.Perm.refl _)
    rw [List.mem_singleton.mp hs] at hq
    exact Option.mem_some.mp hq ▸ (enqueueAlloc_spec ha).2.ref
  · rw [hsegs, tTcpEnqueueLoop, if_neg hstart, hr] at hloop
    have hi := (EnqueueState.start_accounts pools pcb a len).round hr
    obtain ⟨lost, n, hn, hlost, hids⟩ := tTcpEnqueueLoop_error_ids hi hloop
    rw [hqueue, List.length_singleton] at hn
    refine ⟨⟨lost, n, hn, hlost, hids⟩, Or.inr fun hco => ?_⟩
    -- nothing is left after the first round
    have hdone : st.queue ≠ [] ∧ st.left = 0 := ⟨by simp [hqueue], by rw [hleft, hco.min_eq]; omega⟩
    cases segPool with
    | nil => simp [tTcpEnqueueLoop, hdone] at hloop
    | cons id' segPool => simp [tTcpEnqueueLoop, hdone] at hloop

/-- If it succeeds, its first segment is the first of the batch. -/
theorem EnqueueStarts.ok_ids {segPool : List SegId} {st : EnqueueState}
    (h : EnqueueStarts pools pcb a len)
    (hloop : tTcpEnqueueLoop pcb a (.start pools pcb len) pools.segPool = .ok (segPool, st)) :
    st.Accounts a (pools.pbufPool.map Pbuf.id) ∧ ∃ seg rest, st.queue = seg :: rest ∧
      seg.len.toNat = min pcb.mss.toNat len.toNat := by
  obtain ⟨id, segs, hsegs⟩ := List.exists_cons_of_ne_nil h.segs
  have hstart : ¬ ((EnqueueState.start pools pcb len).queue ≠ [] ∧
      (EnqueueState.start pools pcb len).left = 0) := by simp [EnqueueState.start]
  obtain ⟨p, pool, ha, ⟨-, hr⟩ | ⟨st', hr, -, hqueue⟩⟩ := h.round id
  · rw [hsegs, tTcpEnqueueLoop, if_neg hstart, hr] at hloop
    cases hloop
  · rw [hsegs, tTcpEnqueueLoop, if_neg hstart, hr] at hloop
    have hi := (EnqueueState.start_accounts pools pcb a len).round hr
    obtain ⟨hi', rest, hrest⟩ := tTcpEnqueueLoop_ok_ids hi hloop
    rw [hqueue] at hrest
    exact ⟨hi', _, rest, hrest.symm, by rw [enqueueSeg_len, toNat_enqueueSeglen]⟩

end

section
variable {pools : Pools} {pcb : TcpPcb} {a : EnqueueArgs} {len : UInt16}

/-- What a call that succeeds leaves: PSH on the last segment moves no pbuf. -/
theorem tTcpEnqueue_ids {segPool : List SegId} {st : EnqueueState} (hbuf : ¬ pcb.sndBuf < len)
    (hfull : ¬ tTcpSndQueuelen ≤ pcb.sndQueuelen)
    (hloop : tTcpEnqueueLoop pcb a (.start pools pcb len) pools.segPool = .ok (segPool, st)) :
    let r := tTcpEnqueue pools pcb a.arg len a.flags a.copy a.optdata a.optlen
    r.2.1.pbufPool = st.pbufPool ∧ r.2.2.unsent.map (fun seg => seg.p.id) =
      (enqueueLink pcb.mss a.flags pcb.unsent st.queue segPool).1.map fun seg => seg.p.id := by
  rw [tTcpEnqueue_of_ok hbuf hfull hloop]
  refine ⟨rfl, ?_⟩
  dsimp only
  split
  · exact ids_modifyLast_setFlag _ _
  · rfl

/-- A call that gets as far as the pbufs of its first segment. -/
theorem EnqueueStarts.conserves_iff (h : EnqueueStarts pools pcb a len) :
    Conserves pools pcb (tTcpEnqueue pools pcb a.arg len a.flags a.copy a.optdata a.optlen) ↔
      a.slots = 1 ∧ ¬ Coalesces pcb a len := by
  have hbuf := UInt16.not_lt.mpr h.buf
  have hfull := UInt8.not_le.mpr h.queuelen
  have hslots : a.slots = 1 ↔ a.slots.toNat = 1 := UInt8.toNat_inj.symm
  have htwo := a.toNat_slots
  cases hloop : tTcpEnqueueLoop pcb a (.start pools pcb len) pools.segPool with
  | error pools' =>
      obtain ⟨⟨lost, n, hn, hlost, hids⟩, hco⟩ := h.error_ids hloop
      rw [tTcpEnqueue_of_error hbuf hfull hloop]
      have hperm : (pbufIds pools.pbufPool pcb.unsent).Perm
          (lost ++ pbufIds pools'.pbufPool pcb.unsent) := by
        rw [pbufIds, pbufIds, ← List.append_assoc]
        exact hids.append_right _
      rw [conserves_iff_of_perm hperm, hslots]
      rcases htwo with hone | htwo
      · rw [hone] at hlost
        have hno := hco.resolve_left fun heq => by simp [heq] at hone
        exact iff_of_true (by omega) ⟨hone, hno⟩
      · rw [htwo] at hlost
        exact iff_of_false (by omega) fun hbad => by omega
  | ok r =>
      obtain ⟨segPool, st⟩ := r
      obtain ⟨⟨⟨lost, hlost, hids⟩, -⟩, seg, rest, hqueue, hlen⟩ := h.ok_ids hloop
      obtain ⟨lost', hlost', hlink⟩ := enqueueLink_ids a rest segPool hlen
      obtain ⟨hpool, hunsent⟩ := tTcpEnqueue_ids hbuf hfull hloop
      rw [← hqueue] at hlink
      have hperm : (pbufIds pools.pbufPool pcb.unsent).Perm ((lost ++ lost') ++
          pbufIds (tTcpEnqueue pools pcb a.arg len a.flags a.copy a.optdata a.optlen).2.1.pbufPool
            (tTcpEnqueue pools pcb a.arg len a.flags a.copy a.optdata a.optlen).2.2.unsent) := by
        rw [pbufIds] at hids
        rw [pbufIds, pbufIds, hpool, hunsent]
        refine (hids.append_right _).trans ?_
        rw [List.append_assoc, List.append_assoc, List.append_assoc]
        refine List.Perm.append_left lost ?_
        refine (List.Perm.append_left _ (List.perm_append_comm.trans hlink)).trans ?_
        rw [← List.append_assoc, ← List.append_assoc]
        exact List.perm_append_comm.append_right _
      rw [conserves_iff_of_perm hperm, List.length_append, hslots, ← hlost']
      have hpos : 0 < st.queue.length := by simp [hqueue]
      rcases htwo with hone | htwo
      · rw [hone] at hlost
        omega
      · rw [htwo] at hlost
        omega

end

/-- **No pbuf is lost** in a call of `t_tcp_enqueue` exactly when it does not get as far
as the pbufs of its first segment, or when these are one each and the first segment is
not chained into the last unsent one. -/
theorem enqueue_conserves_iff (pools : Pools) (pcb : TcpPcb) (arg : Option ByteMem) (len : UInt16)
    (flags : UInt8) (copy : Bool) (optdata : Option ByteMem) (optlen : UInt8) :
    let a : EnqueueArgs := ⟨arg, flags, copy, optdata, optlen⟩
    Conserves pools pcb (tTcpEnqueue pools pcb arg len flags copy optdata optlen) ↔
      ¬ EnqueueStarts pools pcb a len ∨ a.slots = 1 ∧ ¬ Coalesces pcb a len := by
  intro a
  by_cases h : EnqueueStarts pools pcb a len
  · rw [or_iff_right (not_not.mpr h)]
    exact h.conserves_iff
  · exact iff_of_true (conserves_of_not_starts (a := a) h) (Or.inl h)

/-- A byte that is not to be copied costs a pbuf. -/
theorem not_enqueue_conserves : ¬ ∀ pools pcb arg len flags copy optdata optlen,
    Conserves pools pcb (tTcpEnqueue pools pcb arg len flags copy optdata optlen) := by
  intro hall
  have hstarts : EnqueueStarts ⟨tPbufInit fun _ _ => 0, [0]⟩
      { TcpPcb.zero with mss := 1400, sndBuf := 1 } ⟨some fun _ => 7, 0, false, none, 0⟩ 1 :=
    ⟨by decide, by decide, by simp, by decide, by decide⟩
  have hone := (hstarts.conserves_iff.mp (hall _ _ _ _ _ _ _ _)).1
  simp [EnqueueArgs.slots] at hone

end TTcp
