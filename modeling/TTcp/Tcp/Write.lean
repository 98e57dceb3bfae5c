import TTcp.Tcp.Enqueue

/-!
# TTcp.Tcp.Write

What `t_tcp_write` queues.

`DataQueue ok a q b bytes` says of a queue of data segments that it runs
through the sequence space from `a` to `b` and carries `bytes`.  A write that
returns 0 extends the bytes of the unsent queue by exactly its own
(`tTcpEnqueue_data`), however it is cut into segments and whether or not the
first of them is chained into an older one; a write that fails changes
nothing.
-/

namespace TTcp

/-! ## unsent data segments -/

/-- An unsent data segment: its headers stand at their place in the buffer,
the data follows, and the header has no flags besides, perhaps, PSH. -/
structure TcpSeg.Unsent (seg : TcpSeg) : Prop where
  tcphdr : seg.tcphdr = 34
  payload : seg.p.payload = 34
  plen : seg.p.len = seg.len + 20
  ptotLen : seg.p.totLen = seg.len + 20
  pref : seg.p.ref = 1
  len_pos : 0 < seg.len.toNat
  len_le : seg.len.toNat ≤ 1400
  word : seg.word = 0x5000 ∨ seg.word = 0x5008

/-- Without SYN and FIN the length of a segment is that of its data. -/
theorem TcpSeg.tcplen_of_flags {seg : TcpSeg} (h : seg.flags &&& tcpFin = 0)
    (h' : seg.flags &&& tcpSyn = 0) : seg.tcplen = seg.len.toNat := by
  rw [tcplen, h, h']
  simp

theorem TcpSeg.Unsent.tcplen {seg : TcpSeg} (h : seg.Unsent) : seg.tcplen = seg.len.toNat := by
  apply tcplen_of_flags
  all_goals rw [flags_eq]; rcases h.word with hw | hw <;> rw [hw] <;> rfl

/-- Setting a flag changes nothing but the word. -/
theorem TcpSeg.setFlag_writesOnly (seg : TcpSeg) (f : UInt16) :
    seg.p.WritesOnly (seg.setFlag f).p (seg.tcphdr + 12) (seg.tcphdr + 14) :=
  tTcphSetFlag_writesOnly ..

@[simp] theorem TcpSeg.setFlag_seqno (seg : TcpSeg) (f : UInt16) :
    (seg.setFlag f).seqno = seg.seqno :=
  (seg.setFlag_writesOnly f).tcphSeqno_eq (h := seg.tcphdr) (by omega)

@[simp] theorem TcpSeg.setFlag_payload (seg : TcpSeg) (f : UInt16) :
    (seg.setFlag f).payload = seg.payload :=
  (seg.setFlag_writesOnly f).slice (o := seg.tcphdr + 20) (by omega)

@[simp] theorem TcpSeg.setFlag_word (seg : TcpSeg) (f : UInt16) :
    (seg.setFlag f).word = seg.word ||| f := tTcphWord_setFlag ..

@[simp] theorem TcpSeg.setFlag_len (seg : TcpSeg) (f : UInt16) :
    (seg.setFlag f).len = seg.len := rfl

@[simp] theorem TcpSeg.setFlag_tcphdr (seg : TcpSeg) (f : UInt16) :
    (seg.setFlag f).tcphdr = seg.tcphdr := rfl

@[simp] theorem TcpSeg.setFlag_id (seg : TcpSeg) (f : UInt16) : (seg.setFlag f).id = seg.id := rfl

/-- Flags other than SYN and FIN do not count in the sequence space. -/
theorem TcpSeg.setFlag_tcplen (seg : TcpSeg) {f : UInt16} (hf : f &&& (tcpSyn ||| tcpFin) = 0) :
    (seg.setFlag f).tcplen = seg.tcplen := by
  obtain ⟨hsyn, hfin⟩ := and_eq_zero_of_or hf
  have hmask : ∀ m, f &&& m = 0 → (seg.word ||| f) &&& tcpFlags &&& m = seg.word &&& tcpFlags &&& m :=
    fun m hm => by
      have hzero : f &&& tcpFlags &&& m = 0 := by
        rw [UInt16.and_assoc, UInt16.and_comm tcpFlags, ← UInt16.and_assoc, hm, UInt16.zero_and]
      rw [or_and_mask, or_and_mask, hzero, UInt16.or_zero]
  rw [tcplen, tcplen, flags_eq, flags_eq, setFlag_word, setFlag_len, hmask _ hfin, hmask _ hsyn]

theorem TcpSeg.Unsent.setPsh {seg : TcpSeg} (h : seg.Unsent) : (seg.setFlag tcpPsh).Unsent where
  tcphdr := h.tcphdr
  payload := h.payload
  plen := h.plen
  ptotLen := h.ptotLen
  pref := h.pref
  len_pos := h.len_pos
  len_le := h.len_le
  word := by
    right
    rw [setFlag_word]
    rcases h.word with hw | hw <;> rw [hw] <;> rfl

/-! ## queues of data segments -/

/-- A queue of data segments of the kind `ok`, from `a` to `b` in the sequence
space, with `bytes` as its data. -/
structure DataQueue (ok : TcpSeg → Prop) (a : UInt32) (q : List TcpSeg) (b : UInt32)
    (bytes : List UInt8) : Prop where
  ok : ∀ seg ∈ q, ok seg
  tcplen : ∀ seg ∈ q, seg.tcplen = seg.len.toNat
  contiguous : Contiguous a q b
  bytes : q.flatMap TcpSeg.payload = bytes

section
variable {ok : TcpSeg → Prop}

theorem dataQueue_nil (a : UInt32) : DataQueue ok a [] a [] := ⟨by simp, by simp, rfl, rfl⟩

theorem dataQueue_append {a c : UInt32} {q q' : List TcpSeg} {bytes : List UInt8} :
    DataQueue ok a (q ++ q') c bytes ↔ ∃ b bs bs', DataQueue ok a q b bs ∧
      DataQueue ok b q' c bs' ∧ bytes = bs ++ bs' := by
  constructor
  · rintro ⟨hu, ht, hc, hb⟩
    obtain ⟨b, hc1, hc2⟩ := contiguous_append.mp hc
    exact ⟨b, _, _, ⟨fun s hs => hu s (by simp [hs]), fun s hs => ht s (by simp [hs]), hc1, rfl⟩,
      ⟨fun s hs => hu s (by simp [hs]), fun s hs => ht s (by simp [hs]), hc2, rfl⟩,
      by rw [← hb, List.flatMap_append]⟩
  · rintro ⟨b, bs, bs', h, h', rfl⟩
    refine ⟨fun s hs => ?_, fun s hs => ?_, contiguous_append.mpr ⟨b, h.contiguous, h'.contiguous⟩,
      ?_⟩
    · exact (List.mem_append.mp hs).elim (h.ok s) (h'.ok s)
    · exact (List.mem_append.mp hs).elim (h.tcplen s) (h'.tcplen s)
    · rw [List.flatMap_append, h.bytes, h'.bytes]

theorem dataQueue_singleton {a b : UInt32} {seg : TcpSeg} {bytes : List UInt8} (h : ok seg)
    (ht : seg.tcplen = seg.len.toNat) : DataQueue ok a [seg] b bytes ↔
      seg.seqno = a ∧ b = a + seg.len.toUInt32 ∧ seg.payload = bytes := by
  constructor
  · rintro ⟨-, -, ⟨hs, hc⟩, hb⟩
    rw [contiguous_nil, ht] at hc
    exact ⟨hs, by simpa using hc.symm, by simpa using hb⟩
  · rintro ⟨hs, rfl, hb⟩
    refine ⟨by simpa using h, by simpa using ht, ⟨hs, ?_⟩, by simpa using hb⟩
    rw [contiguous_nil, ht]
    simp

theorem dataQueue_cons {a c : UInt32} {seg : TcpSeg} {q : List TcpSeg} {bytes : List UInt8} :
    DataQueue ok a (seg :: q) c bytes ↔ ok seg ∧ seg.tcplen = seg.len.toNat ∧ seg.seqno = a ∧
      ∃ bs, DataQueue ok (a + seg.len.toUInt32) q c bs ∧ bytes = seg.payload ++ bs := by
  constructor
  · intro h
    have hok := h.ok seg List.mem_cons_self
    have ht := h.tcplen seg List.mem_cons_self
    obtain ⟨b, bs, bs', h1, h2, rfl⟩ := dataQueue_append (q := [seg]).mp h
    obtain ⟨hs, rfl, rfl⟩ := (dataQueue_singleton hok ht).mp h1
    exact ⟨hok, ht, hs, bs', h2, rfl⟩
  · rintro ⟨hok, ht, hs, bs, h, rfl⟩
    exact dataQueue_append (q := [seg]).mpr
      ⟨_, _, _, (dataQueue_singleton hok ht).mpr ⟨hs, rfl, rfl⟩, h, rfl⟩

/-- The lengths in the sequence space add up to the number of bytes. -/
theorem DataQueue.sum_tcplen {a b : UInt32} {q : List TcpSeg} {bytes : List UInt8}
    (h : DataQueue ok a q b bytes) : (q.map TcpSeg.tcplen).sum = bytes.length := by
  rw [← h.bytes, List.length_flatMap]
  congr 1
  apply List.map_congr_left
  intro seg hseg
  rw [h.tcplen seg hseg, TcpSeg.length_payload]

/-- A data queue is as long in the sequence space as in bytes. -/
theorem DataQueue.end_eq {a b : UInt32} {q : List TcpSeg} {bytes : List UInt8}
    (h : DataQueue ok a q b bytes) : b = a + UInt32.ofNat bytes.length := by
  rw [h.contiguous.end_eq, h.sum_tcplen]

end

/-! ## one round of the loop -/

/-- The pbuf of a data segment before its header is built. -/
structure DataPbuf (p : Pbuf) (n : UInt16) (bytes : List UInt8) : Prop where
  payload : p.payload = 54
  len : p.len = n
  totLen : p.totLen = n
  ref : p.ref = 1
  data : p.mem.slice 54 n.toNat = bytes

section
variable {pcb : TcpPcb} {arg : ByteMem} {copy : Bool}

/-- The arguments that `t_tcp_write` passes. -/
def writeArgs (arg : ByteMem) (copy : Bool) : EnqueueArgs := ⟨some arg, 0, copy, none, 0⟩

/-- With and without `copy`, the data ends up in the pbuf of the segment. -/
theorem enqueueAlloc_data {pbufPool pbufPool' : List Pbuf} {seglen : UInt16} {ptr : Nat} {p : Pbuf}
    {slots : UInt8} (h : enqueueAlloc (writeArgs arg copy) pbufPool seglen ptr =
      (some (p, slots), pbufPool')) :
    DataPbuf p seglen (arg.slice ptr seglen.toNat) ∧ (slots = 1 ∨ slots = 2) := by
  unfold enqueueAlloc writeArgs at h
  simp only at h
  cases copy with
  | true =>
      rw [if_pos rfl] at h
      cases ha : tPbufAlloc pbufPool tPbufTransport seglen tPbufFlagPool with
      | mk r pool1 =>
      cases r with
      | none => simp only [ha] at h; simp at h
      | some q =>
          obtain ⟨-, -, q', -, rfl⟩ := tPbufAlloc_eq_some ha
          simp only [ha, Prod.mk.injEq, Option.some.injEq] at h
          obtain ⟨⟨rfl, rfl⟩, -⟩ := h
          exact ⟨⟨rfl, rfl, rfl, rfl, by simp⟩, Or.inl rfl⟩
  | false =>
      rw [if_neg (by simp)] at h
      cases ha : tPbufAlloc pbufPool tPbufTransport seglen tPbufFlagPool with
      | mk r pool1 =>
      cases r with
      | none => simp only [ha] at h; simp at h
      | some data =>
          obtain ⟨-, -, d', -, rfl⟩ := tPbufAlloc_eq_some ha
          cases hb : tPbufAlloc pool1 tPbufTransport 0 tPbufFlagPool with
          | mk r pool2 =>
          cases r with
          | none => simp only [ha, hb] at h; simp at h
          | some q =>
              obtain ⟨-, -, q', -, rfl⟩ := tPbufAlloc_eq_some hb
              simp only [ha, hb, Prod.mk.injEq, Option.some.injEq] at h
              obtain ⟨⟨rfl, rfl⟩, -⟩ := h
              exact ⟨⟨rfl, by simp [tPbufCat], by simp [tPbufCat], rfl, by simp [tPbufCat]⟩,
                Or.inr rfl⟩

/-- Pulling the headroom in for the TCP header, and building it. -/
theorem unsent_of_dataPbuf {p : Pbuf} {len : UInt16} {bytes : List UInt8} (hp : DataPbuf p len bytes)
    (hpos : 0 < len.toNat) (hle : len.toNat ≤ 1400) (id : SegId) (src dest : UInt16)
    (seqno : UInt32) :
    tPbufHeader p (-tTcpHlen) =
        (0, { p with payload := 34, totLen := len + 20, len := len + 20 }) ∧
      ∀ q seg, q = tcphBuild { p with payload := 34, totLen := len + 20, len := len + 20 } 34 src
          dest seqno 0 → seg = TcpSeg.mk id (tTcphHdrlenSet q 34 5) len 34 →
        seg.Unsent ∧ seg.seqno = seqno ∧ seg.payload = bytes := by
  refine ⟨?_, ?_⟩
  · have hpush := tPbufHeader_push p (n := 20) (by rw [hp.payload]; omega) (by rw [hp.payload]; omega)
    rw [tTcpHlen, hpush, hp.payload, hp.len, hp.totLen]
    rfl
  · rintro q seg hq rfl
    have hb := tcphBuild_writesOnly { p with payload := 34, totLen := len + 20, len := len + 20 } 34
      src dest seqno 0
    rw [← hq] at hb
    have hh := hb.trans ((tTcphHdrlenSet_writesOnly q 34 5).mono (show 34 ≤ _ by omega)
      (show _ ≤ 54 by omega))
    refine ⟨⟨rfl, hh.payload, hh.len, hh.totLen, hh.ref.trans hp.ref, hpos, hle, Or.inl ?_⟩, ?_, ?_⟩
    · simp only [TcpSeg.word, hq, tTcphWord_build_hdrlenSet]
      rfl
    · simp only [TcpSeg.seqno]
      rw [(tTcphHdrlenSet_writesOnly q 34 5).tcphSeqno_eq (by omega), hq, tcphSeqno_build]
    · simp only [TcpSeg.payload]
      rw [hh.slice (by omega)]
      exact hp.data

/-- A round of `t_tcp_write` appends one data segment. -/
theorem tTcpEnqueueRound_data {id : SegId} {st st' : EnqueueState}
    (h : tTcpEnqueueRound pcb (writeArgs arg copy) id st = .ok st') (hmss : 0 < pcb.mss.toNat)
    (hmss' : pcb.mss.toNat ≤ 1400) (hleft : 0 < st.left) (hql : st.queuelen.toNat ≤ 40) :
    ∃ seg, seg.Unsent ∧ seg.seqno = st.seqno ∧ seg.payload = arg.slice st.ptr seg.len.toNat ∧
      seg.len.toNat ≤ pcb.mss.toNat ∧ st'.queue = st.queue ++ [seg] ∧
      st'.seqno = st.seqno + seg.len.toUInt32 ∧ st'.ptr = st.ptr + seg.len.toNat ∧
      st'.left + seg.len.toNat = st.left ∧
      st.queuelen.toNat + 1 ≤ st'.queuelen.toNat ∧ st'.queuelen.toNat ≤ 40 := by
  obtain ⟨seglen, hseglen⟩ : ∃ seglen : UInt16,
      seglen = if pcb.mss.toNat < st.left then pcb.mss else UInt16.ofNat st.left := ⟨_, rfl⟩
  have hlen : 0 < seglen.toNat ∧ seglen.toNat ≤ st.left ∧ seglen.toNat ≤ pcb.mss.toNat := by
    rw [hseglen]
    split
    · omega
    · rw [UInt16.toNat_ofNat']
      omega
  unfold tTcpEnqueueRound at h
  simp only [← hseglen] at h
  cases ha : enqueueAlloc (writeArgs arg copy) st.pbufPool seglen st.ptr with
  | mk r pbufPool =>
  cases r with
  | none => simp only [ha] at h; contradiction
  | some r =>
      obtain ⟨p, slots⟩ := r
      obtain ⟨hp, hslots⟩ := enqueueAlloc_data ha
      have hadd : (st.queuelen + slots).toNat = st.queuelen.toNat + slots.toNat := by
        rw [UInt8.toNat_add]
        rcases hslots with rfl | rfl <;> simp <;> omega
      obtain ⟨hpush, hseg⟩ := unsent_of_dataPbuf hp hlen.1 (by omega) id pcb.localPort
        pcb.remotePort st.seqno
      by_cases hle : tTcpSndQueuelen < st.queuelen + slots
      · simp only [ha, if_pos hle] at h
        contradiction
      · obtain ⟨hu, hs, hb⟩ := hseg _ _ rfl rfl
        simp only [ha, if_neg hle, hpush, ne_eq, not_true_eq_false, if_false, Except.ok.injEq] at h
        subst h
        rw [UInt8.lt_iff_toNat_lt] at hle
        refine ⟨_, hu, hs, hb, hlen.2.2, rfl, rfl, rfl, ?_, ?_, ?_⟩
        · exact Nat.sub_add_cancel hlen.2.1
        · simp only [hadd]
          rcases hslots with rfl | rfl <;> simp
        · simpa using hle

/-- With an `mss` of zero a round makes no headway. -/
theorem tTcpEnqueueRound_left_of_mss {a : EnqueueArgs} {id : SegId} {st st' : EnqueueState}
    (h : tTcpEnqueueRound pcb a id st = .ok st') (hmss : pcb.mss.toNat = 0) (hleft : 0 < st.left) :
    st'.left = st.left := by
  unfold tTcpEnqueueRound at h
  rw [if_pos (by omega)] at h
  simp only at h
  repeat' split at h
  all_goals try contradiction
  all_goals
    rw [← Except.ok.inj h]
    simp [hmss]

/-! ## the loop -/

/-- What holds at the head of the loop of a write of `n` bytes, begun with
`queuelen` queue slots in use. -/
structure WriteInv (pcb : TcpPcb) (arg : ByteMem) (n queuelen : Nat) (st : EnqueueState) : Prop where
  queue : DataQueue TcpSeg.Unsent pcb.sndLbb st.queue st.seqno (arg.slice 0 st.ptr)
  left : st.ptr + st.left = n
  len_le : ∀ seg ∈ st.queue, seg.len.toNat ≤ pcb.mss.toNat
  slots : queuelen + st.queue.length ≤ st.queuelen.toNat
  slots_le : st.queuelen.toNat ≤ 40

/-- While nothing is queued, everything is left. -/
theorem WriteInv.left_pos {n queuelen : Nat} {st : EnqueueState}
    (h : WriteInv pcb arg n queuelen st) (hn : 0 < n) (hst : ¬ (st.queue ≠ [] ∧ st.left = 0)) :
    0 < st.left := by
  by_contra hleft
  have hq : st.queue = [] := by
    by_contra hq
    exact hst ⟨hq, by omega⟩
  have hb := congrArg List.length h.queue.bytes
  rw [hq] at hb
  have hl := h.left
  simp at hb
  omega

theorem WriteInv.round {n queuelen : Nat} {id : SegId} {st st' : EnqueueState}
    (hi : WriteInv pcb arg n queuelen st)
    (h : tTcpEnqueueRound pcb (writeArgs arg copy) id st = .ok st') (hmss : 0 < pcb.mss.toNat)
    (hmss' : pcb.mss.toNat ≤ 1400) (hleft : 0 < st.left) : WriteInv pcb arg n queuelen st' := by
  obtain ⟨seg, hu, hs, hb, hle, hq, hseq, hptr, hl, hql, hql'⟩ :=
    tTcpEnqueueRound_data h hmss hmss' hleft hi.slots_le
  have hsum := hi.left
  refine ⟨?_, by omega, ?_, ?_, hql'⟩
  · rw [hq, hptr, ByteMem.slice_add, Nat.zero_add, dataQueue_append]
    exact ⟨_, _, _, hi.queue, (dataQueue_singleton hu hu.tcplen).mpr ⟨hs, hseq, hb⟩, rfl⟩
  · intro s hs
    rw [hq, List.mem_append, List.mem_singleton] at hs
    rcases hs with hs | rfl
    · exact hi.len_le s hs
    · exact hle
  · have := hi.slots
    rw [hq, List.length_append, List.length_singleton]
    omega

theorem tTcpEnqueueLoop_data {n queuelen : Nat} {st st' : EnqueueState}
    {segPool segPool' : List SegId} (hn : 0 < n) (hmss : pcb.mss.toNat ≤ 1400)
    (hi : WriteInv pcb arg n queuelen st)
    (h : tTcpEnqueueLoop pcb (writeArgs arg copy) st segPool = .ok (segPool', st')) :
    WriteInv pcb arg n queuelen st' ∧ st'.queue ≠ [] ∧ st'.left = 0 ∧ 0 < pcb.mss.toNat := by
  by_cases hm : pcb.mss.toNat = 0
  · -- the loop is left with nothing left, but nothing is ever taken
    exfalso
    have hpos : ∀ segPool st, 0 < st.left →
        tTcpEnqueueLoop pcb (writeArgs arg copy) st segPool ≠ .ok (segPool', st') := by
      intro segPool
      induction segPool with
      | nil =>
          intro st hleft
          rw [tTcpEnqueueLoop, if_neg (by omega)]
          exact fun h => nomatch h
      | cons id segPool ih =>
          intro st hleft
          rw [tTcpEnqueueLoop, if_neg (by omega)]
          cases hr : tTcpEnqueueRound pcb (writeArgs arg copy) id st with
          | error e => exact fun h => nomatch h
          | ok st1 => exact ih st1 (by rw [tTcpEnqueueRound_left_of_mss hr hm hleft]; exact hleft)
    by_cases hst : st.queue ≠ [] ∧ st.left = 0
    · -- segments without data are not data segments
      have hlen := fun s hs => (hi.queue.ok s hs).len_pos
      obtain ⟨s, hs⟩ := List.exists_mem_of_ne_nil _ hst.1
      have := hi.len_le s hs
      have := hlen s hs
      omega
    · exact hpos segPool st (hi.left_pos hn hst) h
  · induction segPool generalizing st with
    | nil =>
        rw [tTcpEnqueueLoop] at h
        split at h
        · next hst =>
          obtain ⟨-, rfl⟩ := Prod.mk.inj (Except.ok.inj h)
          exact ⟨hi, hst.1, hst.2, by omega⟩
        · contradiction
    | cons id segPool ih =>
        rw [tTcpEnqueueLoop] at h
        split at h
        · next hst =>
          obtain ⟨-, rfl⟩ := Prod.mk.inj (Except.ok.inj h)
          exact ⟨hi, hst.1, hst.2, by omega⟩
        · next hst =>
          cases hr : tTcpEnqueueRound pcb (writeArgs arg copy) id st with
          | error e => simp only [hr] at h; contradiction
          | ok st1 =>
              simp only [hr] at h
              exact ih (hi.round hr (by omega) hmss (hi.left_pos hn hst)) h

end

/-! ## linking to the unsent queue -/

/-- Chaining a new segment into an older one joins their data. -/
theorem TcpSeg.Unsent.chain {useg seg : TcpSeg} (hu : useg.Unsent) (hs : seg.Unsent)
    (hle : useg.len.toNat + seg.len.toNat ≤ 1400) :
    (useg.chain seg).Unsent ∧ (useg.chain seg).seqno = useg.seqno ∧
      (useg.chain seg).len.toNat = useg.len.toNat + seg.len.toNat ∧
      (useg.chain seg).payload = useg.payload ++ seg.payload := by
  have hadd : (useg.len + seg.len).toNat = useg.len.toNat + seg.len.toNat := by
    rw [UInt16.toNat_add]
    omega
  have hplen : useg.p.len.toNat = useg.len.toNat + 20 := by
    rw [hu.plen, UInt16.toNat_add, show (20 : UInt16).toNat = 20 from rfl]
    omega
  have hpull := tPbufHeader_pull seg.p (n := 20) (by rw [hs.payload]; omega)
  have hsub : seg.p.len - UInt16.ofNat 20 = seg.len := by
    rw [hs.plen]
    simp
  obtain ⟨p, hp⟩ : ∃ p, p = (tPbufHeader seg.p tTcpHlen).2 := ⟨_, rfl⟩
  have hplen' : p.len = seg.len := by rw [hp, tTcpHlen, hpull, hsub]
  have hpmem : p.payloadMem = seg.p.mem.shift 54 := by
    rw [hp, tTcpHlen, hpull, Pbuf.payloadMem, hs.payload]
  have hcat : (useg.chain seg).p = tPbufCat useg.p p.payloadMem p.len := by rw [hp]; rfl
  have hw : useg.p.WritesOnly (useg.p.memcpy (useg.p.payload + useg.p.len.toNat) p.payloadMem
      p.len.toNat) (54 + useg.len.toNat) (54 + useg.len.toNat + seg.len.toNat) :=
    (Pbuf.WritesOnly.memcpy ..).mono (by rw [hu.payload]; omega)
      (by rw [hu.payload, hplen']; omega)
  have htcphdr : (useg.chain seg).tcphdr = 34 := by rw [TcpSeg.chain_tcphdr, hu.tcphdr]
  have hmem : (useg.chain seg).p.mem = (useg.p.memcpy (useg.p.payload + useg.p.len.toNat)
      p.payloadMem p.len.toNat).mem := by rw [hcat, tPbufCat]
  refine ⟨⟨htcphdr, ?_, ?_, ?_, ?_, ?_, ?_, ?_⟩, ?_, by rw [TcpSeg.chain_len, hadd], ?_⟩
  · rw [hcat]; exact hu.payload
  · rw [hcat, tPbufCat, TcpSeg.chain_len]
    simp only [Pbuf.memcpy_len, hu.plen, hplen']
    rw [UInt16.add_assoc, UInt16.add_comm 20, ← UInt16.add_assoc]
  · rw [hcat, tPbufCat, TcpSeg.chain_len]
    simp only [Pbuf.memcpy_totLen, hu.ptotLen, hplen']
    rw [UInt16.add_assoc, UInt16.add_comm 20, ← UInt16.add_assoc]
  · rw [hcat]; exact hu.pref
  · rw [TcpSeg.chain_len, hadd]
    have := hu.len_pos
    omega
  · rwa [TcpSeg.chain_len, hadd]
  · have : (useg.chain seg).word = useg.word := by
      rw [TcpSeg.word, TcpSeg.word, htcphdr, hu.tcphdr, hmem]
      exact hw.tTcphWord_eq (by omega)
    rw [this]
    exact hu.word
  · rw [TcpSeg.seqno, TcpSeg.seqno, htcphdr, hu.tcphdr, hmem]
    exact hw.tcphSeqno_eq (by omega)
  · have hfst : (useg.chain seg).p.mem.slice (34 + 20) useg.len.toNat = useg.payload := by
      rw [hmem, hw.slice (by omega), TcpSeg.payload, hu.tcphdr]
    have hsnd : (useg.chain seg).p.mem.slice (34 + 20 + useg.len.toNat) seg.len.toNat =
        seg.payload := by
      have hend : 34 + 20 + useg.len.toNat = useg.p.payload + useg.p.len.toNat := by
        rw [hu.payload, hplen]
        omega
      rw [hmem, hend, Pbuf.memcpy_mem, hplen', ByteMem.slice_copy_self, hpmem, ByteMem.slice_shift,
        TcpSeg.payload, hs.tcphdr]
    rw [TcpSeg.payload, htcphdr, TcpSeg.chain_len, hadd, ByteMem.slice_add, hfst, hsnd]

/-- Marking the last segment with PSH does not change what is queued. -/
theorem DataQueue.setPsh {a b : UInt32} {init : List TcpSeg} {last : TcpSeg} {bytes : List UInt8}
    (h : DataQueue TcpSeg.Unsent a (init ++ [last]) b bytes) :
    DataQueue TcpSeg.Unsent a (init ++ [last.setFlag tcpPsh]) b bytes := by
  obtain ⟨c, bs, bs', hi, hl, rfl⟩ := dataQueue_append.mp h
  have hlast := hl.ok last (List.mem_singleton_self _)
  obtain ⟨hs, hb, hp⟩ := (dataQueue_singleton hlast hlast.tcplen).mp hl
  refine dataQueue_append.mpr ⟨c, bs, bs', hi, (dataQueue_singleton hlast.setPsh hlast.setPsh.tcplen).mpr ?_, rfl⟩
  exact ⟨by rw [TcpSeg.setFlag_seqno, hs], hb, by rw [TcpSeg.setFlag_payload, hp]⟩

/-- The queue after linking: chained or not, it carries the old bytes and then
the new ones.  No new segment is longer than `mss`. -/
theorem enqueueLink_data {mss : UInt16} {unsent queue : List TcpSeg} (segPool : List SegId)
    {a b c : UInt32} {bytes bytes' : List UInt8} (hu : DataQueue TcpSeg.Unsent a unsent b bytes)
    (hq : DataQueue TcpSeg.Unsent b queue c bytes') (hne : queue ≠ []) (hmss : mss.toNat ≤ 1400)
    (hle : ∀ seg ∈ queue, seg.len.toNat ≤ mss.toNat) :
    ∃ init last, (enqueueLink mss 0 unsent queue segPool).1 = init ++ [last] ∧
      DataQueue TcpSeg.Unsent a (init ++ [last]) c (bytes ++ bytes') ∧
      (init ++ [last]).length ≤ unsent.length + queue.length ∧ last.len.toNat ≤ mss.toNat ∧
      ∀ seg ∈ init, seg ∈ unsent ∨ seg.len.toNat ≤ mss.toNat := by
  -- without chaining, the last segment is the last new one
  have happend : ∃ init last, unsent ++ queue = init ++ [last] ∧
      DataQueue TcpSeg.Unsent a (init ++ [last]) c (bytes ++ bytes') ∧
      (init ++ [last]).length ≤ unsent.length + queue.length ∧ last.len.toNat ≤ mss.toNat ∧
      ∀ seg ∈ init, seg ∈ unsent ∨ seg.len.toNat ≤ mss.toNat := by
    obtain ⟨qs, last, rfl⟩ := (List.eq_nil_or_concat' queue).resolve_left hne
    refine ⟨unsent ++ qs, last, by simp, ?_, by simp, hle last (by simp), fun seg hs => ?_⟩
    · rw [List.append_assoc]
      exact dataQueue_append.mpr ⟨b, _, _, hu, hq, rfl⟩
    · exact (List.mem_append.mp hs).imp id fun h => hle seg (by simp [h])
  rcases List.eq_nil_or_concat' unsent with rfl | ⟨us, useg, rfl⟩
  · simpa [enqueueLink] using happend
  · obtain ⟨seg, rest, rfl⟩ := List.exists_cons_of_ne_nil hne
    by_cases hch : chains mss 0 useg seg
    · have hfit : useg.len.toNat + seg.len.toNat ≤ mss.toNat := by
        simp only [chains, Bool.and_eq_true, decide_eq_true_eq] at hch
        exact hch.2
      obtain ⟨b', bs1, bs2, hus, huseg, rfl⟩ := dataQueue_append.mp hu
      have hu1 := huseg.ok useg (List.mem_singleton_self _)
      obtain ⟨hs1, rfl, hp1⟩ := (dataQueue_singleton hu1 hu1.tcplen).mp huseg
      rw [show seg :: rest = [seg] ++ rest from rfl] at hq
      obtain ⟨c', bs3, bs4, hseg, hrest, rfl⟩ := dataQueue_append.mp hq
      have hu2 := hseg.ok seg (List.mem_singleton_self _)
      obtain ⟨hs2, rfl, hp2⟩ := (dataQueue_singleton hu2 hu2.tcplen).mp hseg
      obtain ⟨hu3, hs3, hl3, hp3⟩ := hu1.chain hu2 (by omega)
      have hq3 : DataQueue TcpSeg.Unsent b' [useg.chain seg] (b' + useg.len.toUInt32 + seg.len.toUInt32)
          (bs2 ++ bs3) := by
        refine (dataQueue_singleton hu3 hu3.tcplen).mpr ⟨hs3.trans hs1, ?_, by rw [hp3, hp1, hp2]⟩
        apply UInt32.toNat_inj.1
        simp only [UInt32.toNat_add, UInt16.toNat_toUInt32, hl3]
        omega
      have hall : DataQueue TcpSeg.Unsent a (us ++ [useg.chain seg] ++ rest) c (bs1 ++ bs2 ++ (bs3 ++ bs4)) := by
        refine dataQueue_append.mpr ⟨_, _, bs4, dataQueue_append.mpr ⟨b', bs1, _, hus, hq3, rfl⟩,
          hrest, by simp⟩
      have hlink : (enqueueLink mss 0 (us ++ [useg]) (seg :: rest) segPool).1 =
          us ++ [useg.chain seg] ++ rest := by simp [enqueueLink, hch]
      have hold : ∀ s ∈ us, s ∈ us ++ [useg] ∨ s.len.toNat ≤ mss.toNat :=
        fun s hs => Or.inl (by simp [hs])
      rw [hlink]
      rcases List.eq_nil_or_concat' rest with rfl | ⟨rs, last, rfl⟩
      · refine ⟨us, useg.chain seg, by simp, by simpa using hall, by simp, by omega, hold⟩
      · refine ⟨us ++ useg.chain seg :: rs, last, by simp, by simpa using hall, by simp,
          hle last (by simp), fun s hs => ?_⟩
        rcases List.mem_append.mp hs with hs | hs
        · exact hold s hs
        · rcases List.mem_cons.mp hs with rfl | hs
          · exact Or.inr (by omega)
          · exact Or.inr (hle s (by simp [hs]))
    · have hlink : (enqueueLink mss 0 (us ++ [useg]) (seg :: rest) segPool).1 =
          us ++ [useg] ++ (seg :: rest) := by simp [enqueueLink, hch]
      rw [hlink]
      exact happend

/-! ## one write -/

/-- A write that returns 0 queues exactly its bytes; one that fails changes
nothing.  Every segment it touches is no longer than `mss` afterwards. -/
theorem tTcpEnqueue_data (pools : Pools) {pcb : TcpPcb} (arg : ByteMem) {len : UInt16} (copy : Bool)
    {a : UInt32} {bytes : List UInt8} (hlen : 0 < len)
    (hq : DataQueue TcpSeg.Unsent a pcb.unsent pcb.sndLbb bytes) (hmss : pcb.mss.toNat ≤ 1400) :
    (∃ pools', tTcpEnqueue pools pcb (some arg) len 0 copy none 0 = (-1, pools', pcb)) ∨
    ∃ pools' unsent queuelen, tTcpEnqueue pools pcb (some arg) len 0 copy none 0 =
        (0, pools', { pcb with
          unsent
          sndLbb := pcb.sndLbb + len.toUInt32
          sndBuf := pcb.sndBuf - len
          sndQueuelen := queuelen }) ∧
      DataQueue TcpSeg.Unsent a unsent (pcb.sndLbb + len.toUInt32) (bytes ++ arg.slice 0 len.toNat) ∧
      len ≤ pcb.sndBuf ∧ unsent ≠ [] ∧
      unsent.length + pcb.sndQueuelen.toNat ≤ pcb.unsent.length + queuelen.toNat ∧
      queuelen.toNat ≤ 40 ∧ ∀ seg ∈ unsent, seg ∈ pcb.unsent ∨ seg.len.toNat ≤ pcb.mss.toNat := by
  have hn : 0 < len.toNat := by rwa [UInt16.lt_iff_toNat_lt] at hlen
  unfold tTcpEnqueue
  by_cases hbuf : pcb.sndBuf < len
  · rw [if_pos hbuf]
    exact Or.inl ⟨pools, rfl⟩
  rw [if_neg hbuf]
  by_cases hfull : tTcpSndQueuelen ≤ pcb.sndQueuelen
  · rw [if_pos hfull]
    exact Or.inl ⟨pools, rfl⟩
  rw [if_neg hfull]
  rw [UInt8.le_iff_toNat_le] at hfull
  obtain ⟨st, hst⟩ : ∃ st : EnqueueState, st = {
      pbufPool := pools.pbufPool
      queue := []
      left := len.toNat
      seqno := pcb.sndLbb
      ptr := 0
      queuelen := pcb.sndQueuelen
      seglen := 0 } := ⟨_, rfl⟩
  have hi : WriteInv pcb arg len.toNat pcb.sndQueuelen.toNat st := by
    subst hst
    refine ⟨dataQueue_nil _, by simp, by simp, by simp, ?_⟩
    simp only [tTcpSndQueuelen, show (40 : UInt8).toNat = 40 from rfl] at hfull ⊢
    omega
  simp only [← hst]
  cases hloop : tTcpEnqueueLoop pcb ⟨some arg, 0, copy, none, 0⟩ st pools.segPool with
  | error pools' => exact Or.inl ⟨pools', rfl⟩
  | ok r =>
      obtain ⟨segPool, st'⟩ := r
      obtain ⟨hi', hne, hleft, -⟩ := tTcpEnqueueLoop_data hn hmss hi hloop
      have hptr : st'.ptr = len.toNat := by
        have := hi'.left
        omega
      have hend : st'.seqno = pcb.sndLbb + len.toUInt32 := by
        rw [hi'.queue.end_eq, hptr]
        simp
      have hq' := hi'.queue
      rw [hptr, hend] at hq'
      obtain ⟨init, last, hlink, hdq, hcount, hlast, hinit⟩ :=
        enqueueLink_data segPool hq hq' hne hmss hi'.len_le
      have hslots := hi'.slots
      obtain ⟨psh, hpsh⟩ : ∃ psh : TcpSeg, (psh = last ∨ psh = last.setFlag tcpPsh) ∧
          (if (enqueueLink pcb.mss 0 pcb.unsent st'.queue segPool).2.2 ∧ 0 < st'.seglen then
              (enqueueLink pcb.mss 0 pcb.unsent st'.queue segPool).1.modifyLast
                (TcpSeg.setFlag · tcpPsh)
            else (enqueueLink pcb.mss 0 pcb.unsent st'.queue segPool).1) = init ++ [psh] := by
        split
        · exact ⟨_, Or.inr rfl, by rw [hlink, List.modifyLast_concat]⟩
        · exact ⟨_, Or.inl rfl, hlink⟩
      right
      refine ⟨⟨st'.pbufPool, (enqueueLink pcb.mss 0 pcb.unsent st'.queue segPool).2.1⟩,
        init ++ [psh], st'.queuelen, ?_, ?_, ?_, by simp, ?_, hi'.slots_le, ?_⟩
      · have hflags : ¬ ((0 : UInt8).toUInt16 &&& tcpSyn ≠ 0 ∨
            (0 : UInt8).toUInt16 &&& tcpFin ≠ 0) := by decide
        simp only [if_neg hflags, hpsh.2]
      · rcases hpsh.1 with rfl | rfl
        · exact hdq
        · exact hdq.setPsh
      · exact UInt16.not_lt.mp hbuf
      · simp only [List.length_append, List.length_singleton] at hcount ⊢
        omega
      · intro seg hs
        rcases List.mem_append.mp hs with hs | hs
        · exact hinit seg hs
        · obtain rfl := List.mem_singleton.mp hs
          right
          rcases hpsh.1 with rfl | rfl
          · exact hlast
          · exact hlast

end TTcp
