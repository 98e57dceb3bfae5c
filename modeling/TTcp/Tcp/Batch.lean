import TTcp.PbufBounds
import TTcp.Tcp.Write

/-!
# TTcp.Tcp.Batch

The batch of segments that a call of `t_tcp_enqueue` builds, whatever its
arguments: data copied or not, options, flags.

`enqueueAlloc_spec` and `tTcpEnqueueRound_cases` say what one round takes and
what it appends, `tTcpEnqueueLoop_ok` and `tTcpEnqueueLoop_error` carry an
invariant of the rounds to the two ends of the loop.  A call that fails has
given every block back (`enqueue_atomic`).  One that succeeds consumes the
sequence space of its data, and of a SYN or FIN that leaves room for itself
and goes out in one segment (`enqueue_covers_iff`).
-/

namespace TTcp

/-! ## the pbuf of a segment -/

/-- The queue slots that a segment costs, and the pbufs. -/
def EnqueueArgs.slots (a : EnqueueArgs) : UInt8 :=
  match a.optdata, a.copy with
  | none, false => 2
  | _, _ => 1

/-- What the pbuf of a segment holds behind its headers: the options, or
`seglen` bytes of data. -/
def EnqueueArgs.room (a : EnqueueArgs) (seglen : UInt16) : UInt16 :=
  match a.optdata with
  | some _ => a.optlen.toUInt16
  | none => seglen

theorem EnqueueArgs.toNat_slots (a : EnqueueArgs) : a.slots.toNat = 1 ∨ a.slots.toNat = 2 := by
  unfold slots
  split <;> simp

theorem EnqueueArgs.toNat_room_le (a : EnqueueArgs) (seglen : UInt16) {n : Nat} (hn : 255 ≤ n)
    (h : seglen.toNat ≤ n) : (a.room seglen).toNat ≤ n := by
  unfold room
  split
  · have := a.optlen.toNat_lt
    rw [UInt8.toNat_toUInt16]
    omega
  · exact h

/-- A pbuf that `enqueueAlloc` took from `pool`, with the pbufs left over. -/
structure EnqueuePbuf (a : EnqueueArgs) (pool : List Pbuf) (seglen : UInt16) (p : Pbuf)
    (pool' : List Pbuf) : Prop where
  payload : p.payload = 54
  len : p.len = a.room seglen
  totLen : p.totLen = a.room seglen
  ref : p.ref = 1
  room_le : (a.room seglen + tPbufTransport).toNat ≤ 1514
  taken : ∃ taken, taken.length = a.slots.toNat ∧ pool = taken ++ pool'
  /-- The only size check is on a 16-bit sum. -/
  inBounds : (∀ q ∈ pool, q.wrEnd ≤ tPbufBufsize) → (a.room seglen).toNat + 54 < 65536 → p.InBounds

section
variable {a : EnqueueArgs} {pool pool' : List Pbuf} {seglen : UInt16} {ptr : Nat}

/-- Copying into a fresh pbuf no more than it was asked to hold. -/
theorem Pbuf.InBounds.memcpy {p : Pbuf} (h : p.InBounds) (src : ByteMem) {n : Nat}
    (hn : n ≤ p.len.toNat) : (p.memcpy p.payload src n).InBounds := by
  have hpay := h.payload_le
  have hwr := h.wrEnd_le
  refine ⟨h.len_eq, hpay, ?_⟩
  simp only [Pbuf.memcpy]
  split <;> omega

/-- A successful allocation takes the first pbuf, or the second when data goes through
the first, and fills it behind its headers. -/
theorem enqueueAlloc_some {p : Pbuf} {slots : UInt8}
    (h : enqueueAlloc a pool seglen ptr = (some (p, slots), pool')) :
    slots = a.slots ∧ (a.room seglen + tPbufTransport).toNat ≤ 1514 ∧
      ∃ lost q src n, lost.length + 1 = a.slots.toNat ∧ pool = lost ++ q :: pool' ∧
        n ≤ (a.room seglen).toNat ∧ p = Pbuf.memcpy { q with
          ref := 1
          payload := 54
          totLen := a.room seglen
          len := a.room seglen } 54 src n := by
  obtain ⟨arg, flags, copy, optdata, optlen⟩ := a
  unfold enqueueAlloc at h
  have hnothing : ∀ q : Pbuf, q = q.memcpy 54 (fun _ => 0) 0 := fun q => by
    rw [Pbuf.memcpy, ByteMem.copy_zero, if_pos rfl]
  cases optdata with
  | some opt =>
      cases ha : tPbufAlloc pool tPbufTransport optlen.toUInt16 tPbufFlagPool with
      | mk r pool1 =>
      cases r with
      | none => simp only [ha] at h; simp at h
      | some q =>
          obtain ⟨hlen, -, q', rfl, rfl⟩ := tPbufAlloc_eq_some ha
          simp only [ha, Prod.mk.injEq, Option.some.injEq] at h
          obtain ⟨⟨rfl, rfl⟩, rfl⟩ := h
          exact ⟨rfl, hlen, [], q', _, 0, rfl, rfl, Nat.zero_le _, hnothing _⟩
  | none =>
      cases ha : tPbufAlloc pool tPbufTransport seglen tPbufFlagPool with
      | mk r pool1 =>
      cases r with
      | none => cases copy <;> simp only [ha] at h <;> simp at h
      | some data =>
          obtain ⟨hlen, -, d, rfl, rfl⟩ := tPbufAlloc_eq_some ha
          cases copy with
          | true =>
              cases arg with
              | none =>
                  simp only [ha, if_true, Prod.mk.injEq, Option.some.injEq] at h
                  obtain ⟨⟨rfl, rfl⟩, rfl⟩ := h
                  exact ⟨rfl, hlen, [], d, _, 0, rfl, rfl, Nat.zero_le _, hnothing _⟩
              | some arg =>
                  simp only [ha, if_true, Prod.mk.injEq, Option.some.injEq] at h
                  obtain ⟨⟨rfl, rfl⟩, rfl⟩ := h
                  exact ⟨rfl, hlen, [], d, _, _, rfl, rfl, le_rfl, rfl⟩
          | false =>
              cases hb : tPbufAlloc pool1 tPbufTransport 0 tPbufFlagPool with
              | mk r pool2 =>
              cases r with
              | none => simp only [ha, hb] at h; simp at h
              | some q =>
                  obtain ⟨-, -, q', rfl, rfl⟩ := tPbufAlloc_eq_some hb
                  simp only [ha, hb, Bool.false_eq_true, if_false, Prod.mk.injEq,
                    Option.some.injEq] at h
                  obtain ⟨⟨rfl, rfl⟩, rfl⟩ := h
                  refine ⟨rfl, hlen, [d], q', arg.getD (fun _ => 0) |>.shift ptr, seglen.toNat, rfl,
                    rfl, le_rfl, ?_⟩
                  simp [tPbufCat, EnqueueArgs.room, Pbuf.memcpy, tPbufTransport]

/-- What a successful allocation returns: the pbuf, and what it takes. -/
theorem enqueueAlloc_spec {p : Pbuf} {slots : UInt8}
    (h : enqueueAlloc a pool seglen ptr = (some (p, slots), pool')) :
    slots = a.slots ∧ EnqueuePbuf a pool seglen p pool' := by
  obtain ⟨hslots, hroom, lost, q, src, n, hlost, hpool, hn, rfl⟩ := enqueueAlloc_some h
  refine ⟨hslots, rfl, rfl, rfl, rfl, hroom, ⟨lost ++ [q], ?_, ?_⟩, fun hin hfit => ?_⟩
  · rw [List.length_append, List.length_singleton, hlost]
  · rw [hpool, List.append_assoc, List.singleton_append]
  · have hbase : Pbuf.InBounds { q with
        ref := 1
        payload := 54
        totLen := a.room seglen
        len := a.room seglen } := by
      rw [UInt16.toNat_add, tPbufTransport, show (54 : UInt16).toNat = 54 from rfl] at hroom
      refine ⟨rfl, ?_, hin q (by rw [hpool]; simp)⟩
      simp only [tPbufBufsize]
      omega
    exact hbase.memcpy src hn

/-- The pbuf of a segment comes from the free list, and another one is lost when data
goes through a pbuf of its own. -/
theorem enqueueAlloc_ids {p : Pbuf} {slots : UInt8}
    (h : enqueueAlloc a pool seglen ptr = (some (p, slots), pool')) :
    ∃ lost, lost.length + 1 = a.slots.toNat ∧
      pool.map Pbuf.id = lost ++ p.id :: pool'.map Pbuf.id := by
  obtain ⟨-, -, lost, q, src, n, hlost, hpool, -, rfl⟩ := enqueueAlloc_some h
  refine ⟨lost.map Pbuf.id, by rw [List.length_map, hlost], ?_⟩
  rw [hpool, List.map_append, List.map_cons]
  rfl

end

/-- A failing allocation gives back what it took. -/
theorem enqueueAlloc_none {a : EnqueueArgs} {pool pool' : List Pbuf} {seglen : UInt16} {ptr : Nat}
    (h : enqueueAlloc a pool seglen ptr = (none, pool')) :
    pool'.map Pbuf.id = pool.map Pbuf.id ∧ pool'.map Pbuf.wrEnd = pool.map Pbuf.wrEnd := by
  obtain ⟨arg, flags, copy, optdata, optlen⟩ := a
  unfold enqueueAlloc at h
  cases optdata with
  | some opt =>
      cases ha : tPbufAlloc pool tPbufTransport optlen.toUInt16 tPbufFlagPool with
      | mk r pool1 =>
      cases r with
      | some q => simp only [ha] at h; simp at h
      | none =>
          simp only [ha, Prod.mk.injEq, true_and] at h
          rw [← h, tPbufAlloc_eq_none ha]
          exact ⟨rfl, rfl⟩
  | none =>
      cases ha : tPbufAlloc pool tPbufTransport seglen tPbufFlagPool with
      | mk r pool1 =>
      cases r with
      | none =>
          obtain rfl := tPbufAlloc_eq_none ha
          simp only [ha, ite_self, Prod.mk.injEq, true_and] at h
          rw [← h]
          exact ⟨rfl, rfl⟩
      | some data =>
          obtain ⟨-, -, d, rfl, rfl⟩ := tPbufAlloc_eq_some ha
          cases copy with
          | true => cases arg <;> simp only [ha] at h <;> simp at h
          | false =>
              cases hb : tPbufAlloc pool1 tPbufTransport 0 tPbufFlagPool with
              | mk r pool2 =>
              cases r with
              | some q => simp only [ha, hb] at h; simp at h
              | none =>
                  obtain rfl := tPbufAlloc_eq_none hb
                  have hfree := tPbufFree_single pool2 (p := { d with
                    ref := 1
                    payload := tPbufTransport.toNat
                    totLen := seglen
                    len := seglen }) rfl
                  simp only [ha, hb, hfree, Bool.false_eq_true, if_false, Prod.mk.injEq,
                    true_and] at h
                  rw [← h]
                  exact ⟨rfl, rfl⟩

/-- There are enough pbufs for a segment that fits into one. -/
theorem enqueueAlloc_of_fits {a : EnqueueArgs} {pool : List Pbuf} {seglen : UInt16} (ptr : Nat)
    (hpool : a.slots.toNat ≤ pool.length) (hfit : (a.room seglen + tPbufTransport).toNat ≤ 1514) :
    ∃ p pool', enqueueAlloc a pool seglen ptr = (some (p, a.slots), pool') := by
  obtain ⟨arg, flags, copy, optdata, optlen⟩ := a
  have hslots := hpool
  simp only [EnqueueArgs.room] at hfit
  simp only [EnqueueArgs.slots] at hslots
  unfold enqueueAlloc
  cases pool with
  | nil => split at hslots <;> simp at hslots
  | cons d pool =>
      cases optdata with
      | some opt =>
          simp only [tPbufAlloc_pool _ _ _ hfit]
          exact ⟨_, _, rfl⟩
      | none =>
          cases copy with
          | true =>
              simp only [tPbufAlloc_pool _ _ _ hfit]
              cases arg <;> exact ⟨_, _, rfl⟩
          | false =>
              cases pool with
              | nil => simp at hslots
              | cons q pool =>
                  simp only [tPbufAlloc_pool _ _ _ hfit,
                    tPbufAlloc_pool _ tPbufTransport 0 (by decide)]
                  exact ⟨_, _, rfl⟩

/-- Up to 1460 bytes, the size check does not wrap. -/
theorem enqueueAlloc_succeeds {a : EnqueueArgs} {pool : List Pbuf} {seglen : UInt16} (ptr : Nat)
    (hpool : a.slots.toNat ≤ pool.length) (hroom : (a.room seglen).toNat ≤ 1460) :
    ∃ p pool', enqueueAlloc a pool seglen ptr = (some (p, a.slots), pool') := by
  refine enqueueAlloc_of_fits ptr hpool ?_
  rw [UInt16.toNat_add, tPbufTransport, show (54 : UInt16).toNat = 54 from rfl]
  omega

/-! ## the segment of a round -/

/-- The segment that a round builds around the pbuf `p`. -/
def enqueueSeg (pcb : TcpPcb) (a : EnqueueArgs) (id : SegId) (seqno : UInt32) (seglen : UInt16)
    (p : Pbuf) : TcpSeg :=
  let q := { p with payload := 34, totLen := p.totLen + 20, len := p.len + 20 }
  let q := tcphBuild q 34 pcb.localPort pcb.remotePort seqno a.flags.toUInt16
  let q := match a.optdata with
    | none => tTcphHdrlenSet q 34 5
    | some optdata => (tTcphHdrlenSet q 34 (5 + a.optlen.toUInt16 / 4)).memcpy 54 optdata
        a.optlen.toNat
  { id, p := q, len := seglen, tcphdr := 34 }

/-- What the control flags add to the length of a segment. -/
def ctlLen (flags : UInt8) : Nat :=
  if flags.toUInt16 &&& tcpFin ≠ 0 ∨ flags.toUInt16 &&& tcpSyn ≠ 0 then 1 else 0

section
variable (pcb : TcpPcb) (a : EnqueueArgs) (id : SegId) (seqno : UInt32) (seglen : UInt16) (p : Pbuf)

@[simp] theorem enqueueSeg_id : (enqueueSeg pcb a id seqno seglen p).id = id := rfl

@[simp] theorem enqueueSeg_len : (enqueueSeg pcb a id seqno seglen p).len = seglen := rfl

@[simp] theorem enqueueSeg_tcphdr : (enqueueSeg pcb a id seqno seglen p).tcphdr = 34 := rfl

/-- Building the header writes below the data, but for the options. -/
theorem enqueueSeg_writesOnly :
    Pbuf.WritesOnly { p with payload := 34, totLen := p.totLen + 20, len := p.len + 20 }
      (enqueueSeg pcb a id seqno seglen p).p 34 (54 + a.optlen.toNat) := by
  unfold enqueueSeg
  have hb := (tcphBuild_writesOnly { p with payload := 34, totLen := p.totLen + 20, len := p.len + 20 }
    34 pcb.localPort pcb.remotePort seqno a.flags.toUInt16).mono le_rfl
    (show 34 + 20 ≤ 54 + a.optlen.toNat by omega)
  cases a.optdata with
  | none => exact hb.trans ((tTcphHdrlenSet_writesOnly ..).mono (by omega) (by omega))
  | some optdata =>
      exact (hb.trans ((tTcphHdrlenSet_writesOnly ..).mono (by omega) (by omega))).trans
        ((Pbuf.WritesOnly.memcpy ..).mono (by omega) (by omega))

theorem enqueueSeg_word : (enqueueSeg pcb a id seqno seglen p).word =
    (((match a.optdata with
      | none => 5
      | some _ => 5 + a.optlen.toUInt16 / 4) : UInt16) <<< 12) ||| (a.flags.toUInt16 &&& tcpFlags) := by
  unfold enqueueSeg
  cases a.optdata with
  | none => exact tTcphWord_build_hdrlenSet ..
  | some optdata =>
      refine ((Pbuf.WritesOnly.memcpy ..).tTcphWord_eq (h := 34) (by omega)).trans ?_
      exact tTcphWord_build_hdrlenSet ..

/-- The header length does not reach into the flags. -/
theorem shiftLeft_and_tcpFlags (x f : UInt16) :
    ((x <<< 12) ||| (f &&& tcpFlags)) &&& tcpFlags = f &&& tcpFlags := by
  have hzero : (x <<< 12) &&& tcpFlags = 0 := by
    apply UInt16.toNat_inj.1
    rw [UInt16.toNat_and, tcpFlags, show (0x3f : UInt16).toNat = 2 ^ 6 - 1 from rfl,
      Nat.and_two_pow_sub_one_eq_mod, UInt16.toNat_shiftLeft,
      show (12 : UInt16).toNat % 16 = 12 from rfl, Nat.shiftLeft_eq]
    simp only [UInt16.toNat_zero]
    omega
  rw [or_and_mask, hzero, UInt16.zero_or, UInt16.and_assoc, UInt16.and_self]

theorem enqueueSeg_flags :
    (enqueueSeg pcb a id seqno seglen p).flags = a.flags.toUInt16 &&& tcpFlags := by
  rw [TcpSeg.flags_eq, enqueueSeg_word, shiftLeft_and_tcpFlags]

theorem enqueueSeg_tcplen :
    (enqueueSeg pcb a id seqno seglen p).tcplen = seglen.toNat + ctlLen a.flags := by
  have hfin : tcpFlags &&& tcpFin = tcpFin := by decide
  have hsyn : tcpFlags &&& tcpSyn = tcpSyn := by decide
  rw [TcpSeg.tcplen, enqueueSeg_flags, UInt16.and_assoc, UInt16.and_assoc, hfin, hsyn]
  rfl

variable {p}

/-- The header goes into the headroom, so the pbuf stays in bounds. -/
theorem enqueueSeg_inBounds (h : p.InBounds) (hp : p.payload = 54) :
    (enqueueSeg pcb a id seqno seglen p).p.InBounds := by
  have hw := enqueueSeg_writesOnly pcb a id seqno seglen p
  have hpay := h.payload_le
  have hwr := h.wrEnd_le
  rw [hp, tPbufBufsize] at hpay
  refine ⟨?_, ?_, ?_⟩
  · rw [hw.len, hw.totLen, h.len_eq]
  · rw [hw.payload, hw.len]
    simp only [UInt16.toNat_add, show (20 : UInt16).toNat = 20 from rfl, tPbufBufsize]
    omega
  · have hopt := a.optlen.toNat_lt
    simp only [tPbufBufsize] at hwr ⊢
    unfold enqueueSeg
    cases a.optdata with
    | none =>
        simp only [tTcphHdrlenSet, tcphBuild, tTcphFlagsSet, Pbuf.set16, Pbuf.set32]
        omega
    | some optdata =>
        simp only [tTcphHdrlenSet, tcphBuild, tTcphFlagsSet, Pbuf.set16, Pbuf.set32, Pbuf.memcpy]
        split <;> omega

end

/-! ## one round -/

/-- The data that a round takes: all that is left, but no more than `mss`. -/
def enqueueSeglen (mss : UInt16) (left : Nat) : UInt16 :=
  if mss.toNat < left then mss else UInt16.ofNat left

@[simp] theorem toNat_enqueueSeglen (mss : UInt16) (left : Nat) :
    (enqueueSeglen mss left).toNat = min mss.toNat left := by
  have := mss.toNat_lt
  unfold enqueueSeglen
  split
  · omega
  · rw [UInt16.toNat_ofNat']
    omega

section
variable {pcb : TcpPcb} {a : EnqueueArgs} {id : SegId} {st st' : EnqueueState}

/-- A round fails for want of a pbuf or of queue slots; there is always room
for the TCP header. -/
theorem tTcpEnqueueRound_cases (pcb : TcpPcb) (a : EnqueueArgs) (id : SegId) (st : EnqueueState) :
    (∃ pool, enqueueAlloc a st.pbufPool (enqueueSeglen pcb.mss st.left) st.ptr = (none, pool) ∧
      tTcpEnqueueRound pcb a id st = .error (pool, none)) ∨
    ∃ p pool, enqueueAlloc a st.pbufPool (enqueueSeglen pcb.mss st.left) st.ptr =
        (some (p, a.slots), pool) ∧
      tTcpEnqueueRound pcb a id st =
        if tTcpSndQueuelen < st.queuelen + a.slots then .error (pool, some p)
        else .ok {
          pbufPool := pool
          queue := st.queue ++ [enqueueSeg pcb a id st.seqno (enqueueSeglen pcb.mss st.left) p]
          left := st.left - (enqueueSeglen pcb.mss st.left).toNat
          seqno := st.seqno + (enqueueSeglen pcb.mss st.left).toUInt32
          ptr := st.ptr + (enqueueSeglen pcb.mss st.left).toNat
          queuelen := st.queuelen + a.slots
          seglen := enqueueSeglen pcb.mss st.left } := by
  have hseglen : (if pcb.mss.toNat < st.left then pcb.mss else UInt16.ofNat st.left) =
      enqueueSeglen pcb.mss st.left := rfl
  unfold tTcpEnqueueRound
  simp only [hseglen]
  cases ha : enqueueAlloc a st.pbufPool (enqueueSeglen pcb.mss st.left) st.ptr with
  | mk r pool =>
  cases r with
  | none => exact Or.inl ⟨pool, rfl, rfl⟩
  | some r =>
      obtain ⟨p, slots⟩ := r
      obtain ⟨rfl, hp⟩ := enqueueAlloc_spec ha
      have hpush := tPbufHeader_push p (n := 20) (by rw [hp.payload]; omega)
        (by rw [hp.payload]; omega)
      rw [hp.payload] at hpush
      refine Or.inr ⟨p, pool, rfl, ?_⟩
      simp only [tTcpHlen, hpush, ne_eq, not_true_eq_false, if_false]
      split
      · rfl
      · cases ho : a.optdata <;> simp only [enqueueSeg, ho, hp.payload] <;> rfl

/-- What a round does that succeeds. -/
theorem tTcpEnqueueRound_ok (h : tTcpEnqueueRound pcb a id st = .ok st') :
    ∃ p pool, EnqueuePbuf a st.pbufPool (enqueueSeglen pcb.mss st.left) p pool ∧
      st.queuelen + a.slots ≤ tTcpSndQueuelen ∧ st' = {
        pbufPool := pool
        queue := st.queue ++ [enqueueSeg pcb a id st.seqno (enqueueSeglen pcb.mss st.left) p]
        left := st.left - (enqueueSeglen pcb.mss st.left).toNat
        seqno := st.seqno + (enqueueSeglen pcb.mss st.left).toUInt32
        ptr := st.ptr + (enqueueSeglen pcb.mss st.left).toNat
        queuelen := st.queuelen + a.slots
        seglen := enqueueSeglen pcb.mss st.left } := by
  rcases tTcpEnqueueRound_cases pcb a id st with ⟨pool, -, hr⟩ | ⟨p, pool, ha, hr⟩
  · rw [hr] at h
    cases h
  · rw [hr] at h
    split at h
    · cases h
    · next hle =>
      exact ⟨p, pool, (enqueueAlloc_spec ha).2, UInt8.not_lt.mp hle, (Except.ok.inj h).symm⟩

/-- A failing round leaves no pbuf written beyond its end. -/
theorem tTcpEnqueueRound_error {pool : List Pbuf} {p : Option Pbuf}
    (h : tTcpEnqueueRound pcb a id st = .error (pool, p))
    (hpool : ∀ q ∈ st.pbufPool, q.wrEnd ≤ tPbufBufsize) (hmss : pcb.mss.toNat + 54 < 65536) :
    (∀ q ∈ pool, q.wrEnd ≤ tPbufBufsize) ∧ ∀ q ∈ p, q.wrEnd ≤ tPbufBufsize := by
  rcases tTcpEnqueueRound_cases pcb a id st with ⟨pool', ha, hr⟩ | ⟨p', pool', ha, hr⟩
  · rw [hr] at h
    obtain ⟨rfl, rfl⟩ := Prod.mk.inj (Except.error.inj h)
    refine ⟨fun q hq => ?_, by simp⟩
    have hmem := List.mem_map_of_mem (f := Pbuf.wrEnd) hq
    rw [(enqueueAlloc_none ha).2] at hmem
    obtain ⟨q', hq', hwr⟩ := List.mem_map.mp hmem
    exact hwr ▸ hpool q' hq'
  · rw [hr] at h
    split at h
    · obtain ⟨rfl, rfl⟩ := Prod.mk.inj (Except.error.inj h)
      obtain ⟨-, hp⟩ := enqueueAlloc_spec ha
      obtain ⟨taken, -, htaken⟩ := hp.taken
      have hroom := a.toNat_room_le (enqueueSeglen pcb.mss st.left) (n := 65481) (by omega)
        (by rw [toNat_enqueueSeglen]; omega)
      have hin := hp.inBounds hpool (by omega)
      refine ⟨fun q hq => hpool q (by rw [htaken]; simp [hq]), fun q hq => ?_⟩
      obtain rfl := Option.mem_some.mp hq
      exact hin.wrEnd_le
    · cases h

/-- A round with a pbuf for each slot, and slots left, succeeds. -/
theorem tTcpEnqueueRound_succeeds (pcb : TcpPcb) (a : EnqueueArgs) (id : SegId)
    (st : EnqueueState) (hmss : pcb.mss.toNat ≤ 1460)
    (hpool : a.slots.toNat ≤ st.pbufPool.length)
    (hslots : st.queuelen.toNat + a.slots.toNat ≤ 40) :
    ∃ st', tTcpEnqueueRound pcb a id st = .ok st' := by
  have hroom := a.toNat_room_le (enqueueSeglen pcb.mss st.left) (n := 1460) (by omega)
    (by rw [toNat_enqueueSeglen]; omega)
  obtain ⟨p, pool, ha⟩ := enqueueAlloc_succeeds (a := a) st.ptr hpool hroom
  have hlt : ¬ tTcpSndQueuelen < st.queuelen + a.slots := by
    rw [UInt8.lt_iff_toNat_lt, UInt8.toNat_add, tTcpSndQueuelen,
      show (40 : UInt8).toNat = 40 from rfl]
    omega
  rcases tTcpEnqueueRound_cases pcb a id st with ⟨pool', ha', -⟩ | ⟨p', pool', ha', hr⟩
  · rw [ha] at ha'
    cases ha'
  · rw [hr, if_neg hlt]
    exact ⟨_, rfl⟩

/-! ## the loop -/

variable {I : EnqueueState → List SegId → Prop}

/-- The loop is left with something queued and nothing left, in a state that
satisfies every invariant of its rounds. -/
theorem tTcpEnqueueLoop_ok
    (hround : ∀ st st' id segPool, ¬ (st.queue ≠ [] ∧ st.left = 0) → I st (id :: segPool) →
      tTcpEnqueueRound pcb a id st = .ok st' → I st' segPool)
    {segPool segPool' : List SegId} (hi : I st segPool)
    (h : tTcpEnqueueLoop pcb a st segPool = .ok (segPool', st')) :
    I st' segPool' ∧ st'.queue ≠ [] ∧ st'.left = 0 := by
  induction segPool generalizing st with
  | nil =>
      rw [tTcpEnqueueLoop] at h
      split at h
      · next hdone =>
        obtain ⟨rfl, rfl⟩ := Prod.mk.inj (Except.ok.inj h)
        exact ⟨hi, hdone⟩
      · cases h
  | cons id segPool ih =>
      rw [tTcpEnqueueLoop] at h
      split at h
      · next hdone =>
        obtain ⟨rfl, rfl⟩ := Prod.mk.inj (Except.ok.inj h)
        exact ⟨hi, hdone⟩
      · next hdone =>
        cases hr : tTcpEnqueueRound pcb a id st with
        | error e => simp only [hr] at h; cases h
        | ok st1 =>
            simp only [hr] at h
            exact ih (hround st st1 id segPool hdone hi hr) h

/-- The loop fails in a state that satisfies every invariant of its rounds:
for want of a segment block, or in a round.  Then everything queued goes
back. -/
theorem tTcpEnqueueLoop_error
    (hround : ∀ st st' id segPool, ¬ (st.queue ≠ [] ∧ st.left = 0) → I st (id :: segPool) →
      tTcpEnqueueRound pcb a id st = .ok st' → I st' segPool)
    {segPool : List SegId} {pools : Pools} (hi : I st segPool)
    (h : tTcpEnqueueLoop pcb a st segPool = .error pools) :
    (∃ st', I st' [] ∧
      pools = (tTcpSegsFree ⟨st'.pbufPool, []⟩ (st'.queue.map TcpSeg.block)).2) ∨
    ∃ st' id segPool' pool p, I st' (id :: segPool') ∧
      tTcpEnqueueRound pcb a id st' = .error (pool, p) ∧
      pools = (tTcpSegsFree ⟨pool, segPool'⟩ (st'.queue.map TcpSeg.block ++ [(id, p)])).2 := by
  induction segPool generalizing st with
  | nil =>
      rw [tTcpEnqueueLoop] at h
      split at h
      · cases h
      · exact Or.inl ⟨st, hi, (Except.error.inj h).symm⟩
  | cons id segPool ih =>
      rw [tTcpEnqueueLoop] at h
      split at h
      · cases h
      · next hdone =>
        cases hr : tTcpEnqueueRound pcb a id st with
        | error e =>
            simp only [hr] at h
            exact Or.inr ⟨st, id, segPool, e.1, e.2, hi, hr, (Except.error.inj h).symm⟩
        | ok st1 =>
            simp only [hr] at h
            exact ih (hround st st1 id segPool hdone hi hr) h

end

/-! ## giving back a batch -/

/-- Freeing a pbuf leaves nothing new on the free list but the pbuf. -/
theorem wrEnd_of_mem_tPbufFree {pool : List Pbuf} {p : Pbuf} {n : Nat}
    (hpool : ∀ q ∈ pool, q.wrEnd ≤ n) (hp : p.wrEnd ≤ n) :
    ∀ q ∈ (tPbufFree pool [p]).2, q.wrEnd ≤ n := by
  intro q hq
  simp only [tPbufFree, tPbufFreeLoop] at hq
  split at hq
  · exact (List.mem_cons.mp hq).elim (fun h => by rw [h]; exact hp) (hpool q)
  · exact hpool q hq

theorem tTcpSegsFree_segPool (pools : Pools) (segs : List (SegId × Option Pbuf)) :
    (tTcpSegsFree pools segs).2.segPool = (segs.map Prod.fst).reverse ++ pools.segPool := by
  induction segs generalizing pools with
  | nil => rfl
  | cons seg segs ih =>
      obtain ⟨id, _ | p⟩ := seg <;> simp [tTcpSegsFree, tTcpSegFree, ih]

theorem wrEnd_of_mem_tTcpSegsFree {pools : Pools} {segs : List (SegId × Option Pbuf)} {n : Nat}
    (hpool : ∀ q ∈ pools.pbufPool, q.wrEnd ≤ n) (hsegs : ∀ seg ∈ segs, ∀ p ∈ seg.2, p.wrEnd ≤ n) :
    ∀ q ∈ (tTcpSegsFree pools segs).2.pbufPool, q.wrEnd ≤ n := by
  induction segs generalizing pools with
  | nil => exact hpool
  | cons seg segs ih =>
      have hrest := fun s hs => hsegs s (List.mem_cons_of_mem seg hs)
      obtain ⟨id, _ | p⟩ := seg
      · exact ih hpool hrest
      · exact ih (wrEnd_of_mem_tPbufFree hpool (hsegs _ List.mem_cons_self p rfl)) hrest

/-! ## a whole call -/

/-- The state in which the loop begins. -/
def EnqueueState.start (pools : Pools) (pcb : TcpPcb) (len : UInt16) : EnqueueState where
  pbufPool := pools.pbufPool
  queue := []
  left := len.toNat
  seqno := pcb.sndLbb
  ptr := 0
  queuelen := pcb.sndQueuelen
  seglen := 0

section
variable {pools : Pools} {pcb : TcpPcb} {a : EnqueueArgs} {len : UInt16} {r : ErrT × Pools × TcpPcb}

/-- The loop of a call that passes the two tests fails. -/
theorem tTcpEnqueue_of_error {pools' : Pools} (hbuf : ¬ pcb.sndBuf < len)
    (hfull : ¬ tTcpSndQueuelen ≤ pcb.sndQueuelen)
    (hloop : tTcpEnqueueLoop pcb a (.start pools pcb len) pools.segPool = .error pools') :
    tTcpEnqueue pools pcb a.arg len a.flags a.copy a.optdata a.optlen = (-1, pools', pcb) := by
  rw [EnqueueState.start] at hloop
  rw [tTcpEnqueue, if_neg hbuf, if_neg hfull]
  simp only [hloop]

/-- It ends, and what it built is linked to the unsent queue. -/
theorem tTcpEnqueue_of_ok {segPool : List SegId} {st : EnqueueState} (hbuf : ¬ pcb.sndBuf < len)
    (hfull : ¬ tTcpSndQueuelen ≤ pcb.sndQueuelen)
    (hloop : tTcpEnqueueLoop pcb a (.start pools pcb len) pools.segPool = .ok (segPool, st)) :
    tTcpEnqueue pools pcb a.arg len a.flags a.copy a.optdata a.optlen =
      (0, ⟨st.pbufPool, (enqueueLink pcb.mss a.flags pcb.unsent st.queue segPool).2.1⟩, { pcb with
        unsent :=
          if (enqueueLink pcb.mss a.flags pcb.unsent st.queue segPool).2.2 ∧ 0 < st.seglen then
            (enqueueLink pcb.mss a.flags pcb.unsent st.queue segPool).1.modifyLast
              (TcpSeg.setFlag · tcpPsh)
          else (enqueueLink pcb.mss a.flags pcb.unsent st.queue segPool).1
        sndLbb := pcb.sndLbb + (len + UInt16.ofNat (ctlLen a.flags)).toUInt32
        sndBuf := pcb.sndBuf - (len + UInt16.ofNat (ctlLen a.flags))
        sndQueuelen := st.queuelen }) := by
  have hctl : (if a.flags.toUInt16 &&& tcpSyn ≠ 0 ∨ a.flags.toUInt16 &&& tcpFin ≠ 0 then len + 1
      else len) = len + UInt16.ofNat (ctlLen a.flags) := by
    unfold ctlLen
    by_cases hc : a.flags.toUInt16 &&& tcpFin ≠ 0 ∨ a.flags.toUInt16 &&& tcpSyn ≠ 0
    · rw [if_pos hc, if_pos hc.symm]
      rfl
    · rw [if_neg hc, if_neg (mt Or.symm hc)]
      exact (UInt16.add_zero len).symm
  rw [EnqueueState.start] at hloop
  rw [tTcpEnqueue, if_neg hbuf, if_neg hfull]
  simp only [hloop, hctl]

/-- A call fails before the loop or in it, and either way leaves the control
block alone. -/
theorem tTcpEnqueue_of_ne_zero
    (hr : tTcpEnqueue pools pcb a.arg len a.flags a.copy a.optdata a.optlen = r) (h : r.1 ≠ 0) :
    r.2.2 = pcb ∧ (r.2.1 = pools ∨
      tTcpEnqueueLoop pcb a (.start pools pcb len) pools.segPool = .error r.2.1) := by
  by_cases hbuf : pcb.sndBuf < len
  · rw [tTcpEnqueue, if_pos hbuf] at hr
    rw [← hr]
    exact ⟨rfl, Or.inl rfl⟩
  by_cases hfull : tTcpSndQueuelen ≤ pcb.sndQueuelen
  · rw [tTcpEnqueue, if_neg hbuf, if_pos hfull] at hr
    rw [← hr]
    exact ⟨rfl, Or.inl rfl⟩
  cases hloop : tTcpEnqueueLoop pcb a (.start pools pcb len) pools.segPool with
  | error pools' =>
      rw [tTcpEnqueue_of_error hbuf hfull hloop] at hr
      rw [← hr]
      exact ⟨rfl, Or.inr rfl⟩
  | ok r' =>
      rw [tTcpEnqueue_of_ok hbuf hfull hloop] at hr
      rw [← hr] at h
      exact absurd rfl h

/-- A call that succeeds has passed the two tests, gone through the loop and
linked what it built. -/
theorem tTcpEnqueue_of_eq_zero
    (hr : tTcpEnqueue pools pcb a.arg len a.flags a.copy a.optdata a.optlen = r) (h : r.1 = 0) :
    len ≤ pcb.sndBuf ∧ pcb.sndQueuelen < tTcpSndQueuelen ∧ ∃ segPool st,
      tTcpEnqueueLoop pcb a (.start pools pcb len) pools.segPool = .ok (segPool, st) ∧
      r.2.1.pbufPool = st.pbufPool ∧
      r.2.1.segPool = (enqueueLink pcb.mss a.flags pcb.unsent st.queue segPool).2.1 ∧
      r.2.2 = { pcb with
        unsent :=
          if (enqueueLink pcb.mss a.flags pcb.unsent st.queue segPool).2.2 ∧ 0 < st.seglen then
            (enqueueLink pcb.mss a.flags pcb.unsent st.queue segPool).1.modifyLast
              (TcpSeg.setFlag · tcpPsh)
          else (enqueueLink pcb.mss a.flags pcb.unsent st.queue segPool).1
        sndLbb := pcb.sndLbb + (len + UInt16.ofNat (ctlLen a.flags)).toUInt32
        sndBuf := pcb.sndBuf - (len + UInt16.ofNat (ctlLen a.flags))
        sndQueuelen := st.queuelen } := by
  have hfail : (-1 : ErrT) ≠ 0 := by decide
  by_cases hbuf : pcb.sndBuf < len
  · rw [tTcpEnqueue, if_pos hbuf] at hr
    rw [← hr] at h
    exact absurd h hfail
  by_cases hfull : tTcpSndQueuelen ≤ pcb.sndQueuelen
  · rw [tTcpEnqueue, if_neg hbuf, if_pos hfull] at hr
    rw [← hr] at h
    exact absurd h hfail
  cases hloop : tTcpEnqueueLoop pcb a (.start pools pcb len) pools.segPool with
  | error pools' =>
      rw [tTcpEnqueue_of_error hbuf hfull hloop] at hr
      rw [← hr] at h
      exact absurd h hfail
  | ok r' =>
      rw [tTcpEnqueue_of_ok hbuf hfull hloop] at hr
      rw [← hr]
      exact ⟨UInt16.not_lt.mp hbuf, UInt8.not_le.mp hfull, r'.1, r'.2, rfl, rfl, rfl, rfl⟩

/-- Either way the call does not change the `mss`. -/
theorem tTcpEnqueue_mss
    (hr : tTcpEnqueue pools pcb a.arg len a.flags a.copy a.optdata a.optlen = r) :
    r.2.2.mss = pcb.mss := by
  by_cases h : r.1 = 0
  · obtain ⟨-, -, segPool, st, -, -, -, hpcb⟩ := tTcpEnqueue_of_eq_zero hr h
    rw [hpcb]
  · rw [(tTcpEnqueue_of_ne_zero hr h).1]

/-- Queueing changes neither the state nor the unacked queue. -/
theorem tTcpEnqueue_kept
    (hr : tTcpEnqueue pools pcb a.arg len a.flags a.copy a.optdata a.optlen = r) :
    r.2.2.state = pcb.state ∧ r.2.2.unacked = pcb.unacked := by
  by_cases h : r.1 = 0
  · obtain ⟨-, -, segPool, st, -, -, -, hpcb⟩ := tTcpEnqueue_of_eq_zero hr h
    rw [hpcb]
    exact ⟨rfl, rfl⟩
  · rw [(tTcpEnqueue_of_ne_zero hr h).1]
    exact ⟨rfl, rfl⟩

/-! ## failing calls -/

/-- A block that a round takes goes into the queue under construction. -/
theorem tTcpEnqueueRound_perm {id : SegId} {st st' : EnqueueState} {segPool blocks : List SegId}
    (hr : tTcpEnqueueRound pcb a id st = .ok st')
    (hi : (st.queue.map TcpSeg.id ++ id :: segPool).Perm blocks) :
    (st'.queue.map TcpSeg.id ++ segPool).Perm blocks := by
  obtain ⟨p, pool, -, -, rfl⟩ := tTcpEnqueueRound_ok hr
  simpa using hi

/-- No byte behind a buffer is written, in the free pbufs and in those of the
queue under construction. -/
structure EnqueueState.InBounds (st : EnqueueState) : Prop where
  pool : ∀ q ∈ st.pbufPool, q.wrEnd ≤ tPbufBufsize
  queue : ∀ seg ∈ st.queue, seg.p.InBounds

theorem EnqueueState.InBounds.round {id : SegId} {st st' : EnqueueState} (hi : st.InBounds)
    (hmss : pcb.mss.toNat + 54 < 65536) (hr : tTcpEnqueueRound pcb a id st = .ok st') :
    st'.InBounds := by
  obtain ⟨p, pool, hp, -, rfl⟩ := tTcpEnqueueRound_ok hr
  obtain ⟨taken, -, htaken⟩ := hp.taken
  have hroom := a.toNat_room_le (enqueueSeglen pcb.mss st.left) (n := 65481) (by omega)
    (by rw [toNat_enqueueSeglen]; omega)
  refine ⟨fun q hq => hi.pool q (by rw [htaken]; simp [hq]), fun seg hs => ?_⟩
  rcases List.mem_append.mp hs with hs | hs
  · exact hi.queue seg hs
  · rw [List.mem_singleton.mp hs]
    exact enqueueSeg_inBounds _ _ _ _ _ (hp.inBounds hi.pool (by omega)) hp.payload

theorem tTcpEnqueueLoop_error_segPool {pools' : Pools}
    (h : tTcpEnqueueLoop pcb a (.start pools pcb len) pools.segPool = .error pools') :
    pools'.segPool.Perm pools.segPool := by
  have hcases := tTcpEnqueueLoop_error
    (I := fun st segPool => (st.queue.map TcpSeg.id ++ segPool).Perm pools.segPool)
    (fun _ _ _ _ _ hi hr => tTcpEnqueueRound_perm hr hi) (List.Perm.refl _) h
  have hblocks : ∀ queue : List TcpSeg, (queue.map TcpSeg.block).map Prod.fst =
      queue.map TcpSeg.id := fun queue => by simp [TcpSeg.block]
  rcases hcases with ⟨st, hi, rfl⟩ | ⟨st, id, segPool, pool, p, hi, -, rfl⟩
  · rw [tTcpSegsFree_segPool, hblocks]
    exact ((List.reverse_perm _).append_right _).trans hi
  · rw [tTcpSegsFree_segPool, List.map_append, hblocks]
    refine ((List.reverse_perm _).append_right _).trans ?_
    simpa using hi

theorem tTcpEnqueueLoop_error_pbufPool {pools' : Pools} (hmss : pcb.mss.toNat + 54 < 65536)
    (hpool : ∀ q ∈ pools.pbufPool, q.wrEnd ≤ tPbufBufsize)
    (h : tTcpEnqueueLoop pcb a (.start pools pcb len) pools.segPool = .error pools') :
    ∀ q ∈ pools'.pbufPool, q.wrEnd ≤ tPbufBufsize := by
  have hcases := tTcpEnqueueLoop_error (I := fun st _ => st.InBounds)
    (fun _ _ _ _ _ hi hr => hi.round hmss hr) ⟨hpool, by simp [EnqueueState.start]⟩ h
  have hblocks : ∀ st : EnqueueState, st.InBounds → ∀ seg ∈ st.queue.map TcpSeg.block,
      ∀ p ∈ seg.2, p.wrEnd ≤ tPbufBufsize := fun st hi seg hs p hp => by
    obtain ⟨seg, hseg, rfl⟩ := List.mem_map.mp hs
    obtain rfl := Option.mem_some.mp hp
    exact (hi.queue seg hseg).wrEnd_le
  rcases hcases with ⟨st, hi, rfl⟩ | ⟨st, id, segPool, pool, p, hi, hr, rfl⟩
  · exact wrEnd_of_mem_tTcpSegsFree hi.pool (hblocks st hi)
  · obtain ⟨hpool', hp⟩ := tTcpEnqueueRound_error hr hi.pool hmss
    refine wrEnd_of_mem_tTcpSegsFree hpool' fun seg hs => ?_
    rcases List.mem_append.mp hs with hs | hs
    · exact hblocks st hi seg hs
    · rw [List.mem_singleton.mp hs]
      exact hp

end

/-- **Atomicity**: a call of `t_tcp_enqueue` that fails leaves the control
block as it was, its queues with every byte of their segments included, and
all segment blocks are back on the free list.  As long as the size of an
allocation does not wrap, it has not written behind any buffer either. -/
theorem enqueue_atomic (pools : Pools) (pcb : TcpPcb) (arg : Option ByteMem) (len : UInt16)
    (flags : UInt8) (copy : Bool) (optdata : Option ByteMem) (optlen : UInt8)
    (h : (tTcpEnqueue pools pcb arg len flags copy optdata optlen).1 ≠ 0) :
    let r := tTcpEnqueue pools pcb arg len flags copy optdata optlen
    r.2.2 = pcb ∧ r.2.1.segPool.Perm pools.segPool ∧
      (pcb.mss.toNat + 54 < 65536 → (∀ q ∈ pools.pbufPool, q.wrEnd ≤ tPbufBufsize) →
        ∀ q ∈ r.2.1.pbufPool, q.wrEnd ≤ tPbufBufsize) := by
  intro r
  obtain ⟨hpcb, hpools⟩ := tTcpEnqueue_of_ne_zero (a := ⟨arg, flags, copy, optdata, optlen⟩) rfl h
  refine ⟨hpcb, ?_, fun hmss hpool => ?_⟩
  · rcases hpools with hsame | hloop
    · rw [show r.2.1 = pools from hsame]
    · exact tTcpEnqueueLoop_error_segPool hloop
  · rcases hpools with hsame | hloop
    · rwa [show r.2.1 = pools from hsame]
    · exact tTcpEnqueueLoop_error_pbufPool hmss hpool hloop

/-- A batch of two segments with one block left: the first is built and given
back. -/
theorem enqueue_atomic_two_segments :
    let pools : Pools := ⟨tPbufInit fun _ _ => 0, [0]⟩
    let pcb : TcpPcb := { TcpPcb.zero with mss := 1, sndBuf := 2 }
    let r := tTcpEnqueue pools pcb (some fun _ => 7) 2 0 true none 0
    r.1 = -1 ∧ r.2.2 = pcb ∧ r.2.1.segPool.Perm [0] :=
  have h : (tTcpEnqueue ⟨tPbufInit fun _ _ => 0, [0]⟩ { TcpPcb.zero with mss := 1, sndBuf := 2 }
      (some fun _ => 7) 2 0 true none 0).1 = -1 := by decide +kernel
  have hatomic := enqueue_atomic ⟨tPbufInit fun _ _ => 0, [0]⟩
    { TcpPcb.zero with mss := 1, sndBuf := 2 } (some fun _ => 7) 2 0 true none 0 (by rw [h]; decide)
  ⟨h, hatomic.1, hatomic.2.1⟩

/-! ## how many rounds -/

/-- One round less is needed after a round. -/
theorem ceilDiv_sub_min {m n : Nat} (hm : 0 < m) (hn : 0 < n) :
    (n - min m n) ⌈/⌉ m + 1 = n ⌈/⌉ m := by
  simp only [Nat.ceilDiv_eq_add_pred_div]
  by_cases hle : n ≤ m
  · rw [min_eq_right hle, Nat.sub_self, Nat.zero_add, Nat.div_eq_of_lt (by omega)]
    exact (Nat.div_eq_of_lt_le (by omega) (by omega)).symm
  · rw [min_eq_left (by omega), ← Nat.add_div_right _ hm]
    congr 1
    omega

section
variable {pools : Pools} {pcb : TcpPcb} {a : EnqueueArgs} {len : UInt16} {r : ErrT × Pools × TcpPcb}

/-- What holds at the head of the loop of a call with `n` bytes. -/
structure BatchInv (pcb : TcpPcb) (a : EnqueueArgs) (n : Nat) (st : EnqueueState) : Prop where
  left : (st.queue.map fun seg => seg.len.toNat).sum + st.left = n
  tcplen : ∀ seg ∈ st.queue, seg.tcplen = seg.len.toNat + ctlLen a.flags
  /-- Rounds done and rounds to come. -/
  count : 0 < n → st.queue.length + st.left ⌈/⌉ pcb.mss.toNat = n ⌈/⌉ pcb.mss.toNat
  empty : st.queue = [] → st.left = n
  one : n = 0 → st.queue.length ≤ 1

theorem batchInv_start (pools : Pools) (pcb : TcpPcb) (a : EnqueueArgs) (len : UInt16) :
    BatchInv pcb a len.toNat (.start pools pcb len) where
  left := Nat.zero_add _
  tcplen := by simp [EnqueueState.start]
  count _ := Nat.zero_add _
  empty _ := rfl
  one _ := Nat.zero_le _

theorem BatchInv.round {n : Nat} {id : SegId} {st st' : EnqueueState} (hi : BatchInv pcb a n st)
    (hst : ¬ (st.queue ≠ [] ∧ st.left = 0)) (hmss : 0 < n → 0 < pcb.mss.toNat)
    (hr : tTcpEnqueueRound pcb a id st = .ok st') : BatchInv pcb a n st' := by
  obtain ⟨p, pool, -, -, rfl⟩ := tTcpEnqueueRound_ok hr
  have hleft := hi.left
  refine ⟨?_, fun seg hs => ?_, fun hn => ?_, by simp, fun hn => ?_⟩
  · simp only [List.map_append, List.sum_append, List.map_singleton, List.sum_singleton,
      enqueueSeg_len, toNat_enqueueSeglen]
    omega
  · rcases List.mem_append.mp hs with hs | hs
    · exact hi.tcplen seg hs
    · rw [List.mem_singleton.mp hs, enqueueSeg_tcplen, enqueueSeg_len]
  · have hpos : 0 < st.left := by
      by_contra hzero
      have hne : st.queue ≠ [] := fun hnil => by
        have := hi.empty hnil
        omega
      exact hst ⟨hne, by omega⟩
    have hcount := hi.count hn
    rw [← ceilDiv_sub_min (hmss hn) hpos] at hcount
    simp only [toNat_enqueueSeglen, List.length_append, List.length_singleton]
    omega
  · -- without data there is one round
    have hnil : st.queue = [] := by
      by_contra hne
      exact hst ⟨hne, by omega⟩
    simp [hnil]

/-- Without an `mss` no round takes any data, so the loop is never left. -/
theorem tTcpEnqueueLoop_mss_pos {segPool : List SegId} {st : EnqueueState}
    (h : tTcpEnqueueLoop pcb a (.start pools pcb len) pools.segPool = .ok (segPool, st))
    (hlen : 0 < len.toNat) : 0 < pcb.mss.toNat := by
  by_contra hzero
  obtain ⟨hleft, -, hdone⟩ := tTcpEnqueueLoop_ok (I := fun st _ => st.left = len.toNat)
    (fun st st' id segPool _ hi hr => by
      obtain ⟨p, pool, -, -, rfl⟩ := tTcpEnqueueRound_ok hr
      simp only [toNat_enqueueSeglen]
      omega) rfl h
  omega

/-- The sequence space of a queue. -/
def tcplens (q : List TcpSeg) : Nat := (q.map TcpSeg.tcplen).sum

@[simp] theorem tcplens_append (q q' : List TcpSeg) : tcplens (q ++ q') = tcplens q + tcplens q' := by
  simp [tcplens]

@[simp] theorem tcplens_cons (seg : TcpSeg) (q : List TcpSeg) :
    tcplens (seg :: q) = seg.tcplen + tcplens q := by
  simp [tcplens]

@[simp] theorem tcplens_nil : tcplens [] = 0 := rfl

/-- The batch that the loop builds: its data, its length in the sequence
space, and its number of segments. -/
theorem tTcpEnqueueLoop_batch {segPool : List SegId} {st : EnqueueState}
    (h : tTcpEnqueueLoop pcb a (.start pools pcb len) pools.segPool = .ok (segPool, st)) :
    tcplens st.queue = len.toNat + st.queue.length * ctlLen a.flags ∧
      st.queue.length = if len.toNat = 0 then 1 else len.toNat ⌈/⌉ pcb.mss.toNat := by
  obtain ⟨hi, hne, hleft⟩ := tTcpEnqueueLoop_ok (I := fun st _ => BatchInv pcb a len.toNat st)
    (fun _ _ _ _ hst hi hr => hi.round hst (tTcpEnqueueLoop_mss_pos h) hr)
    (batchInv_start pools pcb a len) h
  constructor
  · have hsum := hi.left
    rw [hleft, Nat.add_zero] at hsum
    have hmap : st.queue.map TcpSeg.tcplen =
        st.queue.map fun seg => seg.len.toNat + ctlLen a.flags :=
      List.map_congr_left hi.tcplen
    rw [tcplens, hmap, List.sum_map_add, hsum, List.map_const', List.sum_replicate, smul_eq_mul]
  · have hpos := List.length_pos_of_ne_nil hne
    split
    · next hzero =>
      have := hi.one hzero
      omega
    · next hzero =>
      have hcount := hi.count (by omega)
      rwa [hleft, zero_ceilDiv, Nat.add_zero] at hcount

/-- With an `mss` that fits a buffer, and blocks, pbufs and queue slots for
each round to come, the loop goes through all of them. -/
theorem tTcpEnqueueLoop_succeeds (segPool : List SegId) (st : EnqueueState)
    (hmss : 0 < pcb.mss.toNat) (hmss' : pcb.mss.toNat ≤ 1460) (hst : st.left = 0 → st.queue ≠ [])
    (hseg : st.left ⌈/⌉ pcb.mss.toNat ≤ segPool.length)
    (hpbuf : st.left ⌈/⌉ pcb.mss.toNat * a.slots.toNat ≤ st.pbufPool.length)
    (hslots : st.queuelen.toNat + st.left ⌈/⌉ pcb.mss.toNat * a.slots.toNat ≤ 40) :
    ∃ segPool' st', tTcpEnqueueLoop pcb a st segPool = .ok (segPool', st') := by
  induction segPool generalizing st with
  | nil =>
      have hleft : st.left = 0 := by
        by_contra hne
        have := ceilDiv_sub_min hmss (Nat.pos_of_ne_zero hne)
        rw [List.length_nil] at hseg
        omega
      exact ⟨[], st, by rw [tTcpEnqueueLoop, if_pos ⟨hst hleft, hleft⟩]⟩
  | cons id segPool ih =>
      rw [tTcpEnqueueLoop]
      split
      · exact ⟨_, _, rfl⟩
      · next hdone =>
        have hleft : 0 < st.left := by
          by_contra hzero
          exact hdone ⟨hst (by omega), by omega⟩
        rw [← ceilDiv_sub_min hmss hleft] at hseg hpbuf hslots
        rw [Nat.add_mul, Nat.one_mul] at hpbuf hslots
        obtain ⟨st', hr⟩ := tTcpEnqueueRound_succeeds pcb a id st hmss' (by omega) (by omega)
        obtain ⟨p, pool, hp, -, hst'⟩ := tTcpEnqueueRound_ok hr
        obtain ⟨taken, htaken, hpool⟩ := hp.taken
        rw [hpool, List.length_append, htaken] at hpbuf
        simp only [hr]
        subst hst'
        apply ih
        · simp
        · simp only [toNat_enqueueSeglen]
          simpa using hseg
        · simp only [toNat_enqueueSeglen]
          omega
        · simp only [toNat_enqueueSeglen, UInt8.toNat_add]
          omega

/-- What a call with data needs of the pools and the queue. -/
structure EnqueueRoom (pools : Pools) (pcb : TcpPcb) (a : EnqueueArgs) (len : UInt16) : Prop where
  buf : len ≤ pcb.sndBuf
  segs : len.toNat ⌈/⌉ pcb.mss.toNat ≤ pools.segPool.length
  pbufs : len.toNat ⌈/⌉ pcb.mss.toNat * a.slots.toNat ≤ pools.pbufPool.length
  slots : pcb.sndQueuelen.toNat + len.toNat ⌈/⌉ pcb.mss.toNat * a.slots.toNat ≤ 40

/-! ## sequence space -/

/-- The segments that a call builds, before they are linked to the unsent
queue. -/
def enqueueBatch (pools : Pools) (pcb : TcpPcb) (a : EnqueueArgs) (len : UInt16) : List TcpSeg :=
  match tTcpEnqueueLoop pcb a (.start pools pcb len) pools.segPool with
  | .ok (_, st) => st.queue
  | .error _ => []

/-- A call that queues `batch` and leads from `pcb` to `pcb'` consumes `n` of
the send buffer and of the sequence space. -/
structure Consumes (pcb pcb' : TcpPcb) (batch : List TcpSeg) (n : Nat) : Prop where
  admitted : n ≤ pcb.sndBuf.toNat
  sndBuf : pcb'.sndBuf.toNat = pcb.sndBuf.toNat - n
  sndLbb : pcb'.sndLbb = pcb.sndLbb + UInt32.ofNat n
  tcplen : tcplens batch = n

/-- A call that succeeds consumes its data and control flag exactly when the
flag leaves room in the buffer and the data goes out in one segment. -/
theorem tTcpEnqueue_consumes_iff
    (hr : tTcpEnqueue pools pcb a.arg len a.flags a.copy a.optdata a.optlen = r) (h : r.1 = 0) :
    Consumes pcb r.2.2 (enqueueBatch pools pcb a len) (len.toNat + ctlLen a.flags) ↔
      ctlLen a.flags = 0 ∨ len < pcb.sndBuf ∧ len ≤ pcb.mss := by
  obtain ⟨hbuf, -, segPool, st, hloop, -, -, hpcb⟩ := tTcpEnqueue_of_eq_zero hr h
  obtain ⟨hsum, hcount⟩ := tTcpEnqueueLoop_batch hloop
  have hmss := tTcpEnqueueLoop_mss_pos hloop
  have hbatch : enqueueBatch pools pcb a len = st.queue := by rw [enqueueBatch, hloop]
  have hctl : ctlLen a.flags = 0 ∨ ctlLen a.flags = 1 := by
    unfold ctlLen
    split <;> simp
  have hbuflt := pcb.sndBuf.toNat_lt
  rw [UInt16.le_iff_toNat_le] at hbuf
  rw [UInt16.lt_iff_toNat_lt, UInt16.le_iff_toNat_le, hbatch]
  constructor
  · rintro ⟨hadm, -, -, htcplen⟩
    rcases hctl with hctl | hctl
    · exact Or.inl hctl
    · right
      rw [hctl] at hadm htcplen hsum
      refine ⟨by omega, ?_⟩
      have hone : st.queue.length = 1 := by omega
      split at hcount
      · omega
      · rw [hone] at hcount
        have hle := (ceilDiv_le_iff_le_mul (hmss (by omega))).mp hcount.ge
        omega
  · intro hcond
    have hfit : len.toNat + ctlLen a.flags ≤ pcb.sndBuf.toNat := by omega
    have hadd : (len + UInt16.ofNat (ctlLen a.flags)).toNat = len.toNat + ctlLen a.flags := by
      rw [UInt16.toNat_add, UInt16.toNat_ofNat']
      omega
    refine ⟨hfit, ?_, ?_, ?_⟩
    · rw [hpcb]
      simp only [UInt16.toNat_sub, hadd]
      omega
    · rw [hpcb]
      simp only
      congr 1
      apply UInt32.toNat_inj.1
      rw [UInt16.toNat_toUInt32, hadd, UInt32.toNat_ofNat']
      omega
    · rw [hsum]
      rcases hcond with hzero | ⟨-, hle⟩
      · rw [hzero, Nat.mul_zero]
      · have hone : st.queue.length ≤ 1 := by
          rw [hcount]
          split
          · exact le_rfl
          · exact (ceilDiv_le_iff_le_mul (hmss (by omega))).mpr (by omega)
        rw [hcount] at hone ⊢
        split at hone
        · next hzero => rw [if_pos hzero, Nat.one_mul]
        · next hzero =>
          have hpos : 0 < len.toNat ⌈/⌉ pcb.mss.toNat := by
            rw [← ceilDiv_sub_min (hmss (by omega)) (by omega)]
            exact Nat.succ_pos _
          rw [if_neg hzero, show len.toNat ⌈/⌉ pcb.mss.toNat = 1 by omega, Nat.one_mul]

/-- With room for it, data is queued in as few segments as it takes. -/
theorem EnqueueRoom.succeeds (hroom : EnqueueRoom pools pcb a len) (hmss : 0 < pcb.mss.toNat)
    (hmss' : pcb.mss.toNat ≤ 1460) (hlen : 0 < len.toNat) :
    (tTcpEnqueue pools pcb a.arg len a.flags a.copy a.optdata a.optlen).1 = 0 ∧
      (enqueueBatch pools pcb a len).length = len.toNat ⌈/⌉ pcb.mss.toNat := by
  obtain ⟨segPool, st, hloop⟩ := tTcpEnqueueLoop_succeeds pools.segPool (.start pools pcb len) hmss
    hmss' (fun hzero => absurd hzero (show len.toNat ≠ 0 by omega)) hroom.segs hroom.pbufs
    hroom.slots
  have hrounds : 0 < len.toNat ⌈/⌉ pcb.mss.toNat := by
    rw [← ceilDiv_sub_min hmss hlen]
    exact Nat.succ_pos _
  constructor
  · have hfull : ¬ tTcpSndQueuelen ≤ pcb.sndQueuelen := by
      have hslots := hroom.slots
      have hpos : 0 < len.toNat ⌈/⌉ pcb.mss.toNat * a.slots.toNat := by
        refine Nat.mul_pos hrounds ?_
        rcases a.toNat_slots with h | h <;> omega
      rw [UInt8.le_iff_toNat_le, tTcpSndQueuelen, show (40 : UInt8).toNat = 40 from rfl]
      omega
    rw [tTcpEnqueue_of_ok (UInt16.not_lt.mpr hroom.buf) hfull hloop]
  · rw [enqueueBatch, hloop]
    simp only
    rw [(tTcpEnqueueLoop_batch hloop).2, if_neg (by omega)]

/-! ### in the unsent queue -/

/-- The header word of the segment lies before the end of its data. -/
def TcpSeg.WordInside (seg : TcpSeg) : Prop := seg.tcphdr + 14 ≤ seg.p.payload + seg.p.len.toNat

/-- Chaining adds the lengths in the sequence space. -/
theorem TcpSeg.chain_tcplen {mss : UInt16} {flags : UInt8} {useg seg : TcpSeg}
    (hin : useg.WordInside) (hseg : seg.tcplen = seg.len.toNat + ctlLen flags)
    (h : chains mss flags useg seg = true) : (useg.chain seg).tcplen = useg.tcplen + seg.tcplen := by
  simp only [chains, Bool.and_eq_true, decide_eq_true_eq, beq_iff_eq] at h
  obtain ⟨⟨⟨-, huseg⟩, hflags⟩, hle⟩ := h
  obtain ⟨husyn, hufin⟩ := and_eq_zero_of_or huseg
  obtain ⟨hsyn, hfin⟩ := and_eq_zero_of_or hflags
  have hctl : ctlLen flags = 0 := by
    unfold ctlLen
    rw [if_neg (by rw [hsyn, hfin]; simp)]
  have hword : (useg.chain seg).word = useg.word := by
    have hw := Pbuf.WritesOnly.memcpy useg.p (useg.p.payload + useg.p.len.toNat)
      (tPbufHeader seg.p tTcpHlen).2.payloadMem (tPbufHeader seg.p tTcpHlen).2.len.toNat
    rw [word, word, chain_tcphdr]
    exact hw.tTcphWord_eq (Or.inl hin)
  have hadd : (useg.len + seg.len).toNat = useg.len.toNat + seg.len.toNat := by
    have := mss.toNat_lt
    rw [UInt16.toNat_add]
    omega
  rw [tcplen_of_flags (by rw [flags_eq, hword, ← flags_eq, hufin])
    (by rw [flags_eq, hword, ← flags_eq, husyn]), tcplen_of_flags hufin husyn, hseg, hctl,
    chain_len, hadd, Nat.add_zero]

/-- The queue grows by what the batch takes, chained or not. -/
theorem tcplens_enqueueLink {mss : UInt16} {flags : UInt8} {unsent queue : List TcpSeg}
    (segPool : List SegId) (hin : ∀ useg ∈ unsent.getLast?, useg.WordInside)
    (hq : ∀ seg ∈ queue, seg.tcplen = seg.len.toNat + ctlLen flags) :
    tcplens (enqueueLink mss flags unsent queue segPool).1 = tcplens unsent + tcplens queue := by
  rcases List.eq_nil_or_concat' unsent with rfl | ⟨us, useg, rfl⟩
  · simp [enqueueLink]
  · cases queue with
    | nil => simp [enqueueLink]
    | cons seg rest =>
        by_cases hch : chains mss flags useg seg
        · have hchain := TcpSeg.chain_tcplen (hin useg (by simp)) (hq seg List.mem_cons_self) hch
          simp only [enqueueLink, List.getLast?_concat, hch, if_true, List.dropLast_concat,
            tcplens_append, tcplens_cons, tcplens_nil, hchain]
          omega
        · rw [enqueueLink_append segPool fun u hu => by
            obtain rfl : useg = u := by simpa using hu
            simpa using hch]
          simp only [tcplens_append, tcplens_cons, tcplens_nil]

/-- Marking the last segment with PSH leaves the lengths alone. -/
theorem tcplens_modifyLast_setPsh (q : List TcpSeg) :
    tcplens (q.modifyLast (TcpSeg.setFlag · tcpPsh)) = tcplens q := by
  rcases List.eq_nil_or_concat' q with rfl | ⟨init, last, rfl⟩
  · rfl
  · simp only [List.modifyLast_concat, tcplens_append, tcplens_cons,
      TcpSeg.setFlag_tcplen last (f := tcpPsh) (by decide)]

/-- The unsent queue after a call that succeeds. -/
theorem tcplens_tTcpEnqueue
    (hr : tTcpEnqueue pools pcb a.arg len a.flags a.copy a.optdata a.optlen = r) (h : r.1 = 0)
    (hin : ∀ useg ∈ pcb.unsent.getLast?, useg.WordInside) :
    tcplens r.2.2.unsent = tcplens pcb.unsent + tcplens (enqueueBatch pools pcb a len) := by
  obtain ⟨-, -, segPool, st, hloop, -, -, hpcb⟩ := tTcpEnqueue_of_eq_zero hr h
  have hbatch : enqueueBatch pools pcb a len = st.queue := by rw [enqueueBatch, hloop]
  obtain ⟨hi, -, -⟩ := tTcpEnqueueLoop_ok (I := fun st _ => BatchInv pcb a len.toNat st)
    (fun _ _ _ _ hst hi hr => hi.round hst (tTcpEnqueueLoop_mss_pos hloop) hr)
    (batchInv_start pools pcb a len) hloop
  rw [hbatch, hpcb, ← tcplens_enqueueLink segPool hin hi.tcplen]
  simp only
  split
  · exact tcplens_modifyLast_setPsh _
  · rfl

end

/-- **Admission**: a call of `t_tcp_enqueue` that returns 0 consumes exactly
its data and control flag, of the send buffer, of the sequence space and on
the queue, if and only if the flag leaves room for itself in the buffer and
all data goes out in one segment. -/
theorem enqueue_covers_iff (pools : Pools) (pcb : TcpPcb) (arg : Option ByteMem) (len : UInt16)
    (flags : UInt8) (copy : Bool) (optdata : Option ByteMem) (optlen : UInt8)
    (h : (tTcpEnqueue pools pcb arg len flags copy optdata optlen).1 = 0) :
    let r := tTcpEnqueue pools pcb arg len flags copy optdata optlen
    let batch := enqueueBatch pools pcb ⟨arg, flags, copy, optdata, optlen⟩ len
    (Consumes pcb r.2.2 batch (len.toNat + ctlLen flags) ↔
        ctlLen flags = 0 ∨ len < pcb.sndBuf ∧ len ≤ pcb.mss) ∧
      ((∀ useg ∈ pcb.unsent.getLast?, useg.WordInside) →
        tcplens r.2.2.unsent = tcplens pcb.unsent + tcplens batch) :=
  ⟨tTcpEnqueue_consumes_iff (a := ⟨arg, flags, copy, optdata, optlen⟩) rfl h,
    tcplens_tTcpEnqueue (a := ⟨arg, flags, copy, optdata, optlen⟩) rfl h⟩

/-- A FIN with one byte to spare. -/
theorem enqueue_covers_fin :
    let pools : Pools := ⟨tPbufInit fun _ _ => 0, [0]⟩
    let pcb : TcpPcb := { TcpPcb.zero with mss := 1400, sndBuf := 1 }
    let r := tTcpEnqueue pools pcb none 0 1 true none 0
    r.1 = 0 ∧ Consumes pcb r.2.2 (enqueueBatch pools pcb ⟨none, 1, true, none, 0⟩ 0) 1 :=
  have h : (tTcpEnqueue ⟨tPbufInit fun _ _ => 0, [0]⟩ { TcpPcb.zero with mss := 1400, sndBuf := 1 }
      none 0 1 true none 0).1 = 0 := by decide +kernel
  ⟨h, (enqueue_covers_iff _ _ _ _ _ _ _ _ h).1.mpr (by decide)⟩

/-- With a full send buffer a FIN is accepted, and then 65535 bytes are
free. -/
theorem not_enqueue_covers :
    ¬ (∀ pools pcb arg len flags copy optdata optlen,
      (tTcpEnqueue pools pcb arg len flags copy optdata optlen).1 = 0 →
        Consumes pcb (tTcpEnqueue pools pcb arg len flags copy optdata optlen).2.2
          (enqueueBatch pools pcb ⟨arg, flags, copy, optdata, optlen⟩ len)
          (len.toNat + ctlLen flags)) := by
  intro h
  have hfin := h ⟨tPbufInit fun _ _ => 0, [0]⟩ { TcpPcb.zero with mss := 1400 } none 0 1 true none 0
    (by decide +kernel)
  exact absurd hfin.admitted (by decide)

end TTcp
