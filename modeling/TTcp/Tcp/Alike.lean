import TTcp.Tcp.Frame

/-!
# TTcp.Tcp.Alike

The TCP output path on two pools.

Two control blocks are `Alike` if they differ in nothing but what the buffers of their queued
segments held before: ports, sequence number, flags, options and data are the same, and so is all
that the functions of `t_tcp_out.c` decide by.
-/

namespace TTcp

/-! ## pools -/

/-- Of the free pbufs only the number counts. -/
structure Pools.Alike (pools pools' : Pools) : Prop where
  free : pools.pbufPool.length = pools'.pbufPool.length
  segPool : pools.segPool = pools'.segPool

/-- A pbuf as `t_pbuf_alloc` hands it out. -/
def Pbuf.fresh (p : Pbuf) (offset length : UInt16) : Pbuf :=
  { p with ref := 1, payload := offset.toNat, totLen := length, len := length }

section
variable {pool pool' : List Pbuf} (hfree : pool.length = pool'.length)
include hfree

theorem tPbufAlloc_alike (offset length : UInt16) :
    (∃ r r', tPbufAlloc pool offset length tPbufFlagPool = (none, r) ∧
      tPbufAlloc pool' offset length tPbufFlagPool = (none, r') ∧ r.length = r'.length) ∨
    ∃ (p p' : Pbuf) (r r' : List Pbuf),
      tPbufAlloc pool offset length tPbufFlagPool = (some (p.fresh offset length), r) ∧
      tPbufAlloc pool' offset length tPbufFlagPool = (some (p'.fresh offset length), r') ∧
        r.length = r'.length := by
  by_cases hlen : (length + offset).toNat ≤ 1514
  · rw [tPbufAlloc_pool pool offset length hlen, tPbufAlloc_pool pool' offset length hlen]
    cases pool with
    | nil =>
        cases pool' with
        | nil => exact .inl ⟨_, _, rfl, rfl, rfl⟩
        | cons p' rest' => cases hfree
    | cons p rest =>
        cases pool' with
        | nil => cases hfree
        | cons p' rest' => exact .inr ⟨p, p', rest, rest', rfl, rfl, by simpa using hfree⟩
  · have hno : 1514 < (length + offset).toNat ∨ tPbufFlagPool ≠ tPbufFlagPool := .inl (by omega)
    exact .inl ⟨pool, pool', tPbufAlloc_refused pool hno, tPbufAlloc_refused pool' hno, hfree⟩

theorem tPbufFree_alike {p p' : Pbuf} (href : p.ref = p'.ref) :
    (tPbufFree pool [p]).2.length = (tPbufFree pool' [p']).2.length := by
  simp only [tPbufFree, tPbufFreeLoop, Pbuf.flags, href]
  split
  · simpa using hfree
  · exact hfree

end

namespace Pools.Alike

variable {pools pools' : Pools} (h : pools.Alike pools')
include h

theorem segFree (id : SegId) {p p' : Option Pbuf} (href : p.map Pbuf.ref = p'.map Pbuf.ref) :
    (tTcpSegFree pools (id, p)).2.Alike (tTcpSegFree pools' (id, p')).2 := by
  cases p with
  | none =>
      cases p' with
      | none => exact ⟨h.free, congrArg (id :: ·) h.segPool⟩
      | some p' => cases href
  | some p =>
      cases p' with
      | none => cases href
      | some p' =>
          exact ⟨tPbufFree_alike h.free (Option.some.inj href), congrArg (id :: ·) h.segPool⟩

/-- Blocks that `t_tcp_segs_free` treats alike. -/
def SameBlock (b b' : SegId × Option Pbuf) : Prop :=
  b.1 = b'.1 ∧ b.2.map Pbuf.ref = b'.2.map Pbuf.ref

theorem segsFree {blocks blocks' : List (SegId × Option Pbuf)}
    (hb : List.Forall₂ SameBlock blocks blocks') :
    (tTcpSegsFree pools blocks).2.Alike (tTcpSegsFree pools' blocks').2 := by
  induction hb generalizing pools pools' with
  | nil => exact h
  | cons hhead _ ih =>
      rename_i b b' _ _ _
      obtain ⟨id, p⟩ := b
      obtain ⟨id', p'⟩ := b'
      obtain ⟨rfl, href⟩ := hhead
      exact ih (h.segFree id href)

end Pools.Alike

/-! ## segments -/

/-- What is written of a queued segment: acknowledgement number, window and checksum are not. -/
def TcpSeg.Written (seg : TcpSeg) (i : Nat) : Prop :=
  (34 ≤ i ∧ i < 42) ∨ (46 ≤ i ∧ i < 48) ∨ (52 ≤ i ∧ i < 34 + seg.p.len.toNat)

/-- The same segment in two buffers. -/
structure TcpSeg.Alike (seg seg' : TcpSeg) : Prop where
  id : seg.id = seg'.id
  len : seg.len = seg'.len
  tcphdr : seg.tcphdr = seg'.tcphdr
  ref : seg.p.ref = seg'.p.ref
  agree : Pbuf.AgreeOn seg.Written seg.p seg'.p

namespace TcpSeg.Alike

variable {seg seg' : TcpSeg}

theorem refl (seg : TcpSeg) : seg.Alike seg := ⟨rfl, rfl, rfl, rfl, rfl, rfl, rfl, fun _ _ => rfl⟩

variable (h : seg.Alike seg')
include h

theorem block : Pools.Alike.SameBlock seg.block seg'.block := ⟨h.id, congrArg some h.ref⟩

section
variable (h34 : seg.tcphdr = 34)
include h34

theorem seqno : seg.seqno = seg'.seqno := by
  rw [TcpSeg.seqno, TcpSeg.seqno, ← h.tcphdr, h34, tcphSeqno, tcphSeqno,
    h.agree.mem.get32 fun i hlo hhi => .inl ⟨by omega, by omega⟩]

theorem word : seg.word = seg'.word := by
  rw [TcpSeg.word, TcpSeg.word, ← h.tcphdr, h34, tTcphWord, tTcphWord,
    h.agree.mem.get16 fun i hlo hhi => .inr (.inl ⟨by omega, by omega⟩)]

theorem tcplen : seg.tcplen = seg'.tcplen := by
  rw [TcpSeg.tcplen, TcpSeg.tcplen, TcpSeg.flags_eq, TcpSeg.flags_eq, h.len, h.word h34]

theorem setFlag (flags : UInt16) : (seg.setFlag flags).Alike (seg'.setFlag flags) := by
  have hword := h.word h34
  rw [TcpSeg.word, TcpSeg.word] at hword
  refine ⟨h.id, h.len, h.tcphdr, h.ref, ?_⟩
  rw [TcpSeg.setFlag, TcpSeg.setFlag, tTcphSetFlag, tTcphSetFlag, hword, ← h.tcphdr]
  exact h.agree.set16_same _ rfl

end

/-- The data of one segment behind that of another. -/
theorem chain {useg useg' : TcpSeg} (hu : useg.Alike useg') (hpay : useg.p.payload = 34)
    (hq : seg.Queued) : (useg.chain seg).Alike (useg'.chain seg') := by
  have hplen := hq.plen_le
  have hpull : ∀ p : Pbuf, p.payload = 34 → tPbufHeader p (tTcpHlen : Nat) = (0, { p with
      payload := 54, totLen := p.totLen - 20, len := p.len - 20 }) := fun p hp => by
    rw [tPbufHeader_pull p (by rw [hp]; decide), hp]
    rfl
  have hlen : (seg.p.len - 20).toNat = seg.p.len.toNat - 20 := by
    rw [UInt16.toNat_sub, show (20 : UInt16).toNat = 20 from rfl]
    have := seg.p.len.toNat_lt
    omega
  refine ⟨?_, ?_, ?_, ?_, ?_⟩
  · rw [TcpSeg.chain_id, TcpSeg.chain_id, hu.id]
  · rw [TcpSeg.chain_len, TcpSeg.chain_len, hu.len, h.len]
  · rw [TcpSeg.chain_tcphdr, TcpSeg.chain_tcphdr, hu.tcphdr]
  · rw [TcpSeg.chain, TcpSeg.chain]
    simp only [tPbufCat, Pbuf.memcpy_ref]
    exact hu.ref
  · unfold TcpSeg.Written
    rw [TcpSeg.chain, TcpSeg.chain, hpull seg.p hq.payload,
      hpull seg'.p (h.agree.payload ▸ hq.payload)]
    simp only [tPbufCat, Pbuf.payloadMem, ← hu.agree.payload, ← hu.agree.len, ← h.agree.len]
    refine ⟨hu.agree.payload, by simp only [Pbuf.memcpy_totLen, hu.agree.totLen],
      by simp only [Pbuf.memcpy_len, hu.agree.len], ?_⟩
    simp only [Pbuf.memcpy_mem, Pbuf.memcpy_len]
    refine ByteMem.AgreeOn.copy (S := useg.Written) hu.agree.mem (fun i hi => ?_) fun i hi => ?_
    · -- the data of `seg`
      rw [hlen] at hi
      exact h.agree.mem _ (.inr (.inr ⟨by omega, by omega⟩))
    · have hwrap : (useg.p.len + (seg.p.len - 20)).toNat ≤
          useg.p.len.toNat + (seg.p.len - 20).toNat := by
        rw [UInt16.toNat_add]
        exact Nat.mod_le ..
      unfold TcpSeg.Written
      omega

end TcpSeg.Alike

/-! ## the loop of `t_tcp_enqueue` -/

/-- The header that `t_tcp_enqueue` builds: what it leaves out is written on output. -/
theorem Pbuf.AgreeOn.tcphBuild {S : Nat → Prop} {p p' : Pbuf} (h : Pbuf.AgreeOn S p p') (o : Nat)
    (src dest : UInt16) (seqno : UInt32) (flags len : UInt16) :
    Pbuf.AgreeOn (fun i => (S i ∧ o + 20 ≤ i) ∨ (o ≤ i ∧ i < o + 8) ∨ (o + 12 ≤ i ∧ i < o + 14) ∨
        (o + 18 ≤ i ∧ i < o + 20))
      (tTcphHdrlenSet (TTcp.tcphBuild p o src dest seqno flags) o len)
      (tTcphHdrlenSet (TTcp.tcphBuild p' o src dest seqno flags) o len) := by
  have hw : ∀ q, Pbuf.WritesOnly q (tTcphHdrlenSet (TTcp.tcphBuild q o src dest seqno flags) o len) o
      (o + 20) := fun q => (tcphBuild_writesOnly q o src dest seqno flags).trans
    ((tTcphHdrlenSet_writesOnly _ o len).mono (by omega) (by omega))
  have hfields : ∀ q : Pbuf,
      let r := tTcphHdrlenSet (TTcp.tcphBuild q o src dest seqno flags) o len
      r.mem.get16 o = htons src ∧ r.mem.get16 (o + 2) = htons dest ∧
        r.mem.get32 (o + 4) = htonl seqno ∧ r.mem.get16 (o + 18) = 0 := fun q => by
    simp (disch := omega) [tTcphHdrlenSet, TTcp.tcphBuild, tTcphFlagsSet]
  have hword : ∀ q : Pbuf,
      (tTcphHdrlenSet (TTcp.tcphBuild q o src dest seqno flags) o len).mem.get16 (o + 12) =
        htons ((len <<< 12) ||| (flags &&& tcpFlags)) := fun q => by
    have hbuild := tTcphWord_build_hdrlenSet q o src dest seqno flags len
    rw [tTcphWord] at hbuild
    rw [← hbuild, ntohs, htons_htons]
  refine ⟨by rw [(hw p).payload, (hw p').payload, h.payload],
    by rw [(hw p).totLen, (hw p').totLen, h.totLen], by rw [(hw p).len, (hw p').len, h.len],
    fun i hi => ?_⟩
  obtain ⟨hsrc, hdest, hseqno, hurgp⟩ := hfields p
  obtain ⟨hsrc', hdest', hseqno', hurgp'⟩ := hfields p'
  obtain ⟨hS, hi⟩ | ⟨hlo, hhi⟩ | ⟨hlo, hhi⟩ | ⟨hlo, hhi⟩ := hi
  · rw [(hw p).mem i (.inr hi), (hw p').mem i (.inr hi)]
    exact h.mem i hS
  · obtain hi | hi | hi : i < o + 2 ∨ (o + 2 ≤ i ∧ i < o + 4) ∨ o + 4 ≤ i := by omega
    · exact ByteMem.agreeOn_of_get16 (hsrc.trans hsrc'.symm) i ⟨hlo, hi⟩
    · exact ByteMem.agreeOn_of_get16 (hdest.trans hdest'.symm) i ⟨hi.1, by omega⟩
    · exact ByteMem.agreeOn_of_get32 (hseqno.trans hseqno'.symm) i ⟨hi, by omega⟩
  · exact ByteMem.agreeOn_of_get16 ((hword p).trans (hword p').symm) i ⟨hlo, by omega⟩
  · exact ByteMem.agreeOn_of_get16 (hurgp.trans hurgp'.symm) i ⟨hlo, by omega⟩

/-- The call has data or options to send. -/
def EnqueueArgs.HasData (a : EnqueueArgs) : Prop := a.optdata ≠ none ∨ a.arg ≠ none

section
variable {a : EnqueueArgs} (ha : a.HasData) {pool pool' : List Pbuf}
  (hfree : pool.length = pool'.length) (seglen : UInt16) (ptr : Nat)
include ha hfree

/-- The pbufs of a new segment: the same length, and the same data in both. -/
theorem enqueueAlloc_alike :
    (∃ r r', enqueueAlloc a pool seglen ptr = (none, r) ∧
      enqueueAlloc a pool' seglen ptr = (none, r') ∧ r.length = r'.length) ∨
    ∃ (p p' : Pbuf) (slots : UInt8) (r r' : List Pbuf),
      enqueueAlloc a pool seglen ptr = (some (p, slots), r) ∧
        enqueueAlloc a pool' seglen ptr = (some (p', slots), r') ∧ r.length = r'.length ∧
          p.ref = p'.ref ∧ p.payload = 54 ∧
            (a.optdata ≠ none → p.len = a.optlen.toUInt16) ∧ (a.optdata = none → p.len = seglen) ∧
            Pbuf.AgreeOn (fun i => a.optdata = none ∧ 54 ≤ i ∧ i < 54 + seglen.toNat) p p' := by
  obtain ⟨arg, flags, copy, optdata, optlen⟩ := a
  have hfresh : ∀ (p p' : Pbuf) (n : UInt16), Pbuf.AgreeOn (fun _ => False)
      (p.fresh tPbufTransport n) (p'.fresh tPbufTransport n) := fun p p' n =>
    ⟨rfl, rfl, rfl, fun _ h => h.elim⟩
  cases optdata with
  | some opt =>
      simp only [enqueueAlloc]
      obtain ⟨r, r', halloc, halloc', hlen⟩ | ⟨p, p', r, r', halloc, halloc', hlen⟩ :=
        tPbufAlloc_alike hfree tPbufTransport optlen.toUInt16
      · simp only [halloc, halloc']
        exact .inl ⟨r, r', rfl, rfl, hlen⟩
      · simp only [halloc, halloc']
        exact .inr ⟨_, _, _, _, _, rfl, rfl, hlen, rfl, rfl, fun _ => rfl, fun h => by simp at h,
          (hfresh p p' _).mono fun i hi => by simp at hi⟩
  | none =>
      obtain ⟨arg, rfl⟩ := Option.ne_none_iff_exists'.mp (ha.resolve_left fun h => h rfl)
      have hcopy : ∀ {q q' : Pbuf}, Pbuf.AgreeOn (fun _ => False) q q' →
          Pbuf.AgreeOn (fun i => 54 ≤ i ∧ i < 54 + seglen.toNat)
            (q.memcpy 54 (arg.shift ptr) seglen.toNat) (q'.memcpy 54 (arg.shift ptr) seglen.toNat) :=
        fun hq => ⟨hq.payload, hq.totLen, hq.len, hq.mem.copy (fun _ _ => rfl) fun i hi => .inr hi⟩
      cases copy with
      | true =>
          simp only [enqueueAlloc, if_true]
          obtain ⟨r, r', halloc, halloc', hlen⟩ | ⟨p, p', r, r', halloc, halloc', hlen⟩ :=
            tPbufAlloc_alike hfree tPbufTransport seglen
          · simp only [halloc, halloc']
            exact .inl ⟨r, r', rfl, rfl, hlen⟩
          · simp only [halloc, halloc']
            exact .inr ⟨_, _, _, _, _, rfl, rfl, hlen, rfl, rfl, fun h => absurd rfl h, fun _ => rfl,
              (hcopy (hfresh p p' seglen)).mono fun i hi => hi.2⟩
      | false =>
          simp only [enqueueAlloc, Bool.false_eq_true, if_false]
          obtain ⟨r, r', halloc, halloc', hlen⟩ | ⟨d, d', r, r', halloc, halloc', hlen⟩ :=
            tPbufAlloc_alike hfree tPbufTransport seglen
          · simp only [halloc, halloc']
            exact .inl ⟨r, r', rfl, rfl, hlen⟩
          simp only [halloc, halloc']
          obtain ⟨s, s', hhdr, hhdr', hlen'⟩ | ⟨p, p', s, s', hhdr, hhdr', hlen'⟩ :=
            tPbufAlloc_alike hlen tPbufTransport 0
          · simp only [hhdr, hhdr']
            exact .inl ⟨_, _, rfl, rfl, tPbufFree_alike hlen' rfl⟩
          · simp only [hhdr, hhdr', Option.getD_some]
            have hcat := (hcopy (hfresh p p' 0)).mem
            refine .inr ⟨_, _, _, _, _, rfl, rfl, hlen', rfl, rfl, fun h => absurd rfl h,
              fun _ => ?_, ?_⟩
            · exact UInt16.zero_add seglen
            · exact ⟨rfl, rfl, rfl, hcat.mono fun i hi => hi.2⟩

end

/-- The same state of the loop, with other buffers. -/
structure EnqueueState.Alike (st st' : EnqueueState) : Prop where
  free : st.pbufPool.length = st'.pbufPool.length
  queue : List.Forall₂ TcpSeg.Alike st.queue st'.queue
  tcphdr : ∀ seg ∈ st.queue, seg.tcphdr = 34
  left : st.left = st'.left
  seqno : st.seqno = st'.seqno
  ptr : st.ptr = st'.ptr
  queuelen : st.queuelen = st'.queuelen
  seglen : st.seglen = st'.seglen

section
variable (pcb : TcpPcb) {a : EnqueueArgs} (ha : a.HasData)
include ha

/-- A round fails in both or in neither, and then it queues the same segment. -/
theorem tTcpEnqueueRound_alike (id : SegId) {st st' : EnqueueState} (h : st.Alike st') :
    (∃ r r' o o', tTcpEnqueueRound pcb a id st = .error (r, o) ∧
      tTcpEnqueueRound pcb a id st' = .error (r', o') ∧ r.length = r'.length ∧
        o.map Pbuf.ref = o'.map Pbuf.ref) ∨
    ∃ s s', tTcpEnqueueRound pcb a id st = .ok s ∧ tTcpEnqueueRound pcb a id st' = .ok s' ∧
      s.Alike s' := by
  obtain ⟨seglen, hseglen⟩ : ∃ n,
      n = if pcb.mss.toNat < st.left then pcb.mss else UInt16.ofNat st.left :=
    ⟨_, rfl⟩
  unfold tTcpEnqueueRound
  simp only [← h.left, ← h.ptr, ← h.queuelen, ← h.seqno, ← hseglen]
  obtain ⟨r, r', halloc, halloc', hlen⟩ | ⟨p, p', slots, r, r', halloc, halloc', hlen, href, hpay,
      hopt, hdata, hagree⟩ := enqueueAlloc_alike ha h.free seglen st.ptr
  · simp only [halloc, halloc']
    exact .inl ⟨r, r', none, none, rfl, rfl, hlen, rfl⟩
  simp only [halloc, halloc']
  by_cases hfull : tTcpSndQueuelen < st.queuelen + slots
  · simp only [if_pos hfull]
    exact .inl ⟨r, r', some p, some p', rfl, rfl, hlen, congrArg some href⟩
  simp only [if_neg hfull]
  have hpush : ∀ q : Pbuf, q.payload = 54 → ∃ q1, tPbufHeader q (-(tTcpHlen : Nat)) = (0, q1) ∧
      q1.payload = 34 ∧ q1.len = q.len + 20 ∧ q1.ref = q.ref := fun q hq => by
    rw [tPbufHeader_push q (by rw [hq]; decide) (by rw [hq]; decide), hq]
    exact ⟨_, rfl, rfl, rfl, rfl⟩
  obtain ⟨q, hq, hqpay, hqlen, hqref⟩ := hpush p hpay
  obtain ⟨q', hq', hqpay', hqlen', hqref'⟩ := hpush p' (hagree.payload ▸ hpay)
  have hqagree := hagree.header (-(tTcpHlen : Nat))
  rw [hq, hq'] at hqagree
  -- the header, and the options behind it
  obtain ⟨b, hb⟩ : ∃ b, b = tcphBuild q 34 pcb.localPort pcb.remotePort st.seqno a.flags.toUInt16 :=
    ⟨_, rfl⟩
  obtain ⟨b', hb'⟩ : ∃ b', b' = tcphBuild q' 34 pcb.localPort pcb.remotePort st.seqno
      a.flags.toUInt16 := ⟨_, rfl⟩
  have hw := hb ▸ tcphBuild_writesOnly q 34 pcb.localPort pcb.remotePort st.seqno a.flags.toUInt16
  have hw' := hb' ▸ tcphBuild_writesOnly q' 34 pcb.localPort pcb.remotePort st.seqno
    a.flags.toUInt16
  have hbuild := hqagree.tcphBuild 34 pcb.localPort pcb.remotePort st.seqno a.flags.toUInt16
  rw [← hb, ← hb'] at hbuild
  simp only [hq, hq', ne_eq, not_true_eq_false, if_false, hqpay, hqpay', ← hb, ← hb', hw.payload,
    hw'.payload]
  have hnew : ∀ {x x' : Pbuf}, x.ref = x'.ref → x.payload = x'.payload → x.len = p.len + 20 →
      Pbuf.AgreeOn (fun i => (34 ≤ i ∧ i < 42) ∨ (46 ≤ i ∧ i < 48) ∨
        (52 ≤ i ∧ i < 54 + p.len.toNat)) x x' →
      TcpSeg.Alike ⟨id, x, seglen, x.payload⟩ ⟨id, x', seglen, x'.payload⟩ :=
    fun {x x'} hr hp hl hx => ⟨rfl, rfl, hp, hr, hx.mono fun i hi => by
      unfold TcpSeg.Written at hi
      simp only [hl, UInt16.toNat_add, show (20 : UInt16).toNat = 20 from rfl] at hi
      omega⟩
  have hplace : ∀ x : Pbuf, x.payload = 34 → ∀ seg ∈ st.queue ++ [⟨id, x, seglen, x.payload⟩],
      seg.tcphdr = 34 := fun x hx seg hs => by
    rcases List.mem_append.mp hs with hs | hs
    · exact h.tcphdr seg hs
    · rw [List.mem_singleton.mp hs]
      exact hx
  have hset : ∀ len, (tTcphHdrlenSet b 34 len).ref = (tTcphHdrlenSet b' 34 len).ref ∧
      (tTcphHdrlenSet b 34 len).payload = 34 ∧ (tTcphHdrlenSet b' 34 len).payload = 34 ∧
        (tTcphHdrlenSet b 34 len).len = p.len + 20 := fun len => by
    have hs := tTcphHdrlenSet_writesOnly b 34 len
    have hs' := tTcphHdrlenSet_writesOnly b' 34 len
    refine ⟨?_, ?_, ?_, ?_⟩
    · rw [hs.ref, hs'.ref, hw.ref, hw'.ref, hqref, hqref', href]
    · rw [hs.payload, hw.payload, hqpay]
    · rw [hs'.payload, hw'.payload, hqpay']
    · rw [hs.len, hw.len, hqlen]
  cases ho : a.optdata with
  | none =>
      obtain ⟨href', hpay1, hpay2, hlen'⟩ := hset 5
      have hplen := hdata ho
      refine .inr ⟨_, _, rfl, rfl, hlen, List.rel_append h.queue
        (.cons (hnew href' (hpay1.trans hpay2.symm) hlen' ?_) .nil), hplace _ hpay1, rfl, rfl, rfl,
          rfl, rfl⟩
      refine (hbuild 5).mono fun i hi => ?_
      rw [hplen] at hi
      simp only [ho, true_and]
      omega
  | some opt =>
      obtain ⟨href', hpay1, hpay2, hlen'⟩ := hset (5 + a.optlen.toUInt16 / 4)
      have hplen := hopt (by simp [ho])
      rw [← hagree.payload, hpay]
      refine .inr ⟨_, _, rfl, rfl, hlen, List.rel_append h.queue
        (.cons (hnew href' (hpay1.trans hpay2.symm) hlen' ?_) .nil), hplace _ hpay1, rfl, rfl, rfl,
          rfl, rfl⟩
      have hh := hbuild (5 + a.optlen.toUInt16 / 4)
      refine ⟨hh.payload, hh.totLen, hh.len, hh.mem.copy (fun _ _ => rfl) fun i hi => ?_⟩
      rw [hplen, UInt8.toNat_toUInt16] at hi
      omega

/-- The loop fails in both or in neither, and then it queues the same segments. -/
theorem tTcpEnqueueLoop_alike (segPool : List SegId) {st st' : EnqueueState} (h : st.Alike st') :
    (∃ pools pools', tTcpEnqueueLoop pcb a st segPool = .error pools ∧
      tTcpEnqueueLoop pcb a st' segPool = .error pools' ∧ pools.Alike pools') ∨
    ∃ ids s s', tTcpEnqueueLoop pcb a st segPool = .ok (ids, s) ∧
      tTcpEnqueueLoop pcb a st' segPool = .ok (ids, s') ∧ s.Alike s' := by
  have hblocks : ∀ {q q' : List TcpSeg}, List.Forall₂ TcpSeg.Alike q q' →
      List.Forall₂ Pools.Alike.SameBlock (q.map TcpSeg.block) (q'.map TcpSeg.block) := fun hq => by
    rw [List.forall₂_map_left_iff, List.forall₂_map_right_iff]
    exact hq.imp fun _ _ hs => hs.block
  have hend : ∀ {st st' : EnqueueState}, st.Alike st' →
      (st.queue ≠ [] ∧ st.left = 0 ↔ st'.queue ≠ [] ∧ st'.left = 0) := fun hs => by
    rw [← hs.left, ← List.length_pos_iff, ← List.length_pos_iff, hs.queue.length_eq]
  induction segPool generalizing st st' with
  | nil =>
      simp only [tTcpEnqueueLoop, ← hend h]
      split
      · exact .inr ⟨_, _, _, rfl, rfl, h⟩
      · have hpools : Pools.Alike ⟨st.pbufPool, []⟩ ⟨st'.pbufPool, []⟩ := ⟨h.free, rfl⟩
        exact .inl ⟨_, _, rfl, rfl, hpools.segsFree (hblocks h.queue)⟩
  | cons id segPool ih =>
      simp only [tTcpEnqueueLoop, ← hend h]
      split
      · exact .inr ⟨_, _, _, rfl, rfl, h⟩
      · obtain ⟨r, r', o, o', hr, hr', hlen, href⟩ | ⟨s, s', hs, hs', halike⟩ :=
          tTcpEnqueueRound_alike pcb ha id h
        · simp only [hr, hr']
          have hpools : Pools.Alike ⟨r, segPool⟩ ⟨r', segPool⟩ := ⟨hlen, rfl⟩
          exact .inl ⟨_, _, rfl, rfl, hpools.segsFree
            (List.rel_append (hblocks h.queue) (.cons ⟨rfl, href⟩ .nil))⟩
        · simp only [hs, hs']
          exact ih halike

end

/-! ## linking the new segments -/

/-- The last of two related lists. -/
theorem forall₂_concat_left {α β : Type*} {R : α → β → Prop} {l : List α} {x : α} {l' : List β}
    (h : List.Forall₂ R (l ++ [x]) l') : ∃ m y, l' = m ++ [y] ∧ List.Forall₂ R l m ∧ R x y := by
  rcases List.eq_nil_or_concat' l' with rfl | ⟨m, y, rfl⟩
  · exact absurd h.length_eq (by simp)
  · rw [← List.forall₂_reverse_iff] at h
    simp only [List.reverse_append, List.reverse_cons, List.reverse_nil, List.nil_append,
      List.singleton_append, List.forall₂_cons, List.forall₂_reverse_iff] at h
    exact ⟨m, y, rfl, h.2, h.1⟩

theorem enqueueLink_alike (mss : UInt16) (flags : UInt8) {unsent unsent' queue queue' : List TcpSeg}
    (hu : List.Forall₂ TcpSeg.Alike unsent unsent') (hq : List.Forall₂ TcpSeg.Alike queue queue')
    (hunsent : ∀ seg ∈ unsent, seg.Queued) (hplace : ∀ seg ∈ queue, seg.tcphdr = 34)
    (hdata : flags.toUInt16 &&& (tcpSyn ||| tcpFin) = 0 → ∀ seg ∈ queue, seg.Queued)
    (segPool : List SegId) :
    (enqueueLink mss flags unsent queue segPool).2 =
        (enqueueLink mss flags unsent' queue' segPool).2 ∧
      List.Forall₂ TcpSeg.Alike (enqueueLink mss flags unsent queue segPool).1
        (enqueueLink mss flags unsent' queue' segPool).1 ∧
      ∀ seg ∈ (enqueueLink mss flags unsent queue segPool).1, seg.tcphdr = 34 := by
  have happend : List.Forall₂ TcpSeg.Alike (unsent ++ queue) (unsent' ++ queue') ∧
      ∀ seg ∈ unsent ++ queue, seg.tcphdr = 34 :=
    ⟨List.rel_append hu hq, fun seg hs => (List.mem_append.mp hs).elim
      (fun h => (hunsent seg h).tcphdr) (hplace seg)⟩
  rcases List.eq_nil_or_concat' unsent with rfl | ⟨us, useg, rfl⟩
  · obtain rfl := List.forall₂_nil_left_iff.mp hu
    exact ⟨rfl, happend⟩
  obtain ⟨us', useg', rfl, hus, huseg⟩ := forall₂_concat_left hu
  cases hq with
  | nil =>
      have hlink : ∀ l : List TcpSeg, enqueueLink mss flags l [] segPool = (l ++ [], segPool, true) :=
        fun l => by simp [enqueueLink]
      rw [hlink, hlink]
      exact ⟨rfl, happend⟩
  | cons hseg hrest =>
      rename_i seg seg' rest rest'
      have hlink : ∀ (us : List TcpSeg) (useg seg : TcpSeg) (rest : List TcpSeg),
          enqueueLink mss flags (us ++ [useg]) (seg :: rest) segPool =
            if chains mss flags useg seg then
              (us ++ useg.chain seg :: rest, seg.id :: segPool, !rest.isEmpty)
            else (us ++ [useg] ++ seg :: rest, segPool, true) := fun us useg seg rest => by
        simp [enqueueLink]
      have hqueued := hunsent useg (by simp)
      have hchains : chains mss flags useg' seg' = chains mss flags useg seg := by
        rw [chains, chains, TcpSeg.flags_eq, TcpSeg.flags_eq, huseg.tcplen hqueued.tcphdr,
          huseg.word hqueued.tcphdr, huseg.len, hseg.len]
      rw [hlink, hlink, hchains]
      by_cases hch : chains mss flags useg seg
      · have hempty : rest.isEmpty = rest'.isEmpty := by
          cases hrest <;> rfl
        rw [if_pos hch, if_pos hch, hseg.id, hempty]
        simp only [chains, Bool.and_eq_true, beq_iff_eq] at hch
        refine ⟨rfl, List.rel_append hus (.cons (hseg.chain huseg hqueued.payload
          (hdata hch.1.2 seg (by simp))) hrest), fun s hs => ?_⟩
        rcases List.mem_append.mp hs with hs | hs
        · exact (hunsent s (by simp [hs])).tcphdr
        · rcases List.mem_cons.mp hs with rfl | hs
          · rw [TcpSeg.chain_tcphdr]
            exact hqueued.tcphdr
          · exact hplace s (by simp [hs])
      · rw [if_neg hch, if_neg hch]
        exact ⟨rfl, happend⟩

/-! ## control blocks -/

/-- The same control block with other buffers. -/
structure TcpPcb.Alike (pcb pcb' : TcpPcb) : Prop where
  same : pcb' = { pcb with unsent := pcb'.unsent, unacked := pcb'.unacked }
  unsent : List.Forall₂ TcpSeg.Alike pcb.unsent pcb'.unsent
  unacked : List.Forall₂ (fun seg seg' => seg.seqno = seg'.seqno) pcb.unacked pcb'.unacked

theorem TcpPcb.Alike.refl (pcb : TcpPcb) : pcb.Alike pcb :=
  ⟨rfl, List.forall₂_same.mpr fun seg _ => .refl seg, List.forall₂_same.mpr fun _ _ => rfl⟩

theorem TcpPcb.Alike.exists_eq {pcb pcb' : TcpPcb} (h : pcb.Alike pcb') : ∃ unsent unacked,
    pcb' = { pcb with unsent, unacked } ∧ List.Forall₂ TcpSeg.Alike pcb.unsent unsent ∧
      List.Forall₂ (fun seg seg' => seg.seqno = seg'.seqno) pcb.unacked unacked :=
  ⟨pcb'.unsent, pcb'.unacked, h.same, h.unsent, h.unacked⟩

/-- The loop looks at no queue. -/
theorem tTcpEnqueueLoop_queues (pcb : TcpPcb) (unsent unacked : List TcpSeg) (a : EnqueueArgs)
    (st : EnqueueState) (segPool : List SegId) :
    tTcpEnqueueLoop { pcb with unsent, unacked } a st segPool = tTcpEnqueueLoop pcb a st segPool := by
  induction segPool generalizing st with
  | nil => rfl
  | cons id segPool ih =>
      have hround : tTcpEnqueueRound { pcb with unsent, unacked } a id st =
          tTcpEnqueueRound pcb a id st := rfl
      simp only [tTcpEnqueueLoop, hround, ih]

/-- What `t_tcp_enqueue` queues, if it does. -/
def enqueueStart (pools : Pools) (pcb : TcpPcb) (len : UInt16) : EnqueueState where
  pbufPool := pools.pbufPool
  queue := []
  left := len.toNat
  seqno := pcb.sndLbb
  ptr := 0
  queuelen := pcb.sndQueuelen
  seglen := 0

section
variable {pools pools' : Pools} (hpools : pools.Alike pools') {pcb pcb' : TcpPcb}
  (h : pcb.Alike pcb')
include hpools h

theorem tTcpEnqueue_alike (hunsent : ∀ seg ∈ pcb.unsent, seg.Queued) {a : EnqueueArgs}
    (ha : a.HasData) (len : UInt16)
    (hdata : pcb.sndQueuelen.toNat < 40 → a.flags.toUInt16 &&& (tcpSyn ||| tcpFin) = 0 → ∀ ids st,
      tTcpEnqueueLoop pcb a (enqueueStart pools pcb len) pools.segPool = .ok (ids, st) →
        ∀ seg ∈ st.queue, seg.Queued) :
    let r := tTcpEnqueue pools pcb a.arg len a.flags a.copy a.optdata a.optlen
    let r' := tTcpEnqueue pools' pcb' a.arg len a.flags a.copy a.optdata a.optlen
    r.1 = r'.1 ∧ r.2.1.Alike r'.2.1 ∧ r.2.2.Alike r'.2.2 := by
  obtain ⟨unsent', unacked', rfl, hunsent', hunacked'⟩ := h.exists_eq
  simp only [tTcpEnqueue]
  by_cases hbuf : pcb.sndBuf < len
  · simp only [if_pos hbuf]
    exact ⟨trivial, hpools, h⟩
  simp only [if_neg hbuf]
  by_cases hfull : tTcpSndQueuelen ≤ pcb.sndQueuelen
  · simp only [if_pos hfull]
    exact ⟨trivial, hpools, h⟩
  simp only [if_neg hfull]
  have hst : (enqueueStart pools pcb len).Alike (enqueueStart pools' pcb len) :=
    ⟨hpools.free, .nil, fun _ hs => absurd hs List.not_mem_nil, rfl, rfl, rfl, rfl, rfl⟩
  have hloop := tTcpEnqueueLoop_alike pcb ha pools.segPool hst
  rw [tTcpEnqueueLoop_queues pcb unsent' unacked', ← hpools.segPool]
  rw [enqueueStart, enqueueStart] at hloop
  rw [enqueueStart] at hdata
  obtain ⟨p, p', hp, hp', hpp⟩ | ⟨ids, s, s', hs, hs', hss⟩ := hloop
  · simp only [hp, hp']
    exact ⟨trivial, hpp, h⟩
  simp only [hs, hs']
  obtain ⟨hsnd, hlink, hplace⟩ := enqueueLink_alike pcb.mss a.flags hunsent' hss.queue hunsent
    hss.tcphdr (fun hflags => hdata (by simpa [UInt8.le_iff_toNat_le] using hfull) hflags ids s hs)
    ids
  generalize enqueueLink pcb.mss a.flags pcb.unsent s.queue ids = l at *
  generalize enqueueLink pcb.mss a.flags unsent' s'.queue ids = l' at *
  obtain ⟨unsent, ids1, seg⟩ := l
  obtain ⟨unsent1, ids1', seg'⟩ := l'
  obtain ⟨rfl, rfl⟩ := Prod.mk.inj hsnd
  have hpsh : List.Forall₂ TcpSeg.Alike
      (if seg = true ∧ 0 < s.seglen then unsent.modifyLast (TcpSeg.setFlag · tcpPsh) else unsent)
      (if seg = true ∧ 0 < s.seglen then unsent1.modifyLast (TcpSeg.setFlag · tcpPsh)
        else unsent1) := by
    split
    · rcases List.eq_nil_or_concat' unsent with rfl | ⟨us, last, rfl⟩
      · obtain rfl := List.forall₂_nil_left_iff.mp hlink
        exact .nil
      · obtain ⟨us', last', rfl, hus, hlast⟩ := forall₂_concat_left hlink
        rw [List.modifyLast_concat, List.modifyLast_concat]
        exact List.rel_append hus (.cons (hlast.setFlag (hplace last (by simp)) tcpPsh) .nil)
    · exact hlink
  rw [← hss.seglen, ← hss.queuelen]
  exact ⟨trivial, ⟨hss.free, rfl⟩, rfl, hpsh, hunacked'⟩

theorem tTcpWrite_alike (hq : pcb.Queues) (arg : ByteMem) (len : UInt16) (copy : Bool) :
    (tTcpWrite pools pcb arg len copy).1 = (tTcpWrite pools' pcb' arg len copy).1 ∧
      (tTcpWrite pools pcb arg len copy).2.1.Alike (tTcpWrite pools' pcb' arg len copy).2.1 ∧
      (tTcpWrite pools pcb arg len copy).2.2.Alike (tTcpWrite pools' pcb' arg len copy).2.2 := by
  have hstate : pcb'.state = pcb.state := by rw [h.same]
  unfold tTcpWrite
  rw [hstate]
  split
  · split
    · next hlen =>
      have hn : 0 < len.toNat := by rwa [UInt16.lt_iff_toNat_lt] at hlen
      refine tTcpEnqueue_alike hpools h hq.unsent (a := ⟨some arg, 0, copy, none, 0⟩)
        (.inr (by simp)) len fun hfull _ ids st hloop seg hseg => ?_
      -- the new segments are data segments
      have hstart : WriteInv pcb arg len.toNat pcb.sndQueuelen.toNat (enqueueStart pools pcb len) :=
        ⟨dataQueue_nil _, Nat.zero_add _, fun _ hs => absurd hs List.not_mem_nil, le_rfl,
          show pcb.sndQueuelen.toNat ≤ 40 by omega⟩
      exact ((tTcpEnqueueLoop_data hn hq.mss hstart hloop).1.queue.ok seg hseg).queued
    · exact ⟨rfl, hpools, h⟩
  · exact ⟨rfl, hpools, h⟩

end

/-- The SYN is queued alike. -/
theorem tTcpEnqueue_syn_alike {pools pools' : Pools} (hpools : pools.Alike pools')
    {pcb pcb' : TcpPcb} (h : pcb.Alike pcb') (hunsent : ∀ seg ∈ pcb.unsent, seg.Queued)
    (opt : ByteMem) :
    let r := tTcpEnqueue pools pcb none 0 tcpSyn.toUInt8 false (some opt) 4
    let r' := tTcpEnqueue pools' pcb' none 0 tcpSyn.toUInt8 false (some opt) 4
    r.1 = r'.1 ∧ r.2.1.Alike r'.2.1 ∧ r.2.2.Alike r'.2.2 :=
  tTcpEnqueue_alike hpools h hunsent (a := ⟨none, tcpSyn.toUInt8, false, some opt, 4⟩)
    (.inl (by simp)) 0 fun _ hflags =>
      absurd hflags (show tcpSyn.toUInt8.toUInt16 &&& (tcpSyn ||| tcpFin) ≠ 0 by decide)

end TTcp
