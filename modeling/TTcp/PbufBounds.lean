import TTcp.Pbuf
import TTcp.Lib.Run

/-!
# TTcp.PbufBounds

Do pbufs stay inside their buffers?

The system of this module is the pool together with the live pbufs, driven by
any sequence of `t_pbuf_alloc`, `t_pbuf_header`, `t_pbuf_copy_data` and
`t_pbuf_cat` calls on live pbufs.  `PbufSys.Good` is the bounds invariant, and
`Fits` says of one call, in the state before it, that its lengths do not run
out of the buffer: the 16-bit sum of an allocation does not wrap, a header
pull takes no more than `len`, a concatenation ends inside the buffer.  None
of the three is checked by the code.

A call keeps the invariant exactly when it fits (`good_exec_iff`), so a run
keeps it throughout exactly when all of its calls fit.
-/

namespace TTcp

/-- The pool and the live pbufs. -/
structure PbufSys where
  pool : List Pbuf
  live : PbufId → Option Pbuf

inductive PbufOp where
  | alloc (offset length flags : UInt16)
  | header (i : PbufId) (increment : Int)
  | copyData (i : PbufId) (data : ByteMem) (size : Int)
  | cat (i j : PbufId)

/-- `t_pbuf_cat(p, p)`: `len` is already updated when it is read again for
`tot_len`. -/
def tPbufCatSelf (p : Pbuf) : Pbuf :=
  let p := p.memcpy (p.payload + p.len.toNat) p.payloadMem p.len.toNat
  let p := { p with len := p.len + p.len }
  { p with totLen := p.totLen + p.len }

namespace PbufSys

/-- The state after `t_pbuf_init`, whatever the pool memory holds. -/
def start (mem : PbufId → ByteMem) : PbufSys where
  pool := tPbufInit mem
  live := fun _ => none

/-- Replace a live pbuf. -/
def put (s : PbufSys) (p : Pbuf) : PbufSys := { s with live := Function.update s.live p.id (some p) }

/-- One call: whether it reports success, and the state after it. -/
def exec (s : PbufSys) : PbufOp → Bool × PbufSys
  | .alloc offset length flags => match tPbufAlloc s.pool offset length flags with
    | (some p, pool) => (true, { s with pool := pool }.put p)
    | (none, pool) => (false, { s with pool := pool })
  | .header i increment => match s.live i with
    | some p => if (tPbufHeader p increment).1 = 0 then (true, s.put (tPbufHeader p increment).2)
        else (false, s)
    | none => (false, s)
  | .copyData i data size => match s.live i with
    | some p => if (tPbufCopyData p data size).1 = 0 then
          (true, s.put (tPbufCopyData p data size).2)
        else (false, s)
    | none => (false, s)
  | .cat i j => match s.live i, s.live j with
    | some p, some p1 =>
        (true, s.put (if i = j then tPbufCatSelf p else tPbufCat p p1.payloadMem p1.len))
    | _, _ => (false, s)

def step (s : PbufSys) (op : PbufOp) : PbufSys := (s.exec op).2

end PbufSys

/-- `len = tot_len`, the payload lies inside the buffer, and no byte behind
the buffer was ever written. -/
structure Pbuf.InBounds (p : Pbuf) : Prop where
  len_eq : p.len = p.totLen
  payload_le : p.payload + p.len.toNat ≤ tPbufBufsize
  wrEnd_le : p.wrEnd ≤ tPbufBufsize

/-- The bounds invariant.  A live pbuf keeps its identity; free pbufs only
carry their history of writes. -/
structure PbufSys.Good (s : PbufSys) : Prop where
  live_ok : ∀ i p, s.live i = some p → p.id = i ∧ p.InBounds
  pool_ok : ∀ p ∈ s.pool, p.wrEnd ≤ tPbufBufsize

/-- The lengths of the call do not run out of the buffer. -/
def PbufSys.Fits (s : PbufSys) : PbufOp → Prop
  | .alloc offset length flags =>
      flags = tPbufFlagPool → s.pool ≠ [] → (length + offset).toNat ≤ tPbufBufsize →
        offset.toNat + length.toNat < 65536
  | .header i increment => ∀ p, s.live i = some p →
      0 ≤ p.payload + increment ∧ p.payload + increment < 1481 → increment ≤ p.len.toNat
  | .copyData _ _ _ => True
  | .cat i j => ∀ p p1, s.live i = some p → s.live j = some p1 →
      p.payload + p.len.toNat + p1.len.toNat ≤ tPbufBufsize ∧ (i = j → p.len = 0)

open PbufSys

/-! ## one pbuf at a time -/

/-- A fresh pbuf is in bounds exactly when the sum of its sizes did not wrap. -/
theorem inBounds_alloc_iff {pool pool' : List Pbuf} {offset length flags : UInt16} {p : Pbuf}
    (h : tPbufAlloc pool offset length flags = (some p, pool'))
    (hpool : ∀ q ∈ pool, q.wrEnd ≤ tPbufBufsize) :
    p.InBounds ↔ offset.toNat + length.toNat < 65536 := by
  obtain ⟨hlen, -, q, rfl, rfl⟩ := tPbufAlloc_eq_some h
  have hwr := hpool q List.mem_cons_self
  have ho := offset.toNat_lt
  have hl := length.toNat_lt
  rw [UInt16.toNat_add] at hlen
  constructor
  · intro hb
    have hp := hb.payload_le
    simp only [tPbufBufsize] at hp
    omega
  · intro hsum
    refine ⟨rfl, ?_, hwr⟩
    simp only [tPbufBufsize]
    omega

/-- Moving the payload pointer of an in-bounds pbuf keeps it in bounds exactly
when no more than `len` bytes are pulled. -/
theorem inBounds_header_iff {p : Pbuf} {increment : Int} (hp : p.InBounds)
    (h : (tPbufHeader p increment).1 = 0) :
    (tPbufHeader p increment).2.InBounds ↔ increment ≤ p.len.toNat := by
  obtain ⟨hlen, hpay, hwr⟩ := hp
  simp only [tPbufBufsize] at hpay
  rw [tPbufHeader_eq] at h ⊢
  split at h
  · next hmove =>
    rw [if_pos hmove]
    have hsub := toNat_sub_ofInt p.len increment
    constructor
    · intro hb
      have hb := hb.payload_le
      simp only [tPbufBufsize] at hb
      omega
    · intro hle
      refine ⟨by rw [hlen], ?_, hwr⟩
      simp only [tPbufBufsize]
      omega
  · simp at h

/-- A copy that `t_pbuf_copy_data` accepts stays inside. -/
theorem inBounds_copyData {p : Pbuf} {data : ByteMem} {size : Int} (hp : p.InBounds) :
    (tPbufCopyData p data size).2.InBounds := by
  obtain ⟨hlen, hpay, hwr⟩ := hp
  simp only [tPbufBufsize] at hpay hwr
  unfold tPbufCopyData
  split
  · exact ⟨hlen, by simpa using hpay, by simpa using hwr⟩
  · next hsize =>
    refine ⟨hlen, by simpa using hpay, ?_⟩
    simp only [Pbuf.memcpy, tPbufBufsize]
    rw [if_neg (by omega)]
    omega

/-- Appending keeps a pbuf in bounds exactly when the appended bytes end
inside the buffer. -/
theorem inBounds_cat_iff {p : Pbuf} {src : ByteMem} {len1 : UInt16} (hp : p.InBounds)
    (h1 : len1.toNat ≤ 1514) :
    (tPbufCat p src len1).InBounds ↔ p.payload + p.len.toNat + len1.toNat ≤ tPbufBufsize := by
  obtain ⟨hlen, hpay, hwr⟩ := hp
  simp only [tPbufBufsize] at hpay hwr
  have hadd : (p.len + len1).toNat = p.len.toNat + len1.toNat := by
    rw [UInt16.toNat_add]; omega
  constructor
  · intro hb
    have hb := hb.payload_le
    simp only [tPbufCat, Pbuf.memcpy_payload, Pbuf.memcpy_len, hadd] at hb
    omega
  · intro hle
    simp only [tPbufBufsize] at hle
    refine ⟨?_, ?_, ?_⟩
    · simp only [tPbufCat, Pbuf.memcpy_len, Pbuf.memcpy_totLen, hlen]
    · simp only [tPbufCat, Pbuf.memcpy_payload, Pbuf.memcpy_len, hadd, tPbufBufsize]
      omega
    · simp only [tPbufCat, Pbuf.memcpy, tPbufBufsize]
      split <;> omega

/-- Appending a pbuf to itself breaks `len = tot_len`, unless it is empty. -/
theorem inBounds_catSelf_iff {p : Pbuf} (hp : p.InBounds) :
    (tPbufCatSelf p).InBounds ↔ p.len = 0 := by
  obtain ⟨hlen, hpay, hwr⟩ := hp
  simp only [tPbufBufsize] at hpay
  constructor
  · intro hb
    have heq := congrArg UInt16.toNat hb.len_eq
    simp only [tPbufCatSelf, Pbuf.memcpy_len, Pbuf.memcpy_totLen, ← hlen, UInt16.toNat_add] at heq
    apply UInt16.toNat_inj.1
    simp only [UInt16.toNat_zero]
    omega
  · intro hz
    have hz' : p.len.toNat = 0 := by rw [hz]; rfl
    refine ⟨?_, ?_, ?_⟩
    · simp [tPbufCatSelf, ← hlen, hz]
    · simp [tPbufCatSelf, hz]
      omega
    · simpa [tPbufCatSelf, Pbuf.memcpy, hz'] using hwr

/-! ## one call -/

theorem tPbufHeader_fst_eq_zero_iff (p : Pbuf) (increment : Int) :
    (tPbufHeader p increment).1 = 0 ↔
      0 ≤ (p.payload : Int) + increment ∧ (p.payload : Int) + increment < 1481 := by
  rw [tPbufHeader_eq]
  split <;> simp_all

/-- Replacing a live pbuf of a good state by another of the same identity. -/
theorem good_put_iff {s : PbufSys} {p : Pbuf} (hs : s.Good) : (s.put p).Good ↔ p.InBounds := by
  constructor
  · intro h
    exact (h.live_ok p.id p (by simp [PbufSys.put])).2
  · intro hp
    refine ⟨fun i q hq => ?_, hs.pool_ok⟩
    by_cases hi : i = p.id
    · subst hi
      have : p = q := by simpa [PbufSys.put] using hq
      exact this ▸ ⟨rfl, hp⟩
    · simp only [PbufSys.put, Function.update_of_ne hi] at hq
      exact hs.live_ok i q hq

/-- A call keeps the bounds invariant exactly when it fits. -/
theorem good_exec_iff {s : PbufSys} (op : PbufOp) (hs : s.Good) : (s.step op).Good ↔ s.Fits op := by
  cases op with
  | alloc offset length flags =>
      cases ha : tPbufAlloc s.pool offset length flags with
      | mk r pool =>
      cases r with
      | none =>
          have hpool : pool = s.pool := tPbufAlloc_eq_none ha
          have hsame : s.step (.alloc offset length flags) = s := by
            simp [PbufSys.step, PbufSys.exec, ha, hpool]
          rw [hsame]
          refine iff_of_true hs fun hfl hne hlen => ?_
          subst hfl
          rw [tPbufAlloc_pool s.pool _ _ hlen] at ha
          cases hp : s.pool with
          | nil => exact absurd hp hne
          | cons q rest => rw [hp] at ha; simp at ha
      | some p =>
          have hgood : ({ s with pool := pool } : PbufSys).Good := by
            obtain ⟨-, -, q, hq, -⟩ := tPbufAlloc_eq_some ha
            exact ⟨hs.live_ok, fun r hr => hs.pool_ok r (hq ▸ List.mem_cons_of_mem q hr)⟩
          have hstep : s.step (.alloc offset length flags) = { s with pool := pool }.put p := by
            simp [PbufSys.step, PbufSys.exec, ha]
          rw [hstep, good_put_iff hgood, inBounds_alloc_iff ha hs.pool_ok]
          obtain ⟨hlen, hfl, q, hq, -⟩ := tPbufAlloc_eq_some ha
          exact ⟨fun h _ _ _ => h, fun h => h hfl (by simp [hq]) hlen⟩
  | header i increment =>
      cases hi : s.live i with
      | none =>
          refine iff_of_true (by simpa [PbufSys.step, PbufSys.exec, hi] using hs) fun p hp => ?_
          rw [hi] at hp
          contradiction
      | some p =>
          have hfits : s.Fits (.header i increment) ↔
              ((tPbufHeader p increment).1 = 0 → increment ≤ p.len.toNat) := by
            rw [tPbufHeader_fst_eq_zero_iff]
            exact ⟨fun h => h p hi, fun h q hq => by
              rw [hi] at hq
              obtain rfl := Option.some.inj hq
              exact h⟩
          rw [hfits]
          by_cases hret : (tPbufHeader p increment).1 = 0
          · simp only [PbufSys.step, PbufSys.exec, hi, hret, ↓reduceIte, true_imp_iff]
            rw [good_put_iff hs, inBounds_header_iff (hs.live_ok i p hi).2 hret]
          · simpa [PbufSys.step, PbufSys.exec, hi, hret] using hs
  | copyData i data size =>
      refine iff_of_true ?_ trivial
      cases hi : s.live i with
      | none => simpa [PbufSys.step, PbufSys.exec, hi] using hs
      | some p =>
          by_cases hret : (tPbufCopyData p data size).1 = 0
          · simp only [PbufSys.step, PbufSys.exec, hi, hret, ↓reduceIte]
            rw [good_put_iff hs]
            exact inBounds_copyData (hs.live_ok i p hi).2
          · simpa [PbufSys.step, PbufSys.exec, hi, hret] using hs
  | cat i j =>
      cases hi : s.live i with
      | none =>
          refine iff_of_true (by simpa [PbufSys.step, PbufSys.exec, hi] using hs) fun p p1 hp => ?_
          rw [hi] at hp
          contradiction
      | some p =>
      cases hj : s.live j with
      | none =>
          refine iff_of_true (by simpa [PbufSys.step, PbufSys.exec, hi, hj] using hs)
            fun q p1 _ hp1 => ?_
          rw [hj] at hp1
          contradiction
      | some p1 =>
          have hp := (hs.live_ok i p hi).2
          have hp1 := (hs.live_ok j p1 hj).2
          have hfits : s.Fits (.cat i j) ↔
              p.payload + p.len.toNat + p1.len.toNat ≤ tPbufBufsize ∧ (i = j → p.len = 0) := by
            exact ⟨fun h => h p p1 hi hj, fun h q q1 hq hq1 => by
              rw [hi] at hq
              rw [hj] at hq1
              obtain rfl := Option.some.inj hq
              obtain rfl := Option.some.inj hq1
              exact h⟩
          rw [hfits]
          simp only [PbufSys.step, PbufSys.exec, hi, hj]
          rw [good_put_iff hs]
          by_cases hij : i = j
          · subst hij
            obtain rfl : p = p1 := Option.some.inj (hi.symm.trans hj)
            rw [if_pos rfl, inBounds_catSelf_iff hp]
            refine ⟨fun hz => ⟨?_, fun _ => hz⟩, fun h => h.2 rfl⟩
            have := hp.payload_le
            simpa [hz] using this
          · have hle : p1.len.toNat ≤ 1514 := by
              have := hp1.payload_le
              simp only [tPbufBufsize] at this
              omega
            rw [if_neg hij, inBounds_cat_iff hp hle]
            exact ⟨fun h => ⟨h, fun h' => absurd h' hij⟩, And.left⟩

/-! ## runs -/

theorem good_start (mem : PbufId → ByteMem) : (start mem).Good := by
  refine ⟨fun i p hp => by simp [PbufSys.start] at hp, fun p hp => ?_⟩
  simp only [PbufSys.start, tPbufInit, List.mem_map] at hp
  obtain ⟨i, -, rfl⟩ := hp
  simp

/-- **Bounds**: from `t_pbuf_init` on, whatever the pool memory holds, every
live pbuf stays inside its buffer after every call of a run exactly when every
call of the run fits. -/
theorem throughout_good_iff (mem : PbufId → ByteMem) (ops : List PbufOp) :
    Run.Throughout PbufSys.step Good (start mem) ops ↔
      Run.Along PbufSys.step Fits (start mem) ops :=
  Run.throughout_iff_along (fun _ op hs => good_exec_iff op hs) (good_start mem)

/-- `t_pbuf_alloc(65535, 1, T_PBUF_FLAG_POOL)` succeeds, 64 KiB behind its
buffer; and on a pbuf of length 10, `t_pbuf_header(p, 11)` succeeds and leaves
it 65535 bytes long. -/
theorem not_throughout_good :
    ¬ Run.Throughout PbufSys.step Good (start fun _ _ => 0) [.alloc 65535 1 1] ∧
      ¬ Run.Throughout PbufSys.step Good (start fun _ _ => 0) [.alloc 0 10 1, .header 0 11] := by
  constructor
  · intro h
    obtain ⟨-, hb⟩ := h.2.live_ok 0 _ rfl
    exact absurd hb.payload_le (by decide)
  · intro h
    obtain ⟨-, hb⟩ := h.2.2.live_ok 0 _ rfl
    exact absurd hb.payload_le (by decide)

end TTcp
