import TTcp.Basic
import TTcp.Lib.ByteMem

/-!
# TTcp.Pbuf

Packet buffers (`core/t_pbuf.c`).

A pbuf is a small header followed by its own `T_PBUF_BUFSIZE`-byte buffer.
Offsets are counted from the start of that buffer, so `payload` is the
distance from there to the current payload pointer and `mem` the memory seen
from there: offsets below `T_PBUF_BUFSIZE` are the buffer, the others whatever
lies behind it.  The pool is the list of free pbufs in free-list order, each
with the bytes its last user left in it.

Nobody in the stack links live pbufs together: `t_pbuf_alloc` clears `next`
and `t_pbuf_cat` copies.  Where the code walks a chain the model takes the
list of its pbufs.
-/

namespace TTcp

/-- The place of a pbuf in `pbuf_pool_memory`. -/
abbrev PbufId := Fin tPbufPoolSize

@[simp] def tPbufFlagPool : UInt16 := 1

/-- `struct t_pbuf` with its buffer.  `wrEnd` and `rdEnd` record the accesses:
the end of the furthest byte of `mem` written so far, and of the furthest
byte read as part of a received packet. -/
structure Pbuf where
  id : PbufId
  payload : Nat
  totLen : UInt16
  len : UInt16
  ref : UInt16
  mem : ByteMem
  wrEnd : Nat
  rdEnd : Nat

namespace Pbuf

/-- `t_pbuf_init` marks every pbuf as a pool pbuf, and nothing writes the
field again. -/
def flags (_ : Pbuf) : UInt16 := tPbufFlagPool

/-- The bytes from the payload pointer on, `len` of them. -/
def data (p : Pbuf) : List UInt8 := p.mem.slice p.payload p.len.toNat

/-- The memory seen from the payload pointer. -/
def payloadMem (p : Pbuf) : ByteMem := p.mem.shift p.payload

/-! ## accesses to the buffer -/

def set8 (p : Pbuf) (o : Nat) (v : UInt8) : Pbuf :=
  { p with mem := Function.update p.mem o v, wrEnd := max p.wrEnd (o + 1) }

def set16 (p : Pbuf) (o : Nat) (v : UInt16) : Pbuf :=
  { p with mem := p.mem.set16 o v, wrEnd := max p.wrEnd (o + 2) }

def set32 (p : Pbuf) (o : Nat) (v : UInt32) : Pbuf :=
  { p with mem := p.mem.set32 o v, wrEnd := max p.wrEnd (o + 4) }

/-- `memcpy` of `n` bytes into the buffer; copying nothing touches nothing. -/
def memcpy (p : Pbuf) (o : Nat) (src : ByteMem) (n : Nat) : Pbuf :=
  { p with mem := p.mem.copy o src n, wrEnd := if n = 0 then p.wrEnd else max p.wrEnd (o + n) }

/-- The bytes below `o` count as read. -/
def see (p : Pbuf) (o : Nat) : Pbuf := { p with rdEnd := max p.rdEnd o }

/-- Read a byte of the received packet. -/
def rd8 (p : Pbuf) (o : Nat) : UInt8 × Pbuf := (p.mem o, p.see (o + 1))

/-- Read a 16-bit field of the received packet. -/
def rd16 (p : Pbuf) (o : Nat) : UInt16 × Pbuf := (p.mem.get16 o, p.see (o + 2))

/-- Read a 32-bit field of the received packet. -/
def rd32 (p : Pbuf) (o : Nat) : UInt32 × Pbuf := (p.mem.get32 o, p.see (o + 4))

section
variable (p : Pbuf) (o n : Nat) (b : UInt8) (v : UInt16) (w : UInt32) (src : ByteMem)

@[simp] theorem set8_id : (p.set8 o b).id = p.id := rfl
@[simp] theorem set8_payload : (p.set8 o b).payload = p.payload := rfl
@[simp] theorem set8_totLen : (p.set8 o b).totLen = p.totLen := rfl
@[simp] theorem set8_len : (p.set8 o b).len = p.len := rfl
@[simp] theorem set8_ref : (p.set8 o b).ref = p.ref := rfl
@[simp] theorem set8_mem : (p.set8 o b).mem = Function.update p.mem o b := rfl
@[simp] theorem set8_rdEnd : (p.set8 o b).rdEnd = p.rdEnd := rfl
@[simp] theorem set16_id : (p.set16 o v).id = p.id := rfl
@[simp] theorem set16_payload : (p.set16 o v).payload = p.payload := rfl
@[simp] theorem set16_totLen : (p.set16 o v).totLen = p.totLen := rfl
@[simp] theorem set16_len : (p.set16 o v).len = p.len := rfl
@[simp] theorem set16_ref : (p.set16 o v).ref = p.ref := rfl
@[simp] theorem set16_mem : (p.set16 o v).mem = p.mem.set16 o v := rfl
@[simp] theorem set16_rdEnd : (p.set16 o v).rdEnd = p.rdEnd := rfl
@[simp] theorem set32_id : (p.set32 o w).id = p.id := rfl
@[simp] theorem set32_payload : (p.set32 o w).payload = p.payload := rfl
@[simp] theorem set32_totLen : (p.set32 o w).totLen = p.totLen := rfl
@[simp] theorem set32_len : (p.set32 o w).len = p.len := rfl
@[simp] theorem set32_ref : (p.set32 o w).ref = p.ref := rfl
@[simp] theorem set32_mem : (p.set32 o w).mem = p.mem.set32 o w := rfl
@[simp] theorem set32_rdEnd : (p.set32 o w).rdEnd = p.rdEnd := rfl
@[simp] theorem memcpy_id : (p.memcpy o src n).id = p.id := rfl
@[simp] theorem memcpy_payload : (p.memcpy o src n).payload = p.payload := rfl
@[simp] theorem memcpy_totLen : (p.memcpy o src n).totLen = p.totLen := rfl
@[simp] theorem memcpy_len : (p.memcpy o src n).len = p.len := rfl
@[simp] theorem memcpy_ref : (p.memcpy o src n).ref = p.ref := rfl
@[simp] theorem memcpy_mem : (p.memcpy o src n).mem = p.mem.copy o src n := rfl
@[simp] theorem memcpy_rdEnd : (p.memcpy o src n).rdEnd = p.rdEnd := rfl
@[simp] theorem see_id : (p.see o).id = p.id := rfl
@[simp] theorem see_payload : (p.see o).payload = p.payload := rfl
@[simp] theorem see_totLen : (p.see o).totLen = p.totLen := rfl
@[simp] theorem see_len : (p.see o).len = p.len := rfl
@[simp] theorem see_ref : (p.see o).ref = p.ref := rfl
@[simp] theorem see_mem : (p.see o).mem = p.mem := rfl
@[simp] theorem see_rdEnd : (p.see o).rdEnd = max p.rdEnd o := rfl
@[simp] theorem rd8_fst : (p.rd8 o).1 = p.mem o := rfl
@[simp] theorem rd8_snd : (p.rd8 o).2 = p.see (o + 1) := rfl
@[simp] theorem rd16_fst : (p.rd16 o).1 = p.mem.get16 o := rfl
@[simp] theorem rd16_snd : (p.rd16 o).2 = p.see (o + 2) := rfl
@[simp] theorem rd32_fst : (p.rd32 o).1 = p.mem.get32 o := rfl
@[simp] theorem rd32_snd : (p.rd32 o).2 = p.see (o + 4) := rfl

end

/-! ## frames -/

/-- `q` is `p` after writes between `lo` and `hi`. -/
structure WritesOnly (p q : Pbuf) (lo hi : Nat) : Prop where
  id : q.id = p.id
  payload : q.payload = p.payload
  totLen : q.totLen = p.totLen
  len : q.len = p.len
  ref : q.ref = p.ref
  rdEnd : q.rdEnd = p.rdEnd
  mem : ∀ i, i < lo ∨ hi ≤ i → q.mem i = p.mem i

namespace WritesOnly

variable {p q r : Pbuf} {lo hi lo' hi' o : Nat}

theorem refl (p : Pbuf) (lo hi : Nat) : p.WritesOnly p lo hi :=
  ⟨rfl, rfl, rfl, rfl, rfl, rfl, fun _ _ => rfl⟩

theorem trans (h : p.WritesOnly q lo hi) (h' : q.WritesOnly r lo hi) : p.WritesOnly r lo hi where
  id := h'.id.trans h.id
  payload := h'.payload.trans h.payload
  totLen := h'.totLen.trans h.totLen
  len := h'.len.trans h.len
  ref := h'.ref.trans h.ref
  rdEnd := h'.rdEnd.trans h.rdEnd
  mem i hi := (h'.mem i hi).trans (h.mem i hi)

theorem mono (h : p.WritesOnly q lo hi) (hlo : lo' ≤ lo) (hhi : hi ≤ hi') :
    p.WritesOnly q lo' hi' :=
  { h with mem := fun i hi => h.mem i (by omega) }

theorem set8 (p : Pbuf) (o : Nat) (v : UInt8) : p.WritesOnly (p.set8 o v) o (o + 1) :=
  ⟨rfl, rfl, rfl, rfl, rfl, rfl, fun _ _ => Function.update_of_ne (by omega) _ _⟩

theorem set16 (p : Pbuf) (o : Nat) (v : UInt16) : p.WritesOnly (p.set16 o v) o (o + 2) :=
  ⟨rfl, rfl, rfl, rfl, rfl, rfl, fun _ hi => ByteMem.set16_apply_of_disjoint _ _ hi⟩

theorem set32 (p : Pbuf) (o : Nat) (v : UInt32) : p.WritesOnly (p.set32 o v) o (o + 4) :=
  ⟨rfl, rfl, rfl, rfl, rfl, rfl, fun _ hi => ByteMem.set32_apply_of_disjoint _ _ hi⟩

theorem memcpy (p : Pbuf) (o : Nat) (src : ByteMem) (n : Nat) :
    p.WritesOnly (p.memcpy o src n) o (o + n) :=
  ⟨rfl, rfl, rfl, rfl, rfl, rfl, fun _ hi => ByteMem.copy_apply_of_disjoint _ _ hi⟩

/-- Fields outside the written range keep their value. -/
theorem get16 (h : p.WritesOnly q lo hi) (ho : o + 2 ≤ lo ∨ hi ≤ o) :
    q.mem.get16 o = p.mem.get16 o :=
  ByteMem.get16_congr fun _ _ => h.mem _ (by omega)

theorem get32 (h : p.WritesOnly q lo hi) (ho : o + 4 ≤ lo ∨ hi ≤ o) :
    q.mem.get32 o = p.mem.get32 o :=
  ByteMem.get32_congr fun _ _ => h.mem _ (by omega)

theorem slice (h : p.WritesOnly q lo hi) {n : Nat} (ho : o + n ≤ lo ∨ hi ≤ o) :
    q.mem.slice o n = p.mem.slice o n :=
  ByteMem.slice_congr fun _ _ => h.mem _ (by omega)

end WritesOnly

/-! ## pbufs that agree -/

/-- The two pbufs stand at the same place of the same packet, and hold the same
bytes at the offsets of `S`. -/
structure AgreeOn (S : Nat → Prop) (p p' : Pbuf) : Prop where
  payload : p.payload = p'.payload
  totLen : p.totLen = p'.totLen
  len : p.len = p'.len
  mem : ByteMem.AgreeOn S p.mem p'.mem

namespace AgreeOn

variable {S T : Nat → Prop} {p p' : Pbuf} (h : AgreeOn S p p')
include h

theorem mono (hT : ∀ i, T i → S i) : AgreeOn T p p' := { h with mem := h.mem.mono hT }

theorem see (o o' : Nat) : AgreeOn S (p.see o) (p'.see o') := { h with }

/-- Writing the same makes pbufs agree where it is written. -/
theorem set16 (o : Nat) (v : UInt16) :
    AgreeOn (fun i => S i ∨ (o ≤ i ∧ i < o + 2)) (p.set16 o v) (p'.set16 o v) :=
  { h with mem := h.mem.set16 v fun _ hi => hi }

/-- Wherever it is written, they go on agreeing. -/
theorem set16_same (o : Nat) {v v' : UInt16} (hv : v = v') :
    AgreeOn S (p.set16 o v) (p'.set16 o v') := hv ▸ (h.set16 o v).mono fun _ => Or.inl

theorem set32_same (o : Nat) {v v' : UInt32} (hv : v = v') :
    AgreeOn S (p.set32 o v) (p'.set32 o v') :=
  { h with mem := hv ▸ h.mem.set32 v fun _ => Or.inl }

theorem memcpy_same (o : Nat) (src : ByteMem) (n : Nat) :
    AgreeOn S (p.memcpy o src n) (p'.memcpy o src n) :=
  { h with mem := h.mem.copy (fun _ _ => rfl) fun _ => Or.inl }

end AgreeOn

end Pbuf

/-! ## allocation -/

/-- `t_pbuf_init`: the free list, whatever the pool memory holds. -/
def tPbufInit (mem : PbufId → ByteMem) : List Pbuf :=
  (List.finRange tPbufPoolSize).map fun i =>
    { id := i, payload := 0, totLen := 1514, len := 1514, ref := 0, mem := mem i, wrEnd := 0,
      rdEnd := 0 }

/-- `t_pbuf_alloc`, with the 16-bit sum of its size check. -/
def tPbufAlloc (pool : List Pbuf) (offset length flags : UInt16) : Option Pbuf × List Pbuf :=
  let remLen := length + offset
  if remLen.toNat > tPbufBufsize then (none, pool)
  else if flags = tPbufFlagPool then
    match pool with
    | [] => (none, [])
    | p :: rest =>
        (some { p with ref := 1, payload := offset.toNat, totLen := length, len := length }, rest)
  else (none, pool)

/-- The loop of `t_pbuf_free` over the rest of the chain; `count` is its
counter, which the walk over the free list reuses. -/
def tPbufFreeLoop (pool : List Pbuf) (count : Nat) : List Pbuf → Nat × List Pbuf
  | [] => (count, pool)
  | p :: chain =>
      let p := { p with ref := p.ref - 1 }
      if p.ref = 0 ∧ p.flags = tPbufFlagPool then
        tPbufFreeLoop (p :: pool) (p :: pool).length chain
      else tPbufFreeLoop pool (count + 1) chain

/-- `t_pbuf_free` of a chain. -/
def tPbufFree (pool : List Pbuf) (chain : List Pbuf) : Nat × List Pbuf :=
  tPbufFreeLoop pool 0 chain

/-! ## the payload pointer -/

/-- `t_pbuf_header`: move the payload pointer by `increment`.  The bounds are
taken from the start of the pbuf's header, not of its buffer. -/
def tPbufHeader (p : Pbuf) (increment : Int) : Int × Pbuf :=
  if p.flags = tPbufFlagPool then
    let payload := (p.payload : Int) + increment
    if 0 ≤ payload ∧ payload + sizeofTPbuf < tPbufBufsize - 1 then
      (0, { p with
        payload := payload.toNat
        totLen := p.totLen - UInt16.ofInt increment
        len := p.len - UInt16.ofInt increment })
    else (-1, p)
  else (-1, p)

/-- `t_pbuf_copy_data`. -/
def tPbufCopyData (p : Pbuf) (data : ByteMem) (size : Int) : Int × Pbuf :=
  if size > p.len.toNat ∨ size < 1 then (-1, p)
  else (0, p.memcpy p.payload data size.toNat)

/-- `t_pbuf_cat`: append the `len1` bytes at `payload1`, the second pbuf's
payload. -/
def tPbufCat (p : Pbuf) (payload1 : ByteMem) (len1 : UInt16) : Pbuf :=
  let p := p.memcpy (p.payload + p.len.toNat) payload1 len1.toNat
  { p with len := p.len + len1, totLen := p.totLen + len1 }

/-! ## what the operations do -/

/-- Subtracting a signed increment from a 16-bit length. -/
theorem toNat_sub_ofInt (l : UInt16) (i : Int) :
    (l - UInt16.ofInt i).toNat = ((l.toNat - i) % 65536).toNat := by
  have hl := l.toNat_lt
  rw [UInt16.toNat_sub, UInt16.ofInt, UInt16.toNat_ofNat']
  omega

/-- A pool allocation whose (wrapped) size fits takes the first free pbuf, if
there is one. -/
theorem tPbufAlloc_pool (pool : List Pbuf) (offset length : UInt16)
    (h : (length + offset).toNat ≤ 1514) :
    tPbufAlloc pool offset length tPbufFlagPool = match pool with
      | [] => (none, [])
      | q :: rest =>
          (some { q with ref := 1, payload := offset.toNat, totLen := length, len := length },
            rest) := by
  have hgt : ¬ (length + offset).toNat > tPbufBufsize := by simpa using h
  simp only [tPbufAlloc, if_neg hgt, ↓reduceIte]

/-- A request whose (wrapped) size does not fit, or not for the pool, fails. -/
theorem tPbufAlloc_refused (pool : List Pbuf) {offset length flags : UInt16}
    (h : 1514 < (length + offset).toNat ∨ flags ≠ tPbufFlagPool) :
    tPbufAlloc pool offset length flags = (none, pool) := by
  by_cases hlen : (length + offset).toNat > tPbufBufsize
  · simp only [tPbufAlloc, if_pos hlen]
  · have hfl : flags ≠ tPbufFlagPool := h.resolve_left (by simpa using hlen)
    simp only [tPbufAlloc, if_neg hlen, if_neg hfl]

/-- A successful allocation takes the first free pbuf. -/
theorem tPbufAlloc_eq_some {pool pool' : List Pbuf} {offset length flags : UInt16} {p : Pbuf}
    (h : tPbufAlloc pool offset length flags = (some p, pool')) :
    (length + offset).toNat ≤ 1514 ∧ flags = tPbufFlagPool ∧ ∃ q, pool = q :: pool' ∧
      p = { q with ref := 1, payload := offset.toNat, totLen := length, len := length } := by
  by_cases hok : (length + offset).toNat ≤ 1514 ∧ flags = tPbufFlagPool
  · obtain ⟨hlen, rfl⟩ := hok
    rw [tPbufAlloc_pool pool offset length hlen] at h
    cases pool with
    | nil => simp at h
    | cons q rest =>
        simp only [Prod.mk.injEq, Option.some.injEq] at h
        obtain ⟨rfl, rfl⟩ := h
        exact ⟨hlen, rfl, q, rfl, rfl⟩
  · rw [tPbufAlloc_refused pool (by rw [not_and_or] at hok; simpa using hok)] at h
    simp at h

/-- A failing allocation leaves the pool as it was. -/
theorem tPbufAlloc_eq_none {pool pool' : List Pbuf} {offset length flags : UInt16}
    (h : tPbufAlloc pool offset length flags = (none, pool')) : pool' = pool := by
  by_cases hok : (length + offset).toNat ≤ 1514 ∧ flags = tPbufFlagPool
  · obtain ⟨hlen, rfl⟩ := hok
    rw [tPbufAlloc_pool pool offset length hlen] at h
    cases pool <;> simp_all
  · rw [tPbufAlloc_refused pool (by rw [not_and_or] at hok; simpa using hok)] at h
    simp_all

/-- A pbuf with one reference goes back on the free list. -/
theorem tPbufFree_single (pool : List Pbuf) {p : Pbuf} (h : p.ref = 1) :
    tPbufFree pool [p] = (pool.length + 1, { p with ref := 0 } :: pool) := by
  simp [tPbufFree, tPbufFreeLoop, Pbuf.flags, h]

/-- The pointer moves exactly when it stays in the range the code allows. -/
theorem tPbufHeader_eq (p : Pbuf) (increment : Int) : tPbufHeader p increment =
    if 0 ≤ (p.payload : Int) + increment ∧ (p.payload : Int) + increment < 1481 then
      (0, { p with
        payload := ((p.payload : Int) + increment).toNat
        totLen := p.totLen - UInt16.ofInt increment
        len := p.len - UInt16.ofInt increment })
    else (-1, p) := by
  unfold tPbufHeader
  rw [if_pos (by rfl)]
  have hiff : (0 ≤ (p.payload : Int) + increment ∧
      (p.payload : Int) + increment + sizeofTPbuf < tPbufBufsize - 1) ↔
      (0 ≤ (p.payload : Int) + increment ∧ (p.payload : Int) + increment < 1481) := by
    simp only [sizeofTPbuf, tPbufBufsize]
    omega
  simp only [hiff]

/-- Moving the pointer leaves the memory alone, whatever comes of it. -/
@[simp] theorem tPbufHeader_mem (p : Pbuf) (i : Int) : (tPbufHeader p i).2.mem = p.mem := by
  rw [tPbufHeader_eq]; split <;> rfl

@[simp] theorem tPbufHeader_id (p : Pbuf) (i : Int) : (tPbufHeader p i).2.id = p.id := by
  rw [tPbufHeader_eq]; split <;> rfl

@[simp] theorem tPbufHeader_ref (p : Pbuf) (i : Int) : (tPbufHeader p i).2.ref = p.ref := by
  rw [tPbufHeader_eq]; split <;> rfl

@[simp] theorem tPbufHeader_rdEnd (p : Pbuf) (i : Int) : (tPbufHeader p i).2.rdEnd = p.rdEnd := by
  rw [tPbufHeader_eq]; split <;> rfl

@[simp] theorem tPbufHeader_wrEnd (p : Pbuf) (i : Int) : (tPbufHeader p i).2.wrEnd = p.wrEnd := by
  rw [tPbufHeader_eq]; split <;> rfl

/-- The payload pointers of pbufs that agree move together. -/
theorem Pbuf.AgreeOn.header {S : Nat → Prop} {p p' : Pbuf} (h : Pbuf.AgreeOn S p p') (i : Int) :
    Pbuf.AgreeOn S (tPbufHeader p i).2 (tPbufHeader p' i).2 := by
  rw [tPbufHeader_eq, tPbufHeader_eq, h.payload]
  split
  · exact ⟨rfl, by simp only [h.totLen], by simp only [h.len], h.mem⟩
  · exact h

/-- Subtracting a negative increment adds. -/
theorem sub_ofInt_neg (l : UInt16) (n : Nat) :
    l - UInt16.ofInt (-n) = l + UInt16.ofNat n := by
  have hl := l.toNat_lt
  apply UInt16.toNat_inj.1
  rw [toNat_sub_ofInt, UInt16.toNat_add, UInt16.toNat_ofNat']
  omega

theorem ofInt_natCast (n : Nat) : UInt16.ofInt n = UInt16.ofNat n := by
  apply UInt16.toNat_inj.1
  rw [UInt16.ofInt, UInt16.toNat_ofNat', UInt16.toNat_ofNat']
  omega

/-- Pulling a header of `n` bytes. -/
theorem tPbufHeader_pull (p : Pbuf) {n : Nat} (h : p.payload + n < 1481) :
    tPbufHeader p n = (0, { p with
      payload := p.payload + n
      totLen := p.totLen - UInt16.ofNat n
      len := p.len - UInt16.ofNat n }) := by
  rw [tPbufHeader_eq, if_pos (by omega), ofInt_natCast]
  rfl

/-- Pushing a header of `n` bytes into the headroom. -/
theorem tPbufHeader_push (p : Pbuf) {n : Nat} (h : n ≤ p.payload) (h' : p.payload - n < 1481) :
    tPbufHeader p (-n) = (0, { p with
      payload := p.payload - n
      totLen := p.totLen + UInt16.ofNat n
      len := p.len + UInt16.ofNat n }) := by
  rw [tPbufHeader_eq, if_pos (by omega), sub_ofInt_neg, sub_ofInt_neg]
  have : ((p.payload : Int) + -n).toNat = p.payload - n := by omega
  rw [this]

end TTcp
