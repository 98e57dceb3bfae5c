import TTcp.Memp
import TTcp.Pbuf

/-!
# TTcp.PbufPool

The pool of packet buffers (`core/t_pbuf.c`) as bytes in `pbuf_pool_memory`.

`TTcp.Pbuf` takes the free pbufs as a list.  Here they are what the code makes
of them: thirty headers carved out of one array, each with its buffer behind it,
and linked by pointers that are stored in the headers themselves.  `t_pbuf_alloc`
and `t_pbuf_free` walk the whole free list, so they return only if it ends.

A pbuf that is freed goes back together with whatever its `next` leads to.  That
this is never a pbuf of the pool is the invariant (`PbufInv.live`).
-/

namespace TTcp

open PtrList

/-! ## the headers -/

/-- The fields of a `struct t_pbuf`. -/
structure PbufHdr where
  next : Nat
  payload : Nat
  totLen : UInt16
  len : UInt16
  flags : UInt16
  ref : UInt16
deriving DecidableEq, Repr

/-- The `struct t_pbuf` at `p`. -/
def pbufHdr (mem : ByteMem) (p : Nat) : PbufHdr where
  next := (mem.get64 p).toNat
  payload := (mem.get64 (p + 8)).toNat
  totLen := mem.get16 (p + 16)
  len := mem.get16 (p + 18)
  flags := mem.get16 (p + 20)
  ref := mem.get16 (p + 22)

/-- `p->next = q`. -/
def pbufSetNext (mem : ByteMem) (p q : Nat) : ByteMem := mem.set64 p (UInt64.ofNat q)

/-- `p->payload = payload`. -/
def pbufSetPayload (mem : ByteMem) (p payload : Nat) : ByteMem :=
  mem.set64 (p + 8) (UInt64.ofNat payload)

/-- `p->tot_len = n`. -/
def pbufSetTotLen (mem : ByteMem) (p : Nat) (n : UInt16) : ByteMem := mem.set16 (p + 16) n

/-- `p->len = n`. -/
def pbufSetLen (mem : ByteMem) (p : Nat) (n : UInt16) : ByteMem := mem.set16 (p + 18) n

/-- `p->flags = flags`. -/
def pbufSetFlags (mem : ByteMem) (p : Nat) (flags : UInt16) : ByteMem := mem.set16 (p + 20) flags

/-- `p->ref = n`. -/
def pbufSetRef (mem : ByteMem) (p : Nat) (n : UInt16) : ByteMem := mem.set16 (p + 22) n

/-! ## the calls -/

/-- The memory, and `pbuf_pool`.  A null pointer is address 0. -/
structure PbufPool where
  mem : ByteMem
  pbufPool : Nat

namespace PbufPool

/-- A header and its buffer. -/
def slot : Nat := tPbufBufsize + sizeofTPbuf

/-- One round of the loop of `t_pbuf_init`. -/
def initRound (mem : ByteMem) (p : Nat) : ByteMem :=
  let mem := pbufSetNext mem p (p + tPbufBufsize + sizeofTPbuf)
  let mem := pbufSetTotLen mem p 1514
  let mem := pbufSetLen mem p 1514
  let mem := pbufSetPayload mem p (p + sizeofTPbuf)
  pbufSetFlags mem p tPbufFlagPool

/-- The loop of `t_pbuf_init`, which goes from header to header through the link
just written.  `q` is the last one. -/
def initLoop : Nat → ByteMem → Nat → Nat → ByteMem × Nat
  | 0, mem, _, q => (mem, q)
  | n + 1, mem, p, _ => initLoop n (initRound mem p) (pbufHdr (initRound mem p) p).next p

/-- `t_pbuf_init`, with `pbuf_pool_memory` at `base`. -/
def tPbufInit (base : Nat) (s : PbufPool) : PbufPool :=
  let (mem, q) := initLoop tPbufPoolSize s.mem base 0
  { mem := pbufSetNext mem q 0, pbufPool := base }

/-- More rounds than there are pointers. -/
abbrev rounds : Nat := 2 ^ 64 + 1

/-- One round of the walk over the free list. -/
def countRound (mem : ByteMem) : Nat × Nat → Loop.Step (Nat × Nat) Nat
  | (q, count) => if q ≠ 0 then .next ((pbufHdr mem q).next, count + 1) else .done count

/-- The walk over the free list that counts it: `none` when it does not end. -/
def countFree (s : PbufPool) : Option Nat := Loop.run (countRound s.mem) rounds (s.pbufPool, 0)

/-- `t_pbuf_pool_alloc`: the pbuf, 0 if there is none.  `none` when its walk does
not end. -/
def tPbufPoolAlloc (s : PbufPool) : Option (Nat × PbufPool) :=
  let p := s.pbufPool
  let s := if p ≠ 0 then
      { mem := pbufSetNext s.mem p 0, pbufPool := (pbufHdr s.mem p).next }
    else s
  (countFree s).map fun _ => (p, s)

/-- `t_pbuf_alloc`, with the 16-bit sum of its size check. -/
def tPbufAlloc (s : PbufPool) (offset length flags : UInt16) : Option (Nat × PbufPool) :=
  let remLen := length + offset
  if remLen.toNat > tPbufBufsize then some (0, s)
  else if flags = tPbufFlagPool then
    match tPbufPoolAlloc s with
    | none => none
    | some (p, s) =>
        if p = 0 then some (0, s)
        else
          let mem := pbufSetNext s.mem p 0
          let mem := pbufSetRef mem p 1
          let mem := pbufSetPayload mem p (p + sizeofTPbuf + offset.toNat)
          let mem := pbufSetTotLen mem p length
          let mem := pbufSetLen mem p length
          some (p, { s with mem })
  else some (0, s)

/-- One round of the loop of `t_pbuf_free`: the pbuf it stands on, and `count`,
which the walk over the free list takes for its own. -/
def freeRound : Nat × Nat × PbufPool →
    Loop.Step (Nat × Nat × PbufPool) (Option (Nat × PbufPool))
  | (p, count, s) =>
      if p ≠ 0 then
        let mem := pbufSetRef s.mem p ((pbufHdr s.mem p).ref - 1)
        let next := (pbufHdr mem p).next
        if (pbufHdr mem p).ref = 0 ∧ (pbufHdr mem p).flags = tPbufFlagPool then
          let s : PbufPool := { mem := pbufSetNext mem p s.pbufPool, pbufPool := p }
          match countFree s with
          | none => .done none
          | some count => .next (next, count, s)
        else .next (next, count + 1, { s with mem })
      else .done (some (count, s))

/-- `t_pbuf_free`: what it returns, and the pool.  `none` when a loop of it does
not end. -/
def tPbufFree (s : PbufPool) (p : Nat) : Option (Nat × PbufPool) :=
  (Loop.run freeRound rounds (p, 0, s)).join

/-- `t_pbuf_header`. -/
def tPbufHeader (s : PbufPool) (p : Nat) (increment : Int) : Int × PbufPool :=
  let h := pbufHdr s.mem p
  if h.flags = tPbufFlagPool then
    let payload := (h.payload : Int) + increment
    if (p + sizeofTPbuf : Nat) ≤ payload ∧ payload < (p : Int) + tPbufBufsize - 1 then
      let mem := pbufSetPayload s.mem p payload.toNat
      let mem := pbufSetTotLen mem p (h.totLen - UInt16.ofInt increment)
      (0, { s with mem := pbufSetLen mem p (h.len - UInt16.ofInt increment) })
    else (-1, s)
  else (-1, s)

/-- `t_pbuf_cat`. -/
def tPbufCat (s : PbufPool) (p p1 : Nat) : PbufPool :=
  let h := pbufHdr s.mem p
  let h1 := pbufHdr s.mem p1
  let mem := s.mem.copy (h.payload + h.len.toNat) (s.mem.shift h1.payload) h1.len.toNat
  let mem := pbufSetLen mem p ((pbufHdr mem p).len + (pbufHdr mem p1).len)
  { s with mem := pbufSetTotLen mem p ((pbufHdr mem p).totLen + (pbufHdr mem p1).len) }

/-! ## fields and memory -/

section
variable {mem mem' : ByteMem} {p q : Nat}

/-- Equal bytes are equal fields. -/
theorem pbufHdr_congr (h : ∀ i, p ≤ i → i < p + sizeofTPbuf → mem' i = mem i) :
    pbufHdr mem' p = pbufHdr mem p := by
  simp only [sizeofTPbuf] at h
  rw [pbufHdr, pbufHdr, ByteMem.get64_congr fun i _ => h (p + i) (by omega) (by omega),
    ByteMem.get64_congr fun i _ => h (p + 8 + i) (by omega) (by omega),
    ByteMem.get16_congr fun i _ => h (p + 16 + i) (by omega) (by omega),
    ByteMem.get16_congr fun i _ => h (p + 18 + i) (by omega) (by omega),
    ByteMem.get16_congr fun i _ => h (p + 20 + i) (by omega) (by omega),
    ByteMem.get16_congr fun i _ => h (p + 22 + i) (by omega) (by omega)]

@[simp] theorem pbufHdr_setNext (hq : q < 2 ^ 64) :
    pbufHdr (pbufSetNext mem p q) p = { pbufHdr mem p with next := q } := by
  have hmod : (UInt64.ofNat q).toNat = q := by rw [UInt64.toNat_ofNat', Nat.mod_eq_of_lt hq]
  simp (disch := omega) only [pbufHdr, pbufSetNext, ByteMem.get64_set64_self,
    ByteMem.get64_set64_of_disjoint, ByteMem.get16_set64_of_disjoint, hmod]

@[simp] theorem pbufHdr_setPayload (n : Nat) : pbufHdr (pbufSetPayload mem p n) p =
    { pbufHdr mem p with payload := (UInt64.ofNat n).toNat } := by
  simp (disch := omega) only [pbufHdr, pbufSetPayload, ByteMem.get64_set64_self,
    ByteMem.get64_set64_of_disjoint, ByteMem.get16_set64_of_disjoint]

@[simp] theorem pbufHdr_setTotLen (n : UInt16) :
    pbufHdr (pbufSetTotLen mem p n) p = { pbufHdr mem p with totLen := n } := by
  simp (disch := omega) only [pbufHdr, pbufSetTotLen, ByteMem.get16_set16_self,
    ByteMem.get64_set16_of_disjoint, ByteMem.get16_set16_of_disjoint]

@[simp] theorem pbufHdr_setLen (n : UInt16) :
    pbufHdr (pbufSetLen mem p n) p = { pbufHdr mem p with len := n } := by
  simp (disch := omega) only [pbufHdr, pbufSetLen, ByteMem.get16_set16_self,
    ByteMem.get64_set16_of_disjoint, ByteMem.get16_set16_of_disjoint]

@[simp] theorem pbufHdr_setFlags (n : UInt16) :
    pbufHdr (pbufSetFlags mem p n) p = { pbufHdr mem p with flags := n } := by
  simp (disch := omega) only [pbufHdr, pbufSetFlags, ByteMem.get16_set16_self,
    ByteMem.get64_set16_of_disjoint, ByteMem.get16_set16_of_disjoint]

@[simp] theorem pbufHdr_setRef (n : UInt16) :
    pbufHdr (pbufSetRef mem p n) p = { pbufHdr mem p with ref := n } := by
  simp (disch := omega) only [pbufHdr, pbufSetRef, ByteMem.get16_set16_self,
    ByteMem.get64_set16_of_disjoint, ByteMem.get16_set16_of_disjoint]

/-- `mem'` is `mem` but for the header at `p`. -/
def HdrOnly (p : Nat) (mem mem' : ByteMem) : Prop :=
  ∀ i, i < p ∨ p + sizeofTPbuf ≤ i → mem' i = mem i

namespace HdrOnly

theorem refl (p : Nat) (mem : ByteMem) : HdrOnly p mem mem := fun _ _ => rfl

theorem trans {mem'' : ByteMem} (h : HdrOnly p mem mem') (h' : HdrOnly p mem' mem'') :
    HdrOnly p mem mem'' := fun i hi => (h' i hi).trans (h i hi)

theorem setNext (h : HdrOnly p mem mem') (n : Nat) : HdrOnly p mem (pbufSetNext mem' p n) :=
  h.trans fun i hi => ByteMem.set64_apply_of_disjoint _ _ (by simp only [sizeofTPbuf] at hi; omega)

theorem setPayload (h : HdrOnly p mem mem') (n : Nat) :
    HdrOnly p mem (pbufSetPayload mem' p n) :=
  h.trans fun i hi => ByteMem.set64_apply_of_disjoint _ _ (by simp only [sizeofTPbuf] at hi; omega)

theorem setTotLen (h : HdrOnly p mem mem') (n : UInt16) :
    HdrOnly p mem (pbufSetTotLen mem' p n) :=
  h.trans fun i hi => ByteMem.set16_apply_of_disjoint _ _ (by simp only [sizeofTPbuf] at hi; omega)

theorem setLen (h : HdrOnly p mem mem') (n : UInt16) : HdrOnly p mem (pbufSetLen mem' p n) :=
  h.trans fun i hi => ByteMem.set16_apply_of_disjoint _ _ (by simp only [sizeofTPbuf] at hi; omega)

theorem setFlags (h : HdrOnly p mem mem') (n : UInt16) : HdrOnly p mem (pbufSetFlags mem' p n) :=
  h.trans fun i hi => ByteMem.set16_apply_of_disjoint _ _ (by simp only [sizeofTPbuf] at hi; omega)

theorem setRef (h : HdrOnly p mem mem') (n : UInt16) : HdrOnly p mem (pbufSetRef mem' p n) :=
  h.trans fun i hi => ByteMem.set16_apply_of_disjoint _ _ (by simp only [sizeofTPbuf] at hi; omega)

/-- The bytes behind it are as before. -/
theorem get16 (h : HdrOnly p mem mem') (hq : p + sizeofTPbuf ≤ q) : mem'.get16 q = mem.get16 q :=
  ByteMem.get16_congr fun i _ => h (q + i) (by omega)

theorem get32 (h : HdrOnly p mem mem') (hq : p + sizeofTPbuf ≤ q) : mem'.get32 q = mem.get32 q :=
  ByteMem.get32_congr fun i _ => h (q + i) (by omega)

/-- The headers that do not overlap it are as before. -/
theorem hdr (h : HdrOnly p mem mem') (hq : q + sizeofTPbuf ≤ p ∨ p + sizeofTPbuf ≤ q) :
    pbufHdr mem' q = pbufHdr mem q :=
  pbufHdr_congr fun i hi hi' => h i (by omega)

end HdrOnly

end

/-! ## where the pbufs are -/

/-- The headers, in order of their addresses. -/
def addrs (base : Nat) : List Nat := (List.range tPbufPoolSize).map fun j => base + j * slot

/-- `pbuf_pool_memory` lies between a null pointer and the end of the addresses. -/
structure Placed (base : Nat) : Prop where
  pos : 0 < base
  fits : base + tPbufPoolSize * slot ≤ 2 ^ 64

section
variable {base p q : Nat}

theorem mem_addrs : p ∈ addrs base ↔ ∃ j < tPbufPoolSize, p = base + j * slot := by
  simp [addrs, eq_comm]

/-- **The pbufs are inside `pbuf_pool_memory`**, with their buffers. -/
theorem addrs_inside (hp : p ∈ addrs base) :
    base ≤ p ∧ p + slot ≤ base + tPbufPoolSize * slot := by
  obtain ⟨j, hj, rfl⟩ := mem_addrs.mp hp
  have hmul : (j + 1) * slot ≤ tPbufPoolSize * slot := Nat.mul_le_mul_right _ hj
  rw [Nat.add_mul, Nat.one_mul] at hmul
  omega

/-- **Two pbufs never overlap.** -/
theorem addrs_disjoint (hp : p ∈ addrs base) (hq : q ∈ addrs base) (hne : p ≠ q) :
    p + slot ≤ q ∨ q + slot ≤ p := by
  obtain ⟨j, -, rfl⟩ := mem_addrs.mp hp
  obtain ⟨k, -, rfl⟩ := mem_addrs.mp hq
  have hmul : ∀ a b : Nat, a < b → a * slot + slot ≤ b * slot := fun a b hab => by
    have := Nat.mul_le_mul_right slot hab
    rwa [Nat.succ_mul] at this
  rcases Nat.lt_trichotomy j k with h | h | h
  · have := hmul j k h
    omega
  · exact absurd (by rw [h]) hne
  · have := hmul k j h
    omega

/-- Writing one header leaves the others alone. -/
theorem hdr_of_ne {mem mem' : ByteMem} {p q : Nat} (hmem : HdrOnly p mem mem')
    (hp : p ∈ addrs base) (hq : q ∈ addrs base) (hne : q ≠ p) :
    pbufHdr mem' q = pbufHdr mem q := by
  have hslot : sizeofTPbuf ≤ slot := by decide
  exact hmem.hdr ((addrs_disjoint hq hp hne).imp (by omega) (by omega))

theorem nodup_addrs (base : Nat) : (addrs base).Nodup := by
  refine List.Nodup.map (fun j k h => ?_) List.nodup_range
  have hmul : j * slot = k * slot := by simpa using h
  exact Nat.eq_of_mul_eq_mul_right (by decide) hmul

theorem length_addrs (base : Nat) : (addrs base).length = tPbufPoolSize := by simp [addrs]

end

/-! ## carving -/

/-- The links in memory. -/
def links (mem : ByteMem) (p : Nat) : Option Nat := ptr (pbufHdr mem p).next

theorem initRound_hdrOnly (mem : ByteMem) (p : Nat) : HdrOnly p mem (initRound mem p) :=
  ((((HdrOnly.refl p mem).setNext _).setTotLen _).setLen _ |>.setPayload _).setFlags _

theorem initRound_hdr (mem : ByteMem) {p : Nat} (hp : p + slot < 2 ^ 64) :
    (pbufHdr (initRound mem p) p).next = p + slot := by
  have hnext : p + tPbufBufsize + sizeofTPbuf < 2 ^ 64 := by
    rw [slot] at hp
    omega
  simp only [initRound, pbufHdr_setFlags, pbufHdr_setPayload, pbufHdr_setLen, pbufHdr_setTotLen,
    pbufHdr_setNext hnext]
  rw [slot, Nat.add_assoc]

theorem initRound_flags (mem : ByteMem) (p : Nat) :
    (pbufHdr (initRound mem p) p).flags = tPbufFlagPool := by
  rw [initRound, pbufHdr_setFlags]

/-- The loop and the null pointer behind it make a list of the headers, all of
pool pbufs, and touch nothing else. -/
theorem initLoop_isList (n : Nat) (mem : ByteMem) {p : Nat} (q : Nat) (hpos : 0 < p)
    (hfit : p + (n + 1) * slot ≤ 2 ^ 64) :
    let mem' := pbufSetNext (initLoop (n + 1) mem p q).1 (initLoop (n + 1) mem p q).2 0
    IsList (links mem') (some p) ((List.range (n + 1)).map fun j => p + j * slot) ∧
      (∀ j < n + 1, (pbufHdr mem' (p + j * slot)).flags = tPbufFlagPool) ∧
      ∀ i, i < p ∨ p + n * slot + sizeofTPbuf ≤ i → mem' i = mem i := by
  induction n generalizing mem p q with
  | zero =>
      have hnext : pbufHdr (pbufSetNext (initRound mem p) p 0) p =
          { pbufHdr (initRound mem p) p with next := 0 } := pbufHdr_setNext (by decide)
      refine ⟨⟨by simp, ?_⟩, fun j hj => ?_, fun i hi => ?_⟩
      · simp [links, initLoop, hnext]
      · obtain rfl : j = 0 := by omega
        simp only [initLoop, Nat.zero_mul, Nat.add_zero, hnext]
        exact initRound_flags mem p
      · exact ((initRound_hdrOnly mem p).setNext 0) i (by simpa using hi)
  | succ n ih =>
      have hslot : sizeofTPbuf < slot := by decide
      rw [Nat.succ_mul] at hfit
      have hnext := initRound_hdr mem (show p + slot < 2 ^ 64 by rw [Nat.succ_mul] at hfit; omega)
      obtain ⟨hlist, hflags, hsame⟩ := ih (initRound mem p) p (show 0 < p + slot by omega)
        (by omega)
      rw [initLoop, hnext]
      obtain ⟨mem', hmem'⟩ : ∃ mem', mem' = pbufSetNext
        (initLoop (n + 1) (initRound mem p) (p + slot) p).1
        (initLoop (n + 1) (initRound mem p) (p + slot) p).2 0 := ⟨_, rfl⟩
      rw [← hmem'] at hlist hflags hsame ⊢
      -- the rounds that follow are above the first header
      have hfirst : pbufHdr mem' p = pbufHdr (initRound mem p) p :=
        pbufHdr_congr fun i _ hi => hsame i (by omega)
      refine ⟨?_, fun j hj => ?_, fun i hi => ?_⟩
      · rw [List.range_succ_eq_map, List.map_cons, List.map_map]
        refine ⟨by simp, ?_⟩
        rw [links, Nat.zero_mul, Nat.add_zero, hfirst, hnext, ptr_of_pos (by omega)]
        have hmap : (List.range (n + 1)).map (fun j => p + slot + j * slot) =
            (List.range (n + 1)).map ((fun j => p + j * slot) ∘ Nat.succ) :=
          List.map_congr_left fun j _ => by simp only [Function.comp, Nat.succ_mul]; omega
        rw [← hmap]
        exact hlist
      · cases j with
        | zero =>
            rw [Nat.zero_mul, Nat.add_zero, hfirst]
            exact initRound_flags mem p
        | succ j =>
            have hj' := hflags j (by omega)
            rwa [show p + slot + j * slot = p + (j + 1) * slot by rw [Nat.succ_mul]; omega] at hj'
      · rw [Nat.succ_mul] at hi
        rw [hsame i (by omega), initRound_hdrOnly mem p i (by omega)]

/-- A list of pointers is shorter than there are pointers. -/
theorem length_lt_rounds {mem : ByteMem} {p : Option Nat} {l : List Nat}
    (h : IsList (links mem) p l) : l.length < rounds := by
  have hnext : ∀ a b, links mem a = some b → 0 < b ∧ b < 2 ^ 64 := fun a b hab => by
    obtain ⟨rfl, hpos⟩ := ptr_eq_some_iff.mp hab
    exact ⟨hpos, (mem.get64 a).toNat_lt⟩
  have hrange : ∀ {p : Option Nat} {l : List Nat}, IsList (links mem) p l →
      (∀ b ∈ p, 0 < b ∧ b < 2 ^ 64) → l ⊆ List.range' 1 (2 ^ 64 - 1) := by
    intro p l hl
    induction l generalizing p with
    | nil => exact fun _ => List.nil_subset _
    | cons a l ih =>
        obtain ⟨rfl, hl⟩ := hl
        intro hp
        refine List.cons_subset.mpr ⟨?_, ih hl fun b hb => hnext a b hb⟩
        obtain ⟨hpos, hlt⟩ := hp a rfl
        rw [List.mem_range'_1]
        omega
  cases l with
  | nil => exact Nat.succ_pos _
  | cons a l =>
      -- only the first may be no 64-bit number
      obtain ⟨rfl, hl⟩ := h
      have hlen := (hl.nodup.subperm (hrange hl fun b hb => hnext a b hb)).length_le
      rw [List.length_range'] at hlen
      rw [List.length_cons, rounds]
      omega

/-! ## the walk -/

theorem run_countRound {mem : ByteMem} {q : Nat} {l : List Nat} (h : IsList (links mem) (ptr q) l)
    (count : Nat) {n : Nat} (hn : l.length < n) :
    Loop.run (countRound mem) n (q, count) = some (count + l.length) := by
  induction l generalizing q count n with
  | nil =>
      obtain ⟨n, rfl⟩ : ∃ m, n = m + 1 := ⟨n - 1, by simp at hn; omega⟩
      obtain rfl := ptr_eq_none_iff.mp h
      rfl
  | cons a l ih =>
      obtain ⟨hhead, hl⟩ := h
      obtain ⟨rfl, hpos⟩ := ptr_eq_some_iff.mp hhead
      obtain ⟨n, rfl⟩ : ∃ m, n = m + 1 := ⟨n - 1, by omega⟩
      rw [Loop.run, countRound, if_pos (by omega)]
      simp only
      rw [ih hl (count + 1) (by simpa using hn), List.length_cons]
      congr 1
      omega

/-- The free pbufs are counted. -/
theorem countFree_eq {s : PbufPool} {free : List Nat}
    (h : IsList (links s.mem) (ptr s.pbufPool) free) (hlen : free.length ≤ tPbufPoolSize) :
    countFree s = some free.length := by
  rw [countFree, run_countRound h 0 (hlen.trans_lt (by decide)), Nat.zero_add]

/-! ## freeing a chain -/

/-- `free` is the free list.  The pbufs `held` are not on it: each is a pool pbuf
with one owner. -/
structure Owned (base : Nat) (s : PbufPool) (free held : List Nat) : Prop where
  list : IsList (links s.mem) (ptr s.pbufPool) free
  nodup : (free ++ held).Nodup
  pbufs : free ++ held ⊆ addrs base
  ref : ∀ p ∈ held, (pbufHdr s.mem p).ref = 1
  flags : ∀ p ∈ held, (pbufHdr s.mem p).flags = tPbufFlagPool

namespace Owned

variable {base p : Nat} {s : PbufPool} {free held : List Nat}

theorem length_le (h : Owned base s free held) : free.length + held.length ≤ tPbufPoolSize := by
  rw [← List.length_append, ← length_addrs base]
  exact (h.nodup.subperm h.pbufs).length_le

theorem mem_of_free (h : Owned base s free held) (hp : p ∈ free) : p ∈ addrs base :=
  h.pbufs (List.mem_append_left _ hp)

theorem mem_of_held (h : Owned base s free held) (hp : p ∈ held) : p ∈ addrs base :=
  h.pbufs (List.mem_append_right _ hp)

theorem pbufPool_lt (h : Owned base s free held) (hpl : Placed base) : s.pbufPool < 2 ^ 64 := by
  have hlist := h.list
  cases hf : free with
  | nil =>
      rw [hf] at hlist
      rw [ptr_eq_none_iff.mp hlist]
      decide
  | cons a l =>
      rw [hf] at hlist
      obtain ⟨hpool, -⟩ := ptr_eq_some_iff.mp hlist.1
      have hin := (addrs_inside (h.mem_of_free (hf ▸ List.mem_cons_self))).2
      have hslot : 0 < slot := by decide
      have := hpl.fits
      omega

/-- Pbufs that nobody asks about any more. -/
theorem left {held' : List Nat} (h : Owned base s free (held ++ held')) :
    Owned base s free held := by
  have hnd := h.nodup
  rw [← List.append_assoc] at hnd
  refine ⟨h.list, (List.nodup_append.mp hnd).1, fun p hp => ?_,
    fun p hp => h.ref p (List.mem_append_left _ hp),
    fun p hp => h.flags p (List.mem_append_left _ hp)⟩
  rcases List.mem_append.mp hp with hp | hp
  · exact h.mem_of_free hp
  · exact h.mem_of_held (List.mem_append_left _ hp)

theorem forget (h : Owned base s free held) : Owned base s free [] :=
  left (show Owned base s free ([] ++ held) from h)

/-- What is written to the header of a pbuf in use does not matter, but for its count and
kind. -/
theorem hdrOnly (h : Owned base s free held) (hp : p ∈ held) {mem : ByteMem}
    (honly : HdrOnly p s.mem mem) (href : (pbufHdr mem p).ref = (pbufHdr s.mem p).ref)
    (hflags : (pbufHdr mem p).flags = (pbufHdr s.mem p).flags) :
    Owned base ⟨mem, s.pbufPool⟩ free held := by
  have hmem := h.mem_of_held hp
  refine ⟨h.list.congr fun q hq => ?_, h.nodup, h.pbufs, fun q hq => ?_, fun q hq => ?_⟩
  · rw [links, links, hdr_of_ne honly hmem (h.mem_of_free hq)
      ((List.nodup_append.mp h.nodup).2.2 q hq p hp)]
  · by_cases hqp : q = p
    · rw [hqp, href]
      exact h.ref p hp
    · rw [hdr_of_ne honly hmem (h.mem_of_held hq) hqp]
      exact h.ref q hq
  · by_cases hqp : q = p
    · rw [hqp, hflags]
      exact h.flags p hp
    · rw [hdr_of_ne honly hmem (h.mem_of_held hq) hqp]
      exact h.flags q hq

/-- One round puts the pbuf at the front of the free list, and goes on with the one
it was linked to. -/
theorem freeRound_eq (h : Owned base s free (p :: held)) (hpl : Placed base) (count : Nat) :
    ∃ mem, freeRound (p, count, s) =
        .next ((pbufHdr s.mem p).next, free.length + 1, ⟨mem, p⟩) ∧
      HdrOnly p s.mem mem ∧
      pbufHdr mem p = { pbufHdr s.mem p with next := s.pbufPool, ref := 0 } ∧
      Owned base ⟨mem, p⟩ (p :: free) held := by
  have hmem := h.mem_of_held List.mem_cons_self
  have hpos : 0 < p := hpl.pos.trans_le (addrs_inside hmem).1
  have hperm : (free ++ p :: held).Perm (p :: (free ++ held)) := List.perm_middle
  have hnd := hperm.nodup_iff.mp h.nodup
  have hp := (List.nodup_cons.mp hnd).1
  obtain ⟨mem, hset⟩ : ∃ mem, mem = pbufSetRef s.mem p ((pbufHdr s.mem p).ref - 1) := ⟨_, rfl⟩
  have hhdr : pbufHdr mem p = { pbufHdr s.mem p with ref := 0 } := by
    rw [hset, pbufHdr_setRef, h.ref p List.mem_cons_self]
    rfl
  have honly : HdrOnly p s.mem (pbufSetNext mem p s.pbufPool) :=
    hset ▸ ((HdrOnly.refl p s.mem).setRef _).setNext _
  have hlast : pbufHdr (pbufSetNext mem p s.pbufPool) p =
      { pbufHdr s.mem p with next := s.pbufPool, ref := 0 } := by
    rw [pbufHdr_setNext (h.pbufPool_lt hpl), hhdr]
  have howned : Owned base ⟨pbufSetNext mem p s.pbufPool, p⟩ (p :: free) held := by
    refine ⟨⟨ptr_of_pos hpos, ?_⟩, hnd, fun q hq => h.pbufs (hperm.mem_iff.mpr hq),
      fun q hq => ?_, fun q hq => ?_⟩
    · rw [links, hlast]
      exact h.list.congr fun b hb => by
        rw [links, links, hdr_of_ne honly hmem (h.mem_of_free hb)
          fun heq => hp (List.mem_append_left _ (heq ▸ hb))]
    · rw [hdr_of_ne honly hmem (h.mem_of_held (List.mem_cons_of_mem p hq))
        fun heq => hp (List.mem_append_right _ (heq ▸ hq))]
      exact h.ref q (List.mem_cons_of_mem p hq)
    · rw [hdr_of_ne honly hmem (h.mem_of_held (List.mem_cons_of_mem p hq))
        fun heq => hp (List.mem_append_right _ (heq ▸ hq))]
      exact h.flags q (List.mem_cons_of_mem p hq)
  have hcount := countFree_eq howned.list ((Nat.le_add_right _ _).trans howned.length_le)
  refine ⟨pbufSetNext mem p s.pbufPool, ?_, honly, hlast, howned⟩
  rw [freeRound, if_pos hpos.ne']
  simp only [← hset, hhdr, h.flags p List.mem_cons_self, and_self, ↓reduceIte, hcount,
    List.length_cons]

/-- The loop of `t_pbuf_free` puts the pbufs of a chain on the free list, the last
one in front.  `count` is what the walk over the free list left in it. -/
theorem run_freeRound {chain : List Nat} (h : Owned base s free (chain ++ held))
    (hpl : Placed base) (hchain : IsList (links s.mem) (ptr p) chain) (count : Nat) {n : Nat}
    (hn : chain.length < n) : ∃ s', Loop.run freeRound n (p, count, s) =
        some (some (if chain = [] then count else free.length + chain.length, s')) ∧
      Owned base s' (chain.reverse ++ free) held ∧
      ∀ q ∈ addrs base, q ∉ chain → pbufHdr s'.mem q = pbufHdr s.mem q := by
  induction chain generalizing p s free count n with
  | nil =>
      obtain ⟨n, rfl⟩ : ∃ m, n = m + 1 := ⟨n - 1, by simp at hn; omega⟩
      obtain rfl := ptr_eq_none_iff.mp hchain
      exact ⟨s, rfl, h, fun _ _ _ => rfl⟩
  | cons a l ih =>
      obtain ⟨n, rfl⟩ : ∃ m, n = m + 1 := ⟨n - 1, by omega⟩
      obtain ⟨hhead, hl⟩ := hchain
      obtain ⟨rfl, -⟩ := ptr_eq_some_iff.mp hhead
      obtain ⟨mem, hround, honly, -, howned⟩ := h.freeRound_eq hpl count
      have hmem := h.mem_of_held List.mem_cons_self
      have hnd := (List.nodup_append.mp h.nodup).2.1
      have hl' : IsList (links mem) (ptr (pbufHdr s.mem p).next) l := hl.congr fun b hb => by
        rw [links, links, hdr_of_ne honly hmem
          (h.mem_of_held (List.mem_cons_of_mem p (List.mem_append_left _ hb)))
          fun heq => (List.nodup_cons.mp hnd).1 (List.mem_append_left _ (heq ▸ hb))]
      obtain ⟨s', hrun, hs', hsame⟩ := ih howned hl' (free.length + 1) (by simpa using hn)
      refine ⟨s', ?_, ?_, fun q hq hne => ?_⟩
      · rw [Loop.run, hround]
        simp only
        rw [hrun, if_neg (List.cons_ne_nil p l), List.length_cons, List.length_cons]
        split
        · next hnil => rw [hnil]; rfl
        · rw [Nat.add_assoc, Nat.add_comm 1]
      · rwa [List.reverse_cons, List.append_assoc, List.singleton_append]
      · obtain ⟨hqp, hql⟩ := not_or.mp (List.mem_cons.not.mp hne)
        rw [hsame q hq hql, hdr_of_ne honly hmem hq hqp]

/-- `t_pbuf_free` of a chain whose pbufs have one owner.  It returns how many pbufs are
free then, if it frees any. -/
theorem tPbufFree_chain {chain : List Nat} (h : Owned base s free (chain ++ held))
    (hpl : Placed base) (hchain : IsList (links s.mem) (ptr p) chain) : ∃ s',
      tPbufFree s p = some (if chain = [] then 0 else free.length + chain.length, s') ∧
      Owned base s' (chain.reverse ++ free) held ∧
      ∀ q ∈ addrs base, q ∉ chain → pbufHdr s'.mem q = pbufHdr s.mem q := by
  obtain ⟨s', hrun, hs', hsame⟩ := h.run_freeRound hpl hchain 0 (length_lt_rounds hchain)
  exact ⟨s', by rw [tPbufFree, hrun]; rfl, hs', hsame⟩

end Owned

/-! ## runs -/

/-- A call, or a store by a user. -/
inductive Op where
  | alloc (offset length flags : UInt16)
  | free (p : Nat)
  | header (p : Nat) (increment : Int)
  | cat (p p1 : Nat)
  | write (addr : Nat) (value : UInt8)

/-- The pool, and the pbufs its users hold. -/
structure Use where
  pool : PbufPool
  live : List Nat

namespace Use

/-- A user takes what it gets, and forgets what it gives back.  `none` when the
call does not return. -/
def exec (u : Use) : Op → Option Use
  | .alloc offset length flags => (tPbufAlloc u.pool offset length flags).map fun (p, pool) =>
      ⟨pool, if p ≠ 0 then p :: u.live else u.live⟩
  | .free p => (tPbufFree u.pool p).map fun (_, pool) => ⟨pool, u.live.erase p⟩
  | .header p increment => some { u with pool := (tPbufHeader u.pool p increment).2 }
  | .cat p p1 => some { u with pool := tPbufCat u.pool p p1 }
  | .write addr value => some { u with
      pool := { u.pool with mem := Function.update u.pool.mem addr value } }

/-- Users call with what they hold, append no more than fits, and write where
they may. -/
def Legal (u : Use) : Op → Prop
  | .alloc .. => True
  | .free p => p ∈ u.live
  | .header p _ => p ∈ u.live
  | .cat p p1 => p ∈ u.live ∧ p1 ∈ u.live ∧
      let h := pbufHdr u.pool.mem p
      p + sizeofTPbuf ≤ h.payload + h.len.toNat ∧
        h.payload + h.len.toNat + (pbufHdr u.pool.mem p1).len.toNat ≤ p + slot
  | .write addr _ => ∃ p ∈ u.live, p + sizeofTPbuf ≤ addr ∧ addr < p + slot

end Use

/-- Calls one after the other, as long as they return. -/
def step (o : Option Use) (op : Op) : Option Use := o.bind fun u => u.exec op

/-- The call is legal, if there is a call. -/
def Legal (o : Option Use) (op : Op) : Prop := ∀ u ∈ o, u.Legal op

/-! ## the invariant -/

/-- The free pbufs are a list, free and live pbufs together are all there are, all
are pool pbufs, and those that are live have one owner and no link. -/
structure Inv (base : Nat) (u : Use) (free : List Nat) : Prop where
  list : IsList (links u.pool.mem) (ptr u.pool.pbufPool) free
  pbufs : (free ++ u.live).Perm (addrs base)
  flags : ∀ p ∈ addrs base, (pbufHdr u.pool.mem p).flags = tPbufFlagPool
  ref : ∀ p ∈ u.live, (pbufHdr u.pool.mem p).ref = 1
  next : ∀ p ∈ u.live, (pbufHdr u.pool.mem p).next = 0

section
variable {base : Nat}

/-- After `t_pbuf_init` all pbufs are free. -/
theorem Placed.init (hpl : Placed base) (s : PbufPool) :
    Inv base ⟨tPbufInit base s, []⟩ (addrs base) := by
  obtain ⟨hlist, hflags, -⟩ := initLoop_isList 29 s.mem 0 hpl.pos hpl.fits
  refine ⟨?_, by simp, fun p hp => ?_, by simp, by simp⟩
  · rw [show (tPbufInit base s).pbufPool = base from rfl, ptr_of_pos hpl.pos]
    exact hlist
  · obtain ⟨j, hj, rfl⟩ := mem_addrs.mp hp
    exact hflags j hj

namespace Inv

variable {u : Use} {free : List Nat} (h : Inv base u free)
include h

theorem mem_of_free {p : Nat} (hp : p ∈ free) : p ∈ addrs base :=
  h.pbufs.subset (List.mem_append_left _ hp)

theorem mem_of_live {p : Nat} (hp : p ∈ u.live) : p ∈ addrs base :=
  h.pbufs.subset (List.mem_append_right _ hp)

theorem length_le : free.length ≤ tPbufPoolSize := by
  have hlen := h.pbufs.length_eq
  rw [List.length_append, length_addrs] at hlen
  omega

theorem nodup : (free ++ u.live).Nodup := h.pbufs.nodup_iff.mpr (nodup_addrs base)

/-- No pbuf is free and live at once. -/
theorem ne_of_free_live {a p : Nat} (ha : a ∈ free) (hp : p ∈ u.live) : a ≠ p :=
  (List.nodup_append.mp h.nodup).2.2 a ha p hp

/-- A null `pbuf_pool` is an empty list. -/
theorem free_eq_nil_iff : free = [] ↔ u.pool.pbufPool = 0 := by
  have hlist := h.list
  constructor
  · rintro rfl
    exact ptr_eq_none_iff.mp hlist
  · intro hnull
    rw [hnull] at hlist
    cases free with
    | nil => rfl
    | cons a l => exact absurd hlist.1 (by simp)

/-- The live pbufs have one owner each. -/
theorem owned {p : Nat} (hp : p ∈ u.live) : Owned base u.pool free (p :: u.live.erase p) := by
  have hperm := (List.perm_cons_erase hp).append_left free
  have hsub : ∀ q ∈ p :: u.live.erase p, q ∈ u.live := fun q hq =>
    (List.perm_cons_erase hp).mem_iff.mpr hq
  exact ⟨h.list, hperm.nodup_iff.mp h.nodup, (hperm.symm.trans h.pbufs).subset,
    fun q hq => h.ref q (hsub q hq), fun q hq => h.flags q (h.mem_of_live (hsub q hq))⟩

/-- What a call keeps of every header keeps the invariant. -/
theorem of_same {mem : ByteMem} (hsame : ∀ p ∈ addrs base,
    (pbufHdr mem p).next = (pbufHdr u.pool.mem p).next ∧
    (pbufHdr mem p).flags = (pbufHdr u.pool.mem p).flags ∧
    (pbufHdr mem p).ref = (pbufHdr u.pool.mem p).ref) :
    Inv base { u with pool := { u.pool with mem } } free where
  list := h.list.congr fun p hp => by rw [links, links, (hsame p (h.mem_of_free hp)).1]
  pbufs := h.pbufs
  flags p hp := (hsame p hp).2.1.trans (h.flags p hp)
  ref p hp := (hsame p (h.mem_of_live hp)).2.2.trans (h.ref p hp)
  next p hp := (hsame p (h.mem_of_live hp)).1.trans (h.next p hp)

/-! ### allocation -/

/-- Without a free pbuf, or for a size or kind it refuses, `t_pbuf_alloc` fails. -/
theorem tPbufAlloc_fail {offset length flags : UInt16}
    (hfail : free = [] ∨ tPbufBufsize < (length + offset).toNat ∨ flags ≠ tPbufFlagPool) :
    tPbufAlloc u.pool offset length flags = some (0, u.pool) := by
  unfold tPbufAlloc
  simp only
  by_cases hlen : tPbufBufsize < (length + offset).toNat
  · rw [if_pos hlen]
  by_cases hflags : flags = tPbufFlagPool
  · have hnil : free = [] := hfail.resolve_right fun hbad => hbad.elim hlen fun hne => hne hflags
    have hnull := h.free_eq_nil_iff.mp hnil
    have hcount := countFree_eq h.list h.length_le
    rw [if_neg hlen, if_pos hflags, tPbufPoolAlloc]
    simp only [hnull, ne_eq, not_true_eq_false, ↓reduceIte, hcount, Option.map_some]
  · rw [if_neg hlen, if_neg hflags]

/-- Otherwise it takes the first free pbuf off the list, and writes its header. -/
theorem tPbufAlloc_cons {a : Nat} {l : List Nat} (hf : free = a :: l) {offset length : UInt16}
    (hlen : (length + offset).toNat ≤ tPbufBufsize) : ∃ mem,
      tPbufAlloc u.pool offset length tPbufFlagPool =
        some (a, ⟨mem, (pbufHdr u.pool.mem a).next⟩) ∧
      HdrOnly a u.pool.mem mem ∧ pbufHdr mem a = {
        next := 0, payload := (UInt64.ofNat (a + sizeofTPbuf + offset.toNat)).toNat,
        totLen := length, len := length, flags := tPbufFlagPool, ref := 1 } := by
  subst hf
  obtain ⟨hhead, hl⟩ := h.list
  obtain ⟨hpool, ha⟩ := ptr_eq_some_iff.mp hhead
  have hmem := h.mem_of_free (List.mem_cons_self (a := a) (l := l))
  have hal : a ∉ l := (List.nodup_cons.mp (List.nodup_append.mp h.nodup).1).1
  have honly := (HdrOnly.refl a u.pool.mem).setNext 0
  have hlist : IsList (links (pbufSetNext u.pool.mem a 0)) (ptr (pbufHdr u.pool.mem a).next) l :=
    hl.congr fun b hb => by
      rw [links, links, hdr_of_ne honly hmem (h.mem_of_free (List.mem_cons_of_mem a hb))
        fun heq => hal (heq ▸ hb)]
  have hcount := countFree_eq (s := ⟨pbufSetNext u.pool.mem a 0, (pbufHdr u.pool.mem a).next⟩)
    hlist ((Nat.le_succ _).trans h.length_le)
  refine ⟨_, ?_, ((((honly.setNext 0).setRef 1).setPayload
    (a + sizeofTPbuf + offset.toNat)).setTotLen length).setLen length, ?_⟩
  · unfold tPbufAlloc
    simp only
    rw [if_neg (not_lt.mpr hlen), if_pos trivial, tPbufPoolAlloc]
    simp only [hpool, ne_eq, ha.ne', not_false_eq_true, ↓reduceIte, hcount, Option.map_some]
  · simp only [pbufHdr_setLen, pbufHdr_setTotLen, pbufHdr_setPayload, pbufHdr_setRef,
      pbufHdr_setNext (show 0 < 2 ^ 64 by decide), h.flags a hmem]

/-- It is in use then. -/
theorem alloc_cons {a : Nat} {l : List Nat} (hf : free = a :: l) {offset length : UInt16}
    (hlen : (length + offset).toNat ≤ tPbufBufsize) : ∃ mem,
      tPbufAlloc u.pool offset length tPbufFlagPool =
        some (a, ⟨mem, (pbufHdr u.pool.mem a).next⟩) ∧
      pbufHdr mem a = {
        next := 0, payload := (UInt64.ofNat (a + sizeofTPbuf + offset.toNat)).toNat,
        totLen := length, len := length, flags := tPbufFlagPool, ref := 1 } ∧
      Inv base ⟨⟨mem, (pbufHdr u.pool.mem a).next⟩, a :: u.live⟩ l := by
  obtain ⟨mem, halloc, honly, hhdr⟩ := h.tPbufAlloc_cons hf hlen
  have ha := h.mem_of_free (hf ▸ List.mem_cons_self)
  have hnd := h.nodup
  have hlist := h.list
  have hperm := h.pbufs
  rw [hf] at hnd hlist hperm
  have hal := (List.nodup_cons.mp hnd).1
  refine ⟨mem, halloc, hhdr, ?_, ?_, fun p hp => ?_, fun p hp => ?_, fun p hp => ?_⟩
  · exact hlist.2.congr fun b hb => by
      rw [links, links, hdr_of_ne honly ha (h.mem_of_free (hf ▸ List.mem_cons_of_mem a hb))
        fun heq => hal (List.mem_append_left _ (heq ▸ hb))]
  · exact List.perm_middle.trans hperm
  · by_cases hpa : p = a
    · rw [hpa, hhdr]
    · rw [hdr_of_ne honly ha hp hpa]
      exact h.flags p hp
  · by_cases hpa : p = a
    · rw [hpa, hhdr]
    · have hlive := (List.mem_cons.mp hp).resolve_left hpa
      rw [hdr_of_ne honly ha (h.mem_of_live hlive) hpa]
      exact h.ref p hlive
  · by_cases hpa : p = a
    · rw [hpa, hhdr]
    · have hlive := (List.mem_cons.mp hp).resolve_left hpa
      rw [hdr_of_ne honly ha (h.mem_of_live hlive) hpa]
      exact h.next p hlive

/-- `t_pbuf_alloc` returns, and keeps the invariant. -/
theorem alloc (offset length flags : UInt16) : ∃ u' free',
    u.exec (.alloc offset length flags) = some u' ∧ Inv base u' free' := by
  by_cases hfail : free = [] ∨ tPbufBufsize < (length + offset).toNat ∨ flags ≠ tPbufFlagPool
  · refine ⟨u, free, ?_, h⟩
    rw [Use.exec, h.tPbufAlloc_fail hfail]
    rfl
  · obtain ⟨hne, hlen, hflags⟩ : free ≠ [] ∧ (length + offset).toNat ≤ tPbufBufsize ∧
        flags = tPbufFlagPool := by
      rw [not_or, not_or, not_lt, not_not] at hfail
      exact hfail
    obtain ⟨a, l, hf⟩ := List.exists_cons_of_ne_nil hne
    obtain ⟨mem, halloc, -, hinv⟩ := h.alloc_cons hf hlen
    have hlist := h.list
    rw [hf] at hlist
    have hpos := (ptr_eq_some_iff.mp hlist.1).2
    refine ⟨_, l, ?_, hinv⟩
    rw [Use.exec, hflags, halloc]
    simp only [Option.map_some, ne_eq, hpos.ne', not_false_eq_true, ↓reduceIte]

/-! ### freeing -/

/-- A live pbuf goes to the front of the list, and nothing behind it: its link is
null. -/
theorem tPbufFree_live (hpl : Placed base) {p : Nat} (hp : p ∈ u.live) : ∃ mem,
    tPbufFree u.pool p = some (free.length + 1, ⟨mem, p⟩) ∧ HdrOnly p u.pool.mem mem ∧
      pbufHdr mem p = { pbufHdr u.pool.mem p with next := u.pool.pbufPool, ref := 0 } := by
  obtain ⟨mem, hround, honly, hhdr, -⟩ := (h.owned hp).freeRound_eq hpl 0
  refine ⟨mem, ?_, honly, hhdr⟩
  rw [tPbufFree, Loop.run, hround, h.next p hp]
  rfl

/-- `t_pbuf_free` of a live pbuf returns, and keeps the invariant. -/
theorem freePbuf (hpl : Placed base) {p : Nat} (hp : p ∈ u.live) : ∃ u' free',
    u.exec (.free p) = some u' ∧ Inv base u' free' := by
  obtain ⟨mem, hfree, honly, hhdr⟩ := h.tPbufFree_live hpl hp
  have hmem := h.mem_of_live hp
  have hpos : 0 < p := hpl.pos.trans_le (addrs_inside hmem).1
  have hlive : ∀ q, q ∈ u.live.erase p ↔ q ≠ p ∧ q ∈ u.live := fun q =>
    (List.nodup_append.mp h.nodup).2.1.mem_erase_iff
  refine ⟨⟨⟨mem, p⟩, u.live.erase p⟩, p :: free, by rw [Use.exec, hfree]; rfl, ?_, ?_,
    fun q hq => ?_, fun q hq => ?_, fun q hq => ?_⟩
  · refine ⟨ptr_of_pos hpos, ?_⟩
    rw [links, hhdr]
    exact h.list.congr fun b hb => by
      rw [links, links, hdr_of_ne honly hmem (h.mem_of_free hb) (h.ne_of_free_live hb hp)]
  · exact (List.perm_middle.symm.trans
      ((List.perm_cons_erase hp).symm.append_left _)).trans h.pbufs
  · by_cases hqp : q = p
    · rw [hqp, hhdr]
      exact h.flags p hmem
    · rw [hdr_of_ne honly hmem hq hqp]
      exact h.flags q hq
  · obtain ⟨hqp, hq⟩ := (hlive q).mp hq
    rw [hdr_of_ne honly hmem (h.mem_of_live hq) hqp]
    exact h.ref q hq
  · obtain ⟨hqp, hq⟩ := (hlive q).mp hq
    rw [hdr_of_ne honly hmem (h.mem_of_live hq) hqp]
    exact h.next q hq

/-! ### headers and data -/

/-- `t_pbuf_header` writes neither link, kind nor count. -/
theorem header {p : Nat} (hp : p ∈ u.live) (increment : Int) :
    Inv base { u with pool := (tPbufHeader u.pool p increment).2 } free := by
  have hmem := h.mem_of_live hp
  unfold tPbufHeader
  simp only
  split
  · split
    · refine h.of_same fun q hq => ?_
      by_cases hqp : q = p
      · subst hqp
        simp only [pbufHdr_setLen, pbufHdr_setTotLen, pbufHdr_setPayload, and_self]
      · rw [hdr_of_ne ((((HdrOnly.refl p u.pool.mem).setPayload _).setTotLen _).setLen _) hmem hq
          hqp]
        exact ⟨rfl, rfl, rfl⟩
    · exact h
  · exact h

omit h in
/-- Writing in a buffer reaches no header. -/
theorem hdr_of_buffer {mem mem' : ByteMem} {p q : Nat}
    (hmem : ∀ i, i < p + sizeofTPbuf ∨ p + slot ≤ i → mem' i = mem i) (hp : p ∈ addrs base)
    (hq : q ∈ addrs base) : pbufHdr mem' q = pbufHdr mem q := by
  have hslot : sizeofTPbuf ≤ slot := by decide
  refine pbufHdr_congr fun i hi hi' => hmem i ?_
  by_cases hqp : q = p
  · exact Or.inl (hqp ▸ hi')
  · have := addrs_disjoint hq hp hqp
    omega

/-- `t_pbuf_cat` writes the lengths of a header, and behind the data. -/
theorem cat {p p1 : Nat} (hop : u.Legal (.cat p p1)) :
    Inv base { u with pool := tPbufCat u.pool p p1 } free := by
  obtain ⟨hp, -, hlo, hhi⟩ := hop
  have hmem := h.mem_of_live hp
  refine h.of_same fun q hq => ?_
  have hcopy : pbufHdr (u.pool.mem.copy
      ((pbufHdr u.pool.mem p).payload + (pbufHdr u.pool.mem p).len.toNat)
      (u.pool.mem.shift (pbufHdr u.pool.mem p1).payload) (pbufHdr u.pool.mem p1).len.toNat) q =
      pbufHdr u.pool.mem q :=
    hdr_of_buffer (fun i hi => ByteMem.copy_apply_of_disjoint _ _ (by omega)) hmem hq
  by_cases hqp : q = p
  · subst hqp
    simp only [pbufHdr_setLen, pbufHdr_setTotLen, hcopy, and_self]
  · rw [hdr_of_ne (((HdrOnly.refl p _).setLen _).setTotLen _) hmem hq hqp, hcopy]
    exact ⟨rfl, rfl, rfl⟩

/-- Nor does a store into the buffer of a live pbuf reach a header. -/
theorem write {addr p : Nat} (value : UInt8) (hp : p ∈ u.live) (hlo : p + sizeofTPbuf ≤ addr)
    (hhi : addr < p + slot) : Inv base { u with
      pool := { u.pool with mem := Function.update u.pool.mem addr value } } free :=
  h.of_same fun q hq => by
    have hsame : pbufHdr (Function.update u.pool.mem addr value) q = pbufHdr u.pool.mem q :=
      hdr_of_buffer (fun i hi => Function.update_of_ne (by omega) _ _) (h.mem_of_live hp) hq
    rw [hsame]
    exact ⟨rfl, rfl, rfl⟩

/-- Every legal call returns, and keeps the invariant. -/
theorem step (hpl : Placed base) {op : Op} (hop : u.Legal op) : ∃ u' free',
    u.exec op = some u' ∧ Inv base u' free' := by
  cases op with
  | alloc offset length flags => exact h.alloc offset length flags
  | free p => exact h.freePbuf hpl hop
  | header p increment => exact ⟨_, free, rfl, h.header hop increment⟩
  | cat p p1 => exact ⟨_, free, rfl, h.cat hop⟩
  | write addr value =>
      obtain ⟨p, hp, hlo, hhi⟩ := hop
      exact ⟨_, free, rfl, h.write value hp hlo hhi⟩

end Inv

/-! ## the partition -/

variable (base) in
/-- The pool is partitioned: its pbufs, which lie in `pbuf_pool_memory` with their
buffers and apart from each other, are each either live, with one owner and no
link, or once on a free list that ends; `t_pbuf_alloc` returns, and either fails
and changes nothing or takes a pbuf that is not live. -/
structure Partitioned (u : Use) : Prop where
  free : ∃ free, IsList (links u.pool.mem) (ptr u.pool.pbufPool) free ∧
    (free ++ u.live).Perm (addrs base)
  nodup : (addrs base).Nodup
  length : (addrs base).length = tPbufPoolSize
  live : ∀ p ∈ u.live, (pbufHdr u.pool.mem p).ref = 1 ∧ (pbufHdr u.pool.mem p).next = 0
  inside : ∀ p ∈ addrs base, base ≤ p ∧ p + slot ≤ base + tPbufPoolSize * slot
  disjoint : ∀ p ∈ addrs base, ∀ q ∈ addrs base, p ≠ q → p + slot ≤ q ∨ q + slot ≤ p
  alloc : ∀ offset length flags, ∃ p s, tPbufAlloc u.pool offset length flags = some (p, s) ∧
    (p = 0 → s = u.pool) ∧ (p ≠ 0 → p ∈ addrs base ∧ p ∉ u.live)

/-- The invariant says so. -/
theorem Inv.partitioned {u : Use} {free : List Nat} (h : Inv base u free) : Partitioned base u where
  free := ⟨free, h.list, h.pbufs⟩
  nodup := nodup_addrs base
  length := length_addrs base
  live p hp := ⟨h.ref p hp, h.next p hp⟩
  inside _ hp := addrs_inside hp
  disjoint _ hp _ hq hne := addrs_disjoint hp hq hne
  alloc offset length flags := by
    by_cases hfail : free = [] ∨ tPbufBufsize < (length + offset).toNat ∨ flags ≠ tPbufFlagPool
    · exact ⟨0, u.pool, h.tPbufAlloc_fail hfail, fun _ => rfl, fun hne => absurd rfl hne⟩
    · rw [not_or, not_or, not_lt, not_not] at hfail
      obtain ⟨hne, hlen, rfl⟩ := hfail
      obtain ⟨a, l, hf⟩ := List.exists_cons_of_ne_nil hne
      obtain ⟨mem, halloc, -⟩ := h.tPbufAlloc_cons hf hlen
      have hlist := h.list
      have ha : a ∈ free := hf ▸ List.mem_cons_self
      rw [hf] at hlist
      have hpos := (ptr_eq_some_iff.mp hlist.1).2
      exact ⟨a, _, halloc, fun hzero => absurd hzero hpos.ne',
        fun _ => ⟨h.mem_of_free ha, fun hlive => h.ne_of_free_live ha hlive rfl⟩⟩

/-- **The pool is partitioned** after `t_pbuf_init` and all along every sequence of
legal calls, and of stores by users that keep to their buffers: all of them
return. -/
theorem pool_partition (hpl : Placed base) (s : PbufPool) {ops : List Op}
    (hl : Run.Along step Legal (some ⟨tPbufInit base s, []⟩) ops) :
    Run.Throughout step (fun o => ∃ u, o = some u ∧ Partitioned base u)
      (some ⟨tPbufInit base s, []⟩) ops := by
  have hinv := Run.throughout_of_along (P := fun o => ∃ u free, o = some u ∧ Inv base u free)
    (fun o op ho hop => by
      obtain ⟨u, free, rfl, hu⟩ := ho
      obtain ⟨u', free', hexec, hu'⟩ := hu.step hpl (hop u rfl)
      exact ⟨u', free', hexec, hu'⟩) ⟨_, _, rfl, hpl.init s⟩ hl
  exact hinv.imp fun o ho => by
    obtain ⟨u, free, rfl, hu⟩ := ho
    exact ⟨u, rfl, hu.partitioned⟩

end

/-! ## a run -/

/-- Take a pbuf, move its payload pointer, write into it, and give it back. -/
def sampleOps : List Op := [.alloc 34 10 1, .header 4096 (-14), .write 4148 7, .free 4096]

theorem sample_placed : Placed 4096 := ⟨by decide, by decide⟩

/-- The first pbuf that is taken is the first of the array. -/
theorem sample_alloc (s : PbufPool) : ∃ mem, tPbufAlloc (tPbufInit 4096 s) 34 10 1 =
    some (4096, ⟨mem, (pbufHdr (tPbufInit 4096 s).mem 4096).next⟩) := by
  obtain ⟨mem, halloc, -⟩ := (sample_placed.init s).tPbufAlloc_cons
    (show addrs 4096 = 4096 :: (addrs 4096).tail by decide)
    (show ((10 : UInt16) + 34).toNat ≤ tPbufBufsize by decide)
  exact ⟨mem, halloc⟩

theorem sampleOps_legal (s : PbufPool) :
    Run.Along step Legal (some ⟨tPbufInit 4096 s, []⟩) sampleOps := by
  obtain ⟨mem, halloc⟩ := sample_alloc s
  have hstep : step (some ⟨tPbufInit 4096 s, []⟩) (.alloc 34 10 1) =
      some ⟨⟨mem, (pbufHdr (tPbufInit 4096 s).mem 4096).next⟩, [4096]⟩ := by
    rw [step, Option.bind_some, Use.exec, halloc]
    rfl
  refine ⟨fun _ _ => trivial, ?_⟩
  rw [hstep]
  refine ⟨fun u hu => ?_, fun u hu => ?_, fun u hu => ?_, trivial⟩
  · obtain rfl := Option.some.inj hu
    exact List.mem_singleton_self _
  · obtain rfl := Option.some.inj hu
    exact ⟨4096, List.mem_singleton_self _, by decide, by decide⟩
  · obtain rfl := Option.some.inj hu
    exact List.mem_singleton_self _

theorem pool_partition_sample :
    Run.Throughout step (fun o => ∃ u, o = some u ∧ Partitioned 4096 u)
      (some ⟨tPbufInit 4096 ⟨fun _ => 0xff, 0⟩, []⟩) sampleOps :=
  pool_partition sample_placed _ (sampleOps_legal _)

end PbufPool

end TTcp
