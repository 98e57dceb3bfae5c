import TTcp.Basic
import TTcp.Lib.ByteMem
import TTcp.Lib.PtrList
import TTcp.Lib.Run

/-!
# TTcp.Memp

The fixed pools (`core/t_memp.c`): one array of bytes, carved into seven pools
of blocks.

A block is a `struct t_memp`, which is one pointer, followed by what the user
gets.  Memory is the bytes at every address, and the links are the pointers
stored in it; what users write into their blocks goes to the same bytes.

`t_memp_free` does not write the link of a block that it puts on an empty
list.  The list ends there all the same, because `t_memp_malloc` has cleared
the link and no user has reached it since (`MempInv.link_live`).
-/

namespace TTcp

open PtrList

/-! ## pools -/

/-- `t_memp_t`. -/
inductive MempT where
  | tcpipMsg | netconn | apiMsg | udpPcb | netbuf | tcpPcb | tcpSeg
deriving DecidableEq, Repr

/-- The types, in order. -/
def MempT.all : List MempT := [.tcpipMsg, .netconn, .apiMsg, .udpPcb, .netbuf, .tcpPcb, .tcpSeg]

theorem MempT.mem_all (t : MempT) : t ∈ all := by cases t <;> decide

theorem MempT.nodup_all : all.Nodup := by decide

/-- `memp_num`. -/
def mempNum : MempT → Nat
  | .tcpipMsg => tPbufPoolSize
  | .netconn => 4
  | .apiMsg => 8
  | .udpPcb => tMempNumUdpPcb
  | .netbuf => 8
  | .tcpPcb => tMempNumTcpPcb
  | .tcpSeg => tMempNumTcpSeg

theorem mempNum_pos (t : MempT) : 0 < mempNum t := by cases t <;> decide

/-- `sizeof(struct t_memp)`. -/
def sizeofTMemp : Nat := 8

/-- `memp_sizes`, the sizes of the structures, as the compiler lays them out. -/
abbrev MempSizes := MempT → UInt16

/-- The size of a block with its link. -/
def MempSizes.block (sizes : MempSizes) (t : MempT) : Nat := (sizes t).toNat + sizeofTMemp

/-- The size of a pool. -/
def MempSizes.pool (sizes : MempSizes) (t : MempT) : Nat := sizes.block t * mempNum t

/-- `sizeof(memp_memory)`. -/
def MempSizes.memory (sizes : MempSizes) : Nat := (MempT.all.map sizes.pool).sum

/-- The memory, and `memp_tab`.  A null pointer is address 0. -/
structure Memp where
  mem : ByteMem
  mempTab : MempT → Nat

/-- `m->next`. -/
def mempNext (mem : ByteMem) (m : Nat) : Nat := (mem.get64 m).toNat

/-- `m->next = p`. -/
def mempSetNext (mem : ByteMem) (m p : Nat) : ByteMem := mem.set64 m (UInt64.ofNat p)

/-! ## the calls -/

/-- The inner loop of `t_memp_init`: link `n` blocks to their successors. -/
def mempCarve (size : Nat) : Nat → ByteMem → Nat → ByteMem × Nat
  | 0, mem, m => (mem, m)
  | n + 1, mem, m => mempCarve size n (mempSetNext mem m (m + size)) (m + size)

/-- One round of the outer loop: carve the pool of a type from `mp` on. -/
def mempInitPool (sizes : MempSizes) (s : Memp) (mp : Nat) (t : MempT) : Memp :=
  let (mem, m) := mempCarve (sizes.block t) (mempNum t - 1) s.mem mp
  { mem := mempSetNext mem m 0, mempTab := Function.update s.mempTab t mp }

/-- The outer loop, over the types from `ts` on. -/
def mempInitPools (sizes : MempSizes) (s : Memp) (mp : Nat) : List MempT → Memp
  | [] => s
  | t :: ts => mempInitPools sizes (mempInitPool sizes s mp t) (mp + sizes.pool t) ts

/-- `t_memp_init`, with `memp_memory` at `base`. -/
def tMempInit (sizes : MempSizes) (base : Nat) (s : Memp) : Memp :=
  mempInitPools sizes s base MempT.all

/-- `t_memp_malloc`: the block, 0 if there is none. -/
def tMempMalloc (s : Memp) (t : MempT) : Nat × Memp :=
  let memp := s.mempTab t
  if memp ≠ 0 then
    (memp + sizeofTMemp, {
      mempTab := Function.update s.mempTab t (mempNext s.mem memp)
      mem := mempSetNext s.mem memp 0 })
  else (0, s)

/-- `t_memp_free`. -/
def tMempFree (s : Memp) (t : MempT) (mem : Nat) : Memp :=
  let mp := mem - sizeofTMemp
  if s.mempTab t ≠ 0 then
    { mempTab := Function.update s.mempTab t mp, mem := mempSetNext s.mem mp (s.mempTab t) }
  else { s with mempTab := Function.update s.mempTab t mp }

/-! ## runs -/

/-- A call, or a store by a user. -/
inductive MempOp where
  | malloc (t : MempT)
  | free (t : MempT) (mem : Nat)
  | write (addr : Nat) (value : UInt8)

/-- The allocator, and the blocks its users hold, by type. -/
structure MempUse where
  memp : Memp
  live : MempT → List Nat

namespace MempUse

/-- A user takes what it gets, and forgets what it gives back. -/
def step (u : MempUse) : MempOp → MempUse
  | .malloc t =>
      let (mem, memp) := tMempMalloc u.memp t
      if mem ≠ 0 then ⟨memp, Function.update u.live t (mem :: u.live t)⟩ else ⟨memp, u.live⟩
  | .free t mem => ⟨tMempFree u.memp t mem, Function.update u.live t ((u.live t).erase mem)⟩
  | .write addr value => { u with
      memp := { u.memp with mem := Function.update u.memp.mem addr value } }

/-- Users free what they hold, with its type, and write where they may. -/
def Legal (sizes : MempSizes) (u : MempUse) : MempOp → Prop
  | .malloc _ => True
  | .free t mem => mem ∈ u.live t
  | .write addr _ => ∃ t, ∃ mem ∈ u.live t, mem ≤ addr ∧ addr < mem + (sizes t).toNat

end MempUse

/-! ## where the blocks are -/

section
variable (sizes : MempSizes)

/-- Where the pool of a type begins when the pools of `ts` follow on one
another from `mp` on. -/
def poolStart (mp : Nat) : List MempT → MempT → Nat
  | [], _ => mp
  | t' :: ts, t => if t' = t then mp else poolStart (mp + sizes.pool t') ts t

/-- The links of the blocks of a type, in order of their addresses. -/
def mempHeaders (mp : Nat) (t : MempT) : List Nat :=
  (List.range (mempNum t)).map fun j => mp + j * sizes.block t

/-- The blocks of a type, as users see them. -/
def mempBlocks (base : Nat) (t : MempT) : List Nat :=
  (mempHeaders sizes (poolStart sizes base MempT.all t) t).map (· + sizeofTMemp)

/-- `memp_memory` lies between a null pointer and the end of the addresses. -/
structure MempPlaced (base : Nat) : Prop where
  pos : 0 < base
  fits : base + sizes.memory ≤ 2 ^ 64

theorem poolStart_bounds {ts : List MempT} {t : MempT} (ht : t ∈ ts) (mp : Nat) :
    mp ≤ poolStart sizes mp ts t ∧
      poolStart sizes mp ts t + sizes.pool t ≤ mp + (ts.map sizes.pool).sum := by
  induction ts generalizing mp with
  | nil => simp at ht
  | cons t' ts ih =>
      rw [poolStart, List.map_cons, List.sum_cons]
      split
      · next heq => subst heq; omega
      · next hne =>
        have hmem : t ∈ ts := (List.mem_cons.mp ht).resolve_left fun h => hne h.symm
        have := ih hmem (mp + sizes.pool t')
        omega

/-- The pools of two types do not overlap. -/
theorem poolStart_disjoint {ts : List MempT} {t t' : MempT} (ht : t ∈ ts) (ht' : t' ∈ ts)
    (hne : t ≠ t') (mp : Nat) :
    poolStart sizes mp ts t + sizes.pool t ≤ poolStart sizes mp ts t' ∨
      poolStart sizes mp ts t' + sizes.pool t' ≤ poolStart sizes mp ts t := by
  induction ts generalizing mp with
  | nil => simp at ht
  | cons s ts ih =>
      rw [poolStart, poolStart]
      by_cases hs : s = t
      · subst hs
        have hmem : t' ∈ ts := (List.mem_cons.mp ht').resolve_left (Ne.symm hne)
        have := (poolStart_bounds sizes hmem (mp + sizes.pool s)).1
        rw [if_pos rfl, if_neg hne]
        exact Or.inl this
      · have hmem : t ∈ ts := (List.mem_cons.mp ht).resolve_left (Ne.symm hs)
        rw [if_neg hs]
        by_cases hs' : s = t'
        · subst hs'
          have := (poolStart_bounds sizes hmem (mp + sizes.pool s)).1
          rw [if_pos rfl]
          exact Or.inr this
        · rw [if_neg hs']
          exact ih hmem ((List.mem_cons.mp ht').resolve_left (Ne.symm hs')) (mp + sizes.pool s)

theorem mem_mempBlocks {base p : Nat} {t : MempT} : p ∈ mempBlocks sizes base t ↔
    ∃ j < mempNum t, p = poolStart sizes base MempT.all t + j * sizes.block t + sizeofTMemp := by
  simp [mempBlocks, mempHeaders, eq_comm]

/-- A block lies in the pool of its type. -/
theorem mempBlocks_pool {base p : Nat} {t : MempT} (hp : p ∈ mempBlocks sizes base t) :
    poolStart sizes base MempT.all t + sizeofTMemp ≤ p ∧
      p + (sizes t).toNat ≤ poolStart sizes base MempT.all t + sizes.pool t := by
  obtain ⟨j, hj, rfl⟩ := (mem_mempBlocks sizes).mp hp
  have hmul : (j + 1) * sizes.block t ≤ mempNum t * sizes.block t := Nat.mul_le_mul_right _ hj
  rw [Nat.add_mul, Nat.mul_comm (mempNum t)] at hmul
  rw [MempSizes.pool]
  simp only [MempSizes.block, sizeofTMemp] at hmul ⊢
  omega

/-- **The blocks are inside `memp_memory`**, with their links. -/
theorem mempBlocks_inside {base p : Nat} {t : MempT} (hp : p ∈ mempBlocks sizes base t) :
    base + sizeofTMemp ≤ p ∧ p + (sizes t).toNat ≤ base + sizes.memory := by
  have h1 := mempBlocks_pool sizes hp
  have h2 := poolStart_bounds sizes t.mem_all base
  rw [MempSizes.memory]
  omega

/-- **Two blocks never overlap**, not even with their links. -/
theorem mempBlocks_disjoint {base p p' : Nat} {t t' : MempT} (hp : p ∈ mempBlocks sizes base t)
    (hp' : p' ∈ mempBlocks sizes base t') (hne : t ≠ t' ∨ p ≠ p') :
    p + (sizes t).toNat + sizeofTMemp ≤ p' ∨ p' + (sizes t').toNat + sizeofTMemp ≤ p := by
  by_cases ht : t = t'
  · subst ht
    have hne := hne.resolve_left (fun h => h rfl)
    obtain ⟨j, -, rfl⟩ := (mem_mempBlocks sizes).mp hp
    obtain ⟨j', -, rfl⟩ := (mem_mempBlocks sizes).mp hp'
    have hjj : j ≠ j' := fun h => hne (by rw [h])
    have hmul : ∀ a b : Nat, a < b → a * sizes.block t + sizes.block t ≤ b * sizes.block t :=
      fun a b hab => by
        have := Nat.mul_le_mul_right (sizes.block t) hab
        rwa [Nat.succ_mul] at this
    rcases Nat.lt_or_gt_of_ne hjj with h | h
    · have := hmul _ _ h
      simp only [MempSizes.block, sizeofTMemp] at this ⊢
      omega
    · have := hmul _ _ h
      simp only [MempSizes.block, sizeofTMemp] at this ⊢
      omega
  · have h1 := mempBlocks_pool sizes hp
    have h2 := mempBlocks_pool sizes hp'
    have := poolStart_disjoint sizes t.mem_all t'.mem_all ht base
    omega

theorem nodup_mempBlocks (base : Nat) (t : MempT) : (mempBlocks sizes base t).Nodup := by
  have hpos : 0 < sizes.block t := by rw [MempSizes.block, sizeofTMemp]; omega
  refine (List.Nodup.map ?_ List.nodup_range).map (fun a b h => by simpa using h)
  intro a b hab
  have hmul : a * sizes.block t = b * sizes.block t := by simpa using hab
  exact Nat.eq_of_mul_eq_mul_right hpos hmul

theorem length_mempBlocks (base : Nat) (t : MempT) :
    (mempBlocks sizes base t).length = mempNum t := by
  simp [mempBlocks, mempHeaders]

end

/-! ## links -/

/-- A pointer, `none` if null. -/
def ptr (p : Nat) : Option Nat := if p = 0 then none else some p

/-- The links in memory. -/
def links (mem : ByteMem) (m : Nat) : Option Nat := ptr (mempNext mem m)

@[simp] theorem ptr_zero : ptr 0 = none := rfl

theorem ptr_of_pos {p : Nat} (h : 0 < p) : ptr p = some p := if_neg (by omega)

theorem ptr_eq_none_iff {p : Nat} : ptr p = none ↔ p = 0 := by
  unfold ptr; split <;> simp_all

theorem ptr_eq_some_iff {p q : Nat} : ptr p = some q ↔ p = q ∧ 0 < q := by
  unfold ptr; split <;> simp <;> omega

theorem mempNext_setNext_self (mem : ByteMem) (m : Nat) {p : Nat} (hp : p < 2 ^ 64) :
    mempNext (mempSetNext mem m p) m = p := by
  rw [mempNext, mempSetNext, ByteMem.get64_set64_self, UInt64.toNat_ofNat', Nat.mod_eq_of_lt hp]

/-- Other links than the one stored keep their value. -/
theorem mempNext_congr {mem mem' : ByteMem} {m : Nat} (h : ∀ i, m ≤ i → i < m + 8 → mem' i = mem i) :
    mempNext mem' m = mempNext mem m := by
  rw [mempNext, mempNext, ByteMem.get64_congr fun i _ => h (m + i) (by omega) (by omega)]

theorem mempSetNext_apply (mem : ByteMem) {m i : Nat} (p : Nat) (h : i < m ∨ m + 8 ≤ i) :
    mempSetNext mem m p i = mem i := ByteMem.set64_apply_of_disjoint _ _ h

/-! ## carving -/

/-- The inner loop and the null pointer behind it make a list of the blocks,
and touch nothing else. -/
theorem mempCarve_isList {size : Nat} (hsize : 8 ≤ size) (n : Nat) (mem : ByteMem) {mp : Nat}
    (hpos : 0 < mp) (hfit : mp + n * size < 2 ^ 64) :
    let r := mempCarve size n mem mp
    IsList (links (mempSetNext r.1 r.2 0)) (some mp)
        ((List.range (n + 1)).map fun j => mp + j * size) ∧
      ∀ i, i < mp ∨ mp + n * size + 8 ≤ i → mempSetNext r.1 r.2 0 i = mem i := by
  induction n generalizing mem mp with
  | zero =>
      refine ⟨⟨by simp, ?_⟩, fun i hi => mempSetNext_apply _ _ (by simpa [mempCarve] using hi)⟩
      simp [links, mempCarve, mempNext_setNext_self]
  | succ n ih =>
      rw [Nat.succ_mul] at hfit
      obtain ⟨hlist, hsame⟩ := ih (mempSetNext mem mp (mp + size))
        (show 0 < mp + size by omega) (by omega)
      simp only [mempCarve]
      refine ⟨?_, fun i hi => ?_⟩
      · rw [List.range_succ_eq_map, List.map_cons, List.map_map]
        refine ⟨by simp, ?_⟩
        have hlink : mempNext (mempSetNext (mempCarve size n (mempSetNext mem mp (mp + size))
            (mp + size)).1 (mempCarve size n (mempSetNext mem mp (mp + size)) (mp + size)).2 0)
            mp = mp + size := by
          rw [mempNext_congr fun i _ hi => hsame i (by omega),
            mempNext_setNext_self _ _ (by omega)]
        rw [links, Nat.zero_mul, Nat.add_zero, hlink, ptr_of_pos (by omega)]
        have hmap : (List.range (n + 1)).map (fun j => mp + size + j * size) =
            (List.range (n + 1)).map ((fun j => mp + j * size) ∘ Nat.succ) :=
          List.map_congr_left fun j _ => by simp only [Function.comp, Nat.succ_mul]; omega
        rw [← hmap]
        exact hlist
      · rw [Nat.succ_mul] at hi
        rw [hsame i (by omega), mempSetNext_apply _ _ (by omega)]

section
variable (sizes : MempSizes)

theorem mempInitPool_spec (s : Memp) {mp : Nat} (t : MempT) (hpos : 0 < mp)
    (hfit : mp + sizes.pool t ≤ 2 ^ 64) :
    let s' := mempInitPool sizes s mp t
    IsList (links s'.mem) (some mp) (mempHeaders sizes mp t) ∧
      (∀ i, i < mp ∨ mp + sizes.pool t ≤ i → s'.mem i = s.mem i) ∧
      s'.mempTab = Function.update s.mempTab t mp := by
  obtain ⟨n, hn⟩ : ∃ n, mempNum t = n + 1 := ⟨mempNum t - 1, by have := mempNum_pos t; omega⟩
  have hblock : 8 ≤ sizes.block t := by rw [MempSizes.block, sizeofTMemp]; omega
  have hpool : sizes.pool t = n * sizes.block t + sizes.block t := by
    rw [MempSizes.pool, hn, Nat.mul_succ, Nat.mul_comm]
  obtain ⟨hlist, hsame⟩ := mempCarve_isList hblock n s.mem hpos (by omega)
  have hs : mempInitPool sizes s mp t =
      ⟨mempSetNext (mempCarve (sizes.block t) n s.mem mp).1
        (mempCarve (sizes.block t) n s.mem mp).2 0, Function.update s.mempTab t mp⟩ := by
    rw [mempInitPool, hn, Nat.add_sub_cancel]
  simp only [hs]
  refine ⟨?_, fun i hi => hsame i (by omega), trivial⟩
  rw [mempHeaders, hn]
  exact hlist

/-- After the outer loop every pool is a list of its blocks. -/
theorem mempInitPools_spec {ts : List MempT} (hnd : ts.Nodup) (s : Memp) {mp : Nat} (hpos : 0 < mp)
    (hfit : mp + (ts.map sizes.pool).sum ≤ 2 ^ 64) :
    let s' := mempInitPools sizes s mp ts
    (∀ t ∈ ts, s'.mempTab t = poolStart sizes mp ts t ∧
      IsList (links s'.mem) (some (poolStart sizes mp ts t))
        (mempHeaders sizes (poolStart sizes mp ts t) t)) ∧
      (∀ t ∉ ts, s'.mempTab t = s.mempTab t) ∧ ∀ i < mp, s'.mem i = s.mem i := by
  induction ts generalizing s mp with
  | nil => exact ⟨by simp, fun _ _ => rfl, fun _ _ => rfl⟩
  | cons t ts ih =>
      obtain ⟨hts, hnd⟩ := List.nodup_cons.mp hnd
      rw [List.map_cons, List.sum_cons] at hfit
      obtain ⟨hlist, hsame, htab⟩ := mempInitPool_spec sizes s t hpos (by omega)
      obtain ⟨s1, hs1⟩ : ∃ s1, s1 = mempInitPool sizes s mp t := ⟨_, rfl⟩
      rw [← hs1] at hlist hsame htab
      obtain ⟨hin, hout, hbelow⟩ := ih hnd s1 (show 0 < mp + sizes.pool t by omega) (by omega)
      simp only [mempInitPools, ← hs1]
      refine ⟨fun t' ht' => ?_, fun t' ht' => ?_, fun i hi => ?_⟩
      · rw [poolStart]
        by_cases heq : t = t'
        · subst heq
          rw [if_pos rfl, hout t hts, htab, Function.update_self]
          refine ⟨rfl, hlist.congr fun a ha => ?_⟩
          -- the pools behind are carved above this one
          obtain ⟨j, hj, rfl⟩ := List.mem_map.mp ha
          have hmul : (j + 1) * sizes.block t ≤ mempNum t * sizes.block t :=
            Nat.mul_le_mul_right _ (List.mem_range.mp hj)
          rw [Nat.add_mul, Nat.mul_comm (mempNum t), ← MempSizes.pool] at hmul
          have hblock : 8 ≤ sizes.block t := by rw [MempSizes.block, sizeofTMemp]; omega
          rw [links, links, mempNext_congr fun i _ hi => hbelow i (by omega)]
        · rw [if_neg heq]
          exact hin t' ((List.mem_cons.mp ht').resolve_left (Ne.symm heq))
      · obtain ⟨hne, ht'⟩ := not_or.mp (List.mem_cons.not.mp ht')
        rw [hout t' ht', htab, Function.update_of_ne hne]
      · rw [hbelow i (by omega), hsame i (by omega)]

end

/-! ## the invariant -/

/-- The free blocks of each type are a list, free and live blocks together are
the blocks of the type, and the links of live blocks are null. -/
structure MempInv (sizes : MempSizes) (base : Nat) (u : MempUse) (free : MempT → List Nat) :
    Prop where
  list : ∀ t, IsList (links u.memp.mem) (ptr (u.memp.mempTab t)) (free t)
  blocks : ∀ t, ((free t).map (· + sizeofTMemp) ++ u.live t).Perm (mempBlocks sizes base t)
  link_live : ∀ t, ∀ p ∈ u.live t, mempNext u.memp.mem (p - sizeofTMemp) = 0

section
variable {sizes : MempSizes} {base : Nat}

/-- After `t_memp_init` all blocks are free. -/
theorem MempPlaced.init (hp : MempPlaced sizes base) (s : Memp) :
    MempInv sizes base ⟨tMempInit sizes base s, fun _ => []⟩
      fun t => mempHeaders sizes (poolStart sizes base MempT.all t) t := by
  obtain ⟨hin, -⟩ := mempInitPools_spec sizes MempT.nodup_all s hp.pos hp.fits
  refine ⟨fun t => ?_, fun t => by simp [mempBlocks], by simp⟩
  obtain ⟨htab, hlist⟩ := hin t t.mem_all
  have hpos := (poolStart_bounds sizes t.mem_all base).1
  have := hp.pos
  rw [tMempInit, htab, ptr_of_pos (by omega)]
  exact hlist

namespace MempInv

variable {u : MempUse} {free : MempT → List Nat}

theorem mem_of_free (h : MempInv sizes base u free) {t : MempT} {a : Nat} (ha : a ∈ free t) :
    a + sizeofTMemp ∈ mempBlocks sizes base t :=
  (h.blocks t).subset (List.mem_append_left _ (List.mem_map_of_mem ha))

theorem mem_of_live (h : MempInv sizes base u free) {t : MempT} {p : Nat} (hp : p ∈ u.live t) :
    p ∈ mempBlocks sizes base t :=
  (h.blocks t).subset (List.mem_append_right _ hp)

/-- No block is free and live at once, or of two types. -/
theorem ne_of_free_live (h : MempInv sizes base u free) {t t' : MempT} {a p : Nat}
    (ha : a ∈ free t) (hp : p ∈ u.live t') : a + sizeofTMemp ≠ p := by
  rintro rfl
  by_cases ht : t = t'
  · subst ht
    have hnd := (h.blocks t).nodup_iff.mpr (nodup_mempBlocks sizes base t)
    exact (List.nodup_append.mp hnd).2.2 _ (List.mem_map_of_mem ha) _ hp rfl
  · have := mempBlocks_disjoint sizes (h.mem_of_free ha) (h.mem_of_live hp) (Or.inl ht)
    simp only [sizeofTMemp] at this
    omega

/-- A store to the link of one block leaves the links of the others alone. -/
theorem next_of_disjoint (mem : ByteMem) {t t' : MempT} {p p' : Nat} (q : Nat)
    (hp : p ∈ mempBlocks sizes base t) (hp' : p' ∈ mempBlocks sizes base t')
    (hne : t ≠ t' ∨ p ≠ p') :
    mempNext (mempSetNext mem (p - sizeofTMemp) q) (p' - sizeofTMemp) =
      mempNext mem (p' - sizeofTMemp) := by
  have hdis := mempBlocks_disjoint sizes hp hp' hne
  have h1 := (mempBlocks_inside sizes hp).1
  have h2 := (mempBlocks_inside sizes hp').1
  simp only [sizeofTMemp] at hdis h1 h2 ⊢
  exact mempNext_congr fun i _ _ => mempSetNext_apply _ _ (by omega)

/-- The free lists after a call. -/
def freeAfter (free : MempT → List Nat) : MempOp → MempT → List Nat
  | .malloc t => Function.update free t (free t).tail
  | .free t mem => Function.update free t ((mem - sizeofTMemp) :: free t)
  | .write _ _ => free

/-- A null `memp_tab` is an empty list. -/
theorem free_eq_nil_iff (h : MempInv sizes base u free) (t : MempT) :
    free t = [] ↔ u.memp.mempTab t = 0 := by
  have hlist := h.list t
  constructor
  · intro hf
    rw [hf] at hlist
    exact ptr_eq_none_iff.mp hlist
  · intro htab
    rw [htab] at hlist
    cases hf : free t with
    | nil => rfl
    | cons a l => rw [hf] at hlist; exact absurd hlist.1 (by simp)

/-- `t_memp_malloc` takes the first free block, and clears its link. -/
theorem malloc (h : MempInv sizes base u free) (t : MempT) :
    MempInv sizes base (u.step (.malloc t)) (freeAfter free (.malloc t)) := by
  cases hf : free t with
  | nil =>
      have hstep : u.step (.malloc t) = u := by
        rw [MempUse.step, tMempMalloc, (h.free_eq_nil_iff t).mp hf]
        rfl
      have hsame : freeAfter free (.malloc t) = free := by
        rw [freeAfter, hf, List.tail_nil, ← hf, Function.update_eq_self]
      rw [hstep, hsame]
      exact h
  | cons a l =>
      have hlist := h.list t
      rw [hf] at hlist
      obtain ⟨hhead, hl⟩ := hlist
      obtain ⟨htab, ha⟩ := ptr_eq_some_iff.mp hhead
      have hmem : a + sizeofTMemp ∈ mempBlocks sizes base t := h.mem_of_free (hf ▸ List.mem_cons_self)
      have hstep : u.step (.malloc t) =
          ⟨⟨mempSetNext u.memp.mem a 0, Function.update u.memp.mempTab t (mempNext u.memp.mem a)⟩,
            Function.update u.live t ((a + sizeofTMemp) :: u.live t)⟩ := by
        rw [MempUse.step, tMempMalloc, htab, if_pos (by omega)]
        rfl
      have hfree : freeAfter free (.malloc t) = Function.update free t l := by
        rw [freeAfter, hf, List.tail_cons]
      -- the link of every other block is as before
      have hother : ∀ t' b, b + sizeofTMemp ∈ mempBlocks sizes base t' → b ≠ a →
          mempNext (mempSetNext u.memp.mem a 0) b = mempNext u.memp.mem b := fun t' b hb hne => by
        have := next_of_disjoint u.memp.mem 0 hmem hb (Or.inr (by omega))
        simpa using this
      have hrest : ∀ t', IsList (links (mempSetNext u.memp.mem a 0))
          (ptr (Function.update u.memp.mempTab t (mempNext u.memp.mem a) t'))
          (Function.update free t l t') := fun t' => by
        by_cases ht : t' = t
        · subst ht
          rw [Function.update_self, Function.update_self]
          have hal := (List.nodup_cons.mp (IsList.nodup (hf ▸ h.list t'))).1
          refine hl.congr fun b hb => ?_
          rw [links, links, hother t' b (h.mem_of_free (hf ▸ List.mem_cons_of_mem a hb))
            fun hba => hal (hba ▸ hb)]
        · rw [Function.update_of_ne ht, Function.update_of_ne ht]
          refine (h.list t').congr fun b hb => ?_
          have hdis := mempBlocks_disjoint sizes hmem (h.mem_of_free hb) (Or.inl (Ne.symm ht))
          rw [links, links, hother t' b (h.mem_of_free hb) fun hba => by
            subst hba
            simp only [sizeofTMemp] at hdis
            omega]
      rw [hstep, hfree]
      refine ⟨hrest, fun t' => ?_, fun t' p hp => ?_⟩
      · by_cases ht : t' = t
        · subst ht
          simp only [Function.update_self]
          refine List.Perm.trans ?_ (h.blocks t')
          rw [hf, List.map_cons, List.cons_append]
          exact List.perm_middle
        · simp only [Function.update_of_ne ht]
          exact h.blocks t'
      · by_cases hpa : p = a + sizeofTMemp
        · subst hpa
          simp [mempNext_setNext_self]
        · have hlive : p ∈ u.live t' := by
            by_cases ht : t' = t
            · subst ht
              simp only [Function.update_self] at hp
              exact (List.mem_cons.mp hp).resolve_left hpa
            · simpa only [Function.update_of_ne ht] using hp
          have hin := (mempBlocks_inside sizes (h.mem_of_live hlive)).1
          have hp8 : p - sizeofTMemp + sizeofTMemp = p := by omega
          simp only
          rw [hother t' _ (hp8.symm ▸ h.mem_of_live hlive) fun hpe => hpa (by omega)]
          exact h.link_live t' p hlive

theorem mempTab_lt (h : MempInv sizes base u free) (hpl : MempPlaced sizes base) (t : MempT) :
    u.memp.mempTab t < 2 ^ 64 := by
  have hlist := h.list t
  cases hf : free t with
  | nil =>
      rw [(h.free_eq_nil_iff t).mp hf]
      decide
  | cons a l =>
      rw [hf] at hlist
      obtain ⟨htab, -⟩ := ptr_eq_some_iff.mp hlist.1
      have hin := (mempBlocks_inside sizes (h.mem_of_free (hf ▸ List.mem_cons_self))).2
      have := hpl.fits
      simp only [sizeofTMemp] at hin
      omega

/-- `t_memp_free` leaves the link of the block pointing at the old list, also
where it does not write it: there the list is empty, and the link null. -/
theorem tMempFree_eq (h : MempInv sizes base u free) (hpl : MempPlaced sizes base) {t : MempT}
    {p : Nat} (hp : p ∈ u.live t) : ∃ mem,
      tMempFree u.memp t p = ⟨mem, Function.update u.memp.mempTab t (p - sizeofTMemp)⟩ ∧
      mempNext mem (p - sizeofTMemp) = u.memp.mempTab t ∧
      ∀ t' p', p' ∈ mempBlocks sizes base t' → p' ≠ p →
        mempNext mem (p' - sizeofTMemp) = mempNext u.memp.mem (p' - sizeofTMemp) := by
  unfold tMempFree
  by_cases htab : u.memp.mempTab t = 0
  · refine ⟨u.memp.mem, by rw [if_neg (by simpa using htab)], ?_, fun _ _ _ _ => rfl⟩
    rw [h.link_live t p hp, htab]
  · refine ⟨mempSetNext u.memp.mem (p - sizeofTMemp) (u.memp.mempTab t),
      by rw [if_pos htab], mempNext_setNext_self _ _ (h.mempTab_lt hpl t), fun t' p' hp' hne => ?_⟩
    exact next_of_disjoint _ _ (h.mem_of_live hp) hp' (Or.inr (Ne.symm hne))

/-- `t_memp_free` pushes the block. -/
theorem freeBlock (h : MempInv sizes base u free) (hpl : MempPlaced sizes base) {t : MempT} {p : Nat}
    (hp : p ∈ u.live t) :
    MempInv sizes base (u.step (.free t p)) (freeAfter free (.free t p)) := by
  obtain ⟨mem, hfree, hlink, hother⟩ := h.tMempFree_eq hpl hp
  have hstep : u.step (.free t p) = ⟨⟨mem, Function.update u.memp.mempTab t (p - sizeofTMemp)⟩,
      Function.update u.live t ((u.live t).erase p)⟩ := by rw [MempUse.step, hfree]
  have hin := (mempBlocks_inside sizes (h.mem_of_live hp)).1
  have hpos := hpl.pos
  have hp8 : p - sizeofTMemp + sizeofTMemp = p := by omega
  have hlive : ∀ t', ∀ q ∈ u.live t', ∀ a ∈ free t', a + sizeofTMemp ≠ q := fun t' q hq a ha =>
    h.ne_of_free_live ha hq
  -- the lists as they were, in the new memory
  have hlist : ∀ t', IsList (links mem) (ptr (u.memp.mempTab t')) (free t') := fun t' => by
    refine (h.list t').congr fun a ha => ?_
    have hne := h.ne_of_free_live ha hp
    have := hother t' _ (h.mem_of_free ha) hne
    rw [Nat.add_sub_cancel] at this
    rw [links, links, this]
  rw [hstep, freeAfter]
  refine ⟨fun t' => ?_, fun t' => ?_, fun t' q hq => ?_⟩
  · by_cases ht : t' = t
    · subst ht
      simp only [Function.update_self]
      refine ⟨ptr_of_pos (by omega), ?_⟩
      rw [links, hlink]
      exact hlist t'
    · simp only [Function.update_of_ne ht]
      exact hlist t'
  · by_cases ht : t' = t
    · subst ht
      simp only [Function.update_self, List.map_cons, hp8, List.cons_append]
      exact (List.perm_middle.symm.trans
        ((List.perm_cons_erase hp).symm.append_left _)).trans (h.blocks t')
    · simp only [Function.update_of_ne ht]
      exact h.blocks t'
  · have hq' : q ∈ u.live t' ∧ q ≠ p := by
      by_cases ht : t' = t
      · subst ht
        simp only [Function.update_self] at hq
        have hnd := (List.nodup_append.mp
          ((h.blocks t').nodup_iff.mpr (nodup_mempBlocks sizes base t'))).2.1
        exact (hnd.mem_erase_iff.mp hq).symm
      · simp only [Function.update_of_ne ht] at hq
        refine ⟨hq, ?_⟩
        rintro rfl
        have := mempBlocks_disjoint sizes (h.mem_of_live hq) (h.mem_of_live hp) (Or.inl ht)
        simp only [sizeofTMemp] at this
        omega
    simp only
    rw [hother t' q (h.mem_of_live hq'.1) hq'.2]
    exact h.link_live t' q hq'.1

/-- A store inside a live block reaches no link. -/
theorem write (h : MempInv sizes base u free) {addr : Nat} {value : UInt8} {t : MempT} {p : Nat}
    (hp : p ∈ u.live t) (h1 : p ≤ addr) (h2 : addr < p + (sizes t).toNat) :
    MempInv sizes base (u.step (.write addr value)) (freeAfter free (.write addr value)) := by
  have hsame : ∀ t', ∀ q ∈ mempBlocks sizes base t',
      mempNext (Function.update u.memp.mem addr value) (q - sizeofTMemp) =
        mempNext u.memp.mem (q - sizeofTMemp) := fun t' q hq => by
    refine mempNext_congr fun i hi hi' => Function.update_of_ne ?_ _ _
    rintro rfl
    have hq8 := (mempBlocks_inside sizes hq).1
    by_cases hne : t = t' ∧ p = q
    · obtain ⟨rfl, rfl⟩ := hne
      simp only [sizeofTMemp] at hi' hq8
      omega
    · rw [not_and_or] at hne
      have := mempBlocks_disjoint sizes (h.mem_of_live hp) hq hne
      simp only [sizeofTMemp] at this hi hi' hq8
      omega
  refine ⟨fun t' => (h.list t').congr fun a ha => ?_, h.blocks, fun t' q hq => ?_⟩
  · have := hsame t' _ (h.mem_of_free ha)
    rw [Nat.add_sub_cancel] at this
    rw [links, MempUse.step, this, links]
  · rw [MempUse.step, hsame t' q (h.mem_of_live hq)]
    exact h.link_live t' q hq

/-- Every legal call keeps the invariant. -/
theorem step (h : MempInv sizes base u free) (hpl : MempPlaced sizes base) {op : MempOp}
    (hop : u.Legal sizes op) : MempInv sizes base (u.step op) (freeAfter free op) := by
  cases op with
  | malloc t => exact h.malloc t
  | free t p => exact h.freeBlock hpl hop
  | write addr value =>
      obtain ⟨t, p, hp, h1, h2⟩ := hop
      exact h.write hp h1 h2

/-- `t_memp_malloc` fails exactly when all blocks are live. -/
theorem malloc_eq_zero_iff (h : MempInv sizes base u free) (t : MempT) :
    (tMempMalloc u.memp t).1 = 0 ↔ (u.live t).Perm (mempBlocks sizes base t) := by
  have hzero : (tMempMalloc u.memp t).1 = 0 ↔ free t = [] := by
    rw [h.free_eq_nil_iff, tMempMalloc]
    by_cases htab : u.memp.mempTab t = 0
    · simp [htab]
    · simp [htab, sizeofTMemp]
  have hblocks := h.blocks t
  rw [hzero]
  constructor
  · intro hf
    rwa [hf] at hblocks
  · intro hlive
    have hlen := hblocks.length_eq
    rw [List.length_append, List.length_map, hlive.length_eq] at hlen
    exact List.length_eq_zero_iff.mp (by omega)

end MempInv

variable (sizes base) in
/-- What is right of the allocator about a type: its free blocks are a list
that ends, free and live blocks together are exactly its `memp_num` blocks,
each once, these are inside `memp_memory` and apart from all others, and
`t_memp_malloc` fails exactly when all of them are live. -/
structure MempCorrect (u : MempUse) (t : MempT) : Prop where
  free : ∃ free, IsList (links u.memp.mem) (ptr (u.memp.mempTab t)) free ∧
    (free.map (· + sizeofTMemp) ++ u.live t).Perm (mempBlocks sizes base t)
  nodup : (mempBlocks sizes base t).Nodup
  length : (mempBlocks sizes base t).length = mempNum t
  inside : ∀ p ∈ mempBlocks sizes base t,
    base + sizeofTMemp ≤ p ∧ p + (sizes t).toNat ≤ base + sizes.memory
  disjoint : ∀ t', ∀ p ∈ mempBlocks sizes base t, ∀ p' ∈ mempBlocks sizes base t',
    t ≠ t' ∨ p ≠ p' →
      p + (sizes t).toNat + sizeofTMemp ≤ p' ∨ p' + (sizes t').toNat + sizeofTMemp ≤ p
  malloc : (tMempMalloc u.memp t).1 = 0 ↔ (u.live t).Perm (mempBlocks sizes base t)

/-- **The allocator** is right after `t_memp_init` and any sequence of calls,
and of stores by users that keep to their blocks. -/
theorem memp_correct (hpl : MempPlaced sizes base) (s : Memp) {ops : List MempOp}
    (hl : Run.Along MempUse.step (MempUse.Legal sizes) ⟨tMempInit sizes base s, fun _ => []⟩ ops)
    (t : MempT) :
    MempCorrect sizes base (Run.final MempUse.step ⟨tMempInit sizes base s, fun _ => []⟩ ops) t := by
  obtain ⟨free, h⟩ := Run.final_of_along (P := fun u => ∃ free, MempInv sizes base u free)
    (fun u op hu hop => by
      obtain ⟨free, hu⟩ := hu
      exact ⟨_, hu.step hpl hop⟩) ⟨_, hpl.init s⟩ hl
  exact {
    free := ⟨free t, h.list t, h.blocks t⟩
    nodup := nodup_mempBlocks sizes base t
    length := length_mempBlocks sizes base t
    inside := fun p hp => mempBlocks_inside sizes hp
    disjoint := fun t' p hp p' hp' hne => mempBlocks_disjoint sizes hp hp' hne
    malloc := h.malloc_eq_zero_iff t }

end

/-! ## a run -/

/-- The sizes of the structures with 8-byte pointers. -/
def mempSizes : MempSizes
  | .tcpipMsg => 24
  | .netconn => 56
  | .apiMsg => 40
  | .udpPcb => 48
  | .netbuf => 32
  | .tcpPcb => 200
  | .tcpSeg => 40

/-- Take two blocks, write into one, and give both back. -/
def mempTwice : List MempOp :=
  [.malloc .tcpipMsg, .malloc .tcpipMsg, .write 4104 7, .free .tcpipMsg 4104, .free .tcpipMsg 4136]

/-- Memory full of ones. -/
def onesMem : Memp := ⟨fun _ => 0xff, fun _ => 0⟩

theorem mempTwice_legal : Run.Along MempUse.step (MempUse.Legal mempSizes)
    ⟨tMempInit mempSizes 4096 onesMem, fun _ => []⟩ mempTwice :=
  ⟨trivial, trivial, ⟨.tcpipMsg, 4104, by decide +kernel, by decide, by decide⟩,
    by rw [MempUse.Legal]; decide +kernel, by rw [MempUse.Legal]; decide +kernel, trivial⟩

theorem mempTwice_correct : MempCorrect mempSizes 4096
    (Run.final MempUse.step ⟨tMempInit mempSizes 4096 onesMem, fun _ => []⟩ mempTwice) .tcpipMsg :=
  memp_correct ⟨by decide, by decide⟩ _ mempTwice_legal _

end TTcp
