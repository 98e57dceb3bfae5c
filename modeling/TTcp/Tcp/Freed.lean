import TTcp.Api.Cursor

/-!
# TTcp.Tcp.Freed

What `t_pbuf_free`, `t_tcp_seg_free` and `t_tcp_segs_free` (`core/t_tcp.c`) return.

`t_pbuf_free` counts what it frees in the variable that its walk over the free list
then takes for its own.  So it returns how many pbufs are free in the end, and that is
the number of pbufs freed only if none was free before.  `t_tcp_segs_free` adds such
numbers in eight bits.
-/

namespace TTcp

open PtrList PbufPool

/-! ## the calls -/

/-- `struct t_tcp_seg`, without what freeing does not use. -/
structure SegHdr where
  next : Nat
  p : Nat

/-- The pbufs, the blocks, and the segments at their addresses. -/
structure SegHeap where
  pool : PbufPool
  memp : Memp
  seg : Nat → SegHdr

namespace SegHeap

/-- `t_tcp_seg_free`.  `none` when `t_pbuf_free` does not return. -/
def tTcpSegFree (s : SegHeap) (seg : Nat) : Option (UInt8 × SegHeap) := do
  if seg ≠ 0 then
    let (count, pool) ←
      if (s.seg seg).p ≠ 0 then
        (PbufPool.tPbufFree s.pool (s.seg seg).p).map fun r => (UInt8.ofNat r.1, r.2)
      else some (0, s.pool)
    some (count, { s with pool, memp := tMempFree s.memp .tcpSeg seg })
  else some (0, s)

/-- One round of the loop of `t_tcp_segs_free`. -/
def segsFreeRound : Nat × UInt8 × SegHeap →
    Loop.Step (Nat × UInt8 × SegHeap) (Option (UInt8 × SegHeap))
  | (seg, count, s) =>
      if seg ≠ 0 then
        let next := (s.seg seg).next
        match tTcpSegFree s seg with
        | none => .done none
        | some (n, s) => .next (next, count + n, s)
      else .done (some (count, s))

/-- `t_tcp_segs_free`.  `none` when a loop of it does not end. -/
def tTcpSegsFree (s : SegHeap) (seg : Nat) : Option (UInt8 × SegHeap) :=
  (Loop.run segsFreeRound rounds (seg, 0, s)).join

end SegHeap

/-! ## truthful counts -/

/-- `t_pbuf_free` returns the pbufs of the chain at `p` to the free list, each once, and
returns how many they are. -/
def ChainFreed (base : Nat) (s : PbufPool) (p : Nat) (free chain held : List Nat) : Prop :=
  ∃ count s' free', PbufPool.tPbufFree s p = some (count, s') ∧ Owned base s' free' held ∧
    free'.Perm (chain ++ free) ∧ count = chain.length

/-- `t_tcp_segs_free` returns the pbufs of all segments on the list at `seg` to the free
list, each once, and returns how many they are. -/
def SegsFreed (base : Nat) (s : SegHeap) (seg : Nat) (free pbufs held : List Nat) : Prop :=
  ∃ count s' free', s.tTcpSegsFree seg = some (count, s') ∧ Owned base s'.pool free' held ∧
    free'.Perm (pbufs ++ free) ∧ count.toNat = pbufs.length

/-- The segments on the list at `seg`, and the chains of pbufs that they have. -/
structure SegList (s : SegHeap) (seg : Nat) (segs : List Nat) (chain : Nat → List Nat) : Prop where
  list : IsList (fun a => ptr (s.seg a).next) (ptr seg) segs
  addr : ∀ a ∈ segs, a < 2 ^ 64
  chain : ∀ a ∈ segs, IsList (PbufPool.links s.pool.mem) (ptr (s.seg a).p) (chain a)

/-- The pbufs that are free when the turn of a segment comes that has some, added up.
There are `free` in the beginning, and the segments have as many as the list says. -/
def overcount : Nat → List Nat → Nat
  | _, [] => 0
  | free, n :: ns => (if n = 0 then 0 else free) + overcount (free + n) ns

/-! ## one chain -/

section
variable {base : Nat} {s : PbufPool} {p : Nat} {free chain held : List Nat}

/-- The count is that of the chain if it counts no other free pbufs. -/
theorem chainFreed_iff (hpl : Placed base) (h : Owned base s free (chain ++ held))
    (hchain : IsList (PbufPool.links s.mem) (ptr p) chain) :
    ChainFreed base s p free chain held ↔ chain = [] ∨ free = [] := by
  obtain ⟨s', hfree, howned, -⟩ := h.tPbufFree_chain hpl hchain
  have hperm : (chain.reverse ++ free).Perm (chain ++ free) :=
    chain.reverse_perm.append_right free
  have hcount : (if chain = [] then 0 else free.length + chain.length) = chain.length ↔
      chain = [] ∨ free = [] := by
    by_cases hnil : chain = []
    · simp [hnil]
    · simp [hnil]
  rw [← hcount]
  constructor
  · rintro ⟨count, s'', free', heq, -, -, hlen⟩
    rw [hfree] at heq
    obtain ⟨rfl, -⟩ := Prod.mk.inj (Option.some.inj heq)
    exact hlen
  · intro hlen
    exact ⟨_, s', _, hfree, howned, hperm, hlen⟩

end

/-! ## a list of segments -/

namespace SegList

variable {base : Nat} {s : SegHeap} {seg : Nat} {segs free held : List Nat}
variable {chain : Nat → List Nat}

theorem length_lt_rounds (hl : SegList s seg segs chain) : segs.length < rounds := by
  have hsub : segs ⊆ List.range (2 ^ 64) := fun a ha => List.mem_range.mpr (hl.addr a ha)
  have hlen := (hl.list.nodup.subperm hsub).length_le
  rw [List.length_range] at hlen
  exact Nat.lt_succ_of_le hlen

/-- `t_tcp_seg_free` of the first segment frees its chain, and leaves a list of the
others. -/
theorem tTcpSegFree_cons {a : Nat} (hpl : Placed base) (hl : SegList s seg (a :: segs) chain)
    (h : Owned base s.pool free ((a :: segs).flatMap chain ++ held)) : ∃ s',
      s.tTcpSegFree a = some (UInt8.ofNat (if (chain a).length = 0 then 0
        else free.length + (chain a).length), s') ∧ s'.seg = s.seg ∧
      Owned base s'.pool ((chain a).reverse ++ free) (segs.flatMap chain ++ held) ∧
      SegList s' (s.seg a).next segs chain := by
  obtain ⟨hhead, hrest⟩ := hl.list
  obtain ⟨rfl, hpos⟩ := ptr_eq_some_iff.mp hhead
  have hchain := hl.chain seg List.mem_cons_self
  rw [List.flatMap_cons, List.append_assoc] at h
  obtain ⟨pool, hfree, howned, hsame⟩ := h.tPbufFree_chain hpl hchain
  -- the chains of the others are apart from this one
  have hothers : ∀ a ∈ segs, IsList (PbufPool.links pool.mem) (ptr (s.seg a).p) (chain a) :=
    fun a ha => (hl.chain a (List.mem_cons_of_mem seg ha)).congr fun q hq => by
      have hmem : q ∈ segs.flatMap chain ++ held :=
        List.mem_append_left _ (List.mem_flatMap.mpr ⟨a, ha, hq⟩)
      have hnd := (List.nodup_append.mp h.nodup).2.1
      rw [PbufPool.links, PbufPool.links, hsame q (h.mem_of_held (List.mem_append_right _ hmem))
        fun hq' => (List.nodup_append.mp hnd).2.2 q hq' q hmem rfl]
  refine ⟨{ s with pool, memp := tMempFree s.memp .tcpSeg seg }, ?_, rfl, howned, hrest,
    fun a ha => hl.addr a (List.mem_cons_of_mem seg ha), hothers⟩
  have hnil := NetbufUse.chain_eq_nil_iff hchain
  simp only [SegHeap.tTcpSegFree, if_pos hpos.ne', List.length_eq_zero_iff]
  by_cases hp : (s.seg seg).p = 0
  · -- `t_pbuf_free` is not called, and would have done nothing
    have hnull : PbufPool.tPbufFree s.pool 0 = some (0, s.pool) := rfl
    rw [hp, hnull] at hfree
    obtain ⟨-, rfl⟩ := Prod.mk.inj (Option.some.inj hfree)
    rw [if_pos (hnil.mpr hp), if_neg (not_not.mpr hp)]
    rfl
  · rw [if_pos hp, hfree]
    rfl

/-- The loop of `t_tcp_segs_free` frees the chains of all segments.  Each adds the pbufs
that are free after it. -/
theorem run_segsFreeRound (hpl : Placed base) (hl : SegList s seg segs chain)
    (h : Owned base s.pool free (segs.flatMap chain ++ held)) (count : UInt8) {n : Nat}
    (hn : segs.length < n) : ∃ s' free',
      Loop.run SegHeap.segsFreeRound n (seg, count, s) =
        some (some (count + UInt8.ofNat (overcount free.length (segs.map fun a => (chain a).length)
          + (segs.flatMap chain).length), s')) ∧
      Owned base s'.pool free' held ∧ free'.Perm (segs.flatMap chain ++ free) := by
  induction segs generalizing s seg free count n with
  | nil =>
      obtain ⟨n, rfl⟩ : ∃ m, n = m + 1 := ⟨n - 1, by simp at hn; omega⟩
      obtain rfl := ptr_eq_none_iff.mp hl.list
      refine ⟨s, free, ?_, h, List.Perm.refl _⟩
      simp [Loop.run, SegHeap.segsFreeRound, overcount]
  | cons a segs ih =>
      obtain ⟨n, rfl⟩ : ∃ m, n = m + 1 := ⟨n - 1, by omega⟩
      obtain ⟨rfl, hpos⟩ := ptr_eq_some_iff.mp hl.list.1
      obtain ⟨s1, hfree, -, howned, hl1⟩ := hl.tTcpSegFree_cons hpl h
      obtain ⟨k, hk⟩ : ∃ k, k = (if (chain seg).length = 0 then 0
        else free.length + (chain seg).length) := ⟨_, rfl⟩
      rw [← hk] at hfree
      obtain ⟨s', free', hrun, howned', hperm⟩ := ih hl1 howned (count + UInt8.ofNat k)
        (by simpa using hn)
      refine ⟨s', free', ?_, howned', ?_⟩
      · rw [List.length_append, List.length_reverse, Nat.add_comm (chain seg).length,
          UInt8.add_assoc, ← UInt8.ofNat_add] at hrun
        have hsum : ∀ x y, (if (chain seg).length = 0 then 0 else free.length) + x +
            ((chain seg).length + y) = k + (x + y) := fun x y => by
          rw [hk]
          split <;> omega
        rw [Loop.run, SegHeap.segsFreeRound, if_pos hpos.ne', hfree]
        simp only [hrun, List.map_cons, List.flatMap_cons, List.length_append, overcount, hsum]
      · refine hperm.trans ?_
        rw [List.flatMap_cons, List.append_assoc]
        refine List.Perm.trans ?_ (List.perm_append_comm_assoc _ _ _)
        exact ((chain seg).reverse_perm.append_right free).append_left _

/-- What the numbers that are added are too large by does not show if it is a multiple
of 256. -/
theorem segsFreed_iff (hpl : Placed base) (hl : SegList s seg segs chain)
    (h : Owned base s.pool free (segs.flatMap chain ++ held)) :
    SegsFreed base s seg free (segs.flatMap chain) held ↔
      256 ∣ overcount free.length (segs.map fun a => (chain a).length) := by
  obtain ⟨s', free', hrun, howned, hperm⟩ := hl.run_segsFreeRound hpl h 0 hl.length_lt_rounds
  rw [UInt8.zero_add] at hrun
  have hfree : s.tTcpSegsFree seg = some (UInt8.ofNat
      (overcount free.length (segs.map fun a => (chain a).length) +
        (segs.flatMap chain).length), s') := by
    rw [SegHeap.tTcpSegsFree, hrun]
    rfl
  have hpool : (segs.flatMap chain).length ≤ 30 := by
    have hlen := h.length_le
    rw [List.length_append] at hlen
    simp only [tPbufPoolSize] at hlen
    omega
  have hcount : (UInt8.ofNat (overcount free.length (segs.map fun a => (chain a).length) +
      (segs.flatMap chain).length)).toNat = (segs.flatMap chain).length ↔
        256 ∣ overcount free.length (segs.map fun a => (chain a).length) := by
    rw [UInt8.toNat_ofNat']
    omega
  rw [← hcount]
  constructor
  · rintro ⟨count, s'', free'', heq, -, -, hlen⟩
    rw [hfree] at heq
    obtain ⟨rfl, -⟩ := Prod.mk.inj (Option.some.inj heq)
    exact hlen
  · intro hlen
    exact ⟨_, s', free', hfree, howned, hperm, hlen⟩

end SegList

/-- **Freed counts are truthful**: that of `t_pbuf_free` exactly when there is nothing to
free or no pbuf is free yet, that of `t_tcp_segs_free` exactly when the pbufs that are
free when the turn of a segment with pbufs comes add up to a multiple of 256. -/
theorem freed_counts_iff {base : Nat} (hpl : Placed base) {s : SegHeap}
    {free chain segs held held' : List Nat} {p seg : Nat} {chains : Nat → List Nat}
    (hp : Owned base s.pool free (chain ++ held))
    (hchain : IsList (PbufPool.links s.pool.mem) (ptr p) chain)
    (hs : Owned base s.pool free (segs.flatMap chains ++ held'))
    (hsegs : SegList s seg segs chains) :
    (ChainFreed base s.pool p free chain held ↔ chain = [] ∨ free = []) ∧
      (SegsFreed base s seg free (segs.flatMap chains) held' ↔
        256 ∣ overcount free.length (segs.map fun a => (chains a).length)) :=
  ⟨chainFreed_iff hpl hp hchain, hsegs.segsFreed_iff hpl hs⟩

/-! ## one pbuf -/

/-- A segment at 8192 with the pbuf at 4096. -/
def oneSegment (pool : PbufPool) : SegHeap where
  pool := pool
  memp := onesMem
  seg := fun _ => ⟨0, 4096⟩

section
variable {pool : PbufPool} {free : List Nat}

theorem oneSegment_owned (h : Owned 4096 pool free [4096]) :
    Owned 4096 (oneSegment pool).pool free ([8192].flatMap (fun _ => [4096]) ++ []) := h

theorem oneSegment_segList (h : IsList (PbufPool.links pool.mem) (ptr 4096) [4096]) :
    SegList (oneSegment pool) 8192 [8192] fun _ => [4096] :=
  ⟨⟨rfl, rfl⟩, by simp, fun _ _ => h⟩

end

theorem freed_counts_one : ∃ pool free,
    (ChainFreed 4096 (oneSegment pool).pool 4096 free [4096] [] ↔ [4096] = [] ∨ free = []) ∧
      (SegsFreed 4096 (oneSegment pool) 8192 free [4096] [] ↔
        256 ∣ overcount free.length [1]) := by
  obtain ⟨free, -, howned, hchain⟩ := NetbufUse.samplePool_owned
  exact ⟨NetbufUse.samplePool, free, freed_counts_iff sample_placed (oneSegment_owned howned)
    hchain (oneSegment_owned howned) (oneSegment_segList hchain)⟩

/-- With 29 pbufs free, freeing one returns 30, both ways. -/
theorem not_freed_counts :
    (¬ ∀ (base : Nat) (s : PbufPool) (p : Nat) (free chain held : List Nat), Placed base →
      Owned base s free (chain ++ held) → IsList (PbufPool.links s.mem) (ptr p) chain →
      ChainFreed base s p free chain held) ∧
    ¬ ∀ (base : Nat) (s : SegHeap) (seg : Nat) (free segs held : List Nat)
      (chain : Nat → List Nat), Placed base → Owned base s.pool free (segs.flatMap chain ++ held) →
      SegList s seg segs chain → SegsFreed base s seg free (segs.flatMap chain) held := by
  obtain ⟨free, hlen, howned, hchain⟩ := NetbufUse.samplePool_owned
  have hsegs := oneSegment_segList hchain
  constructor
  · intro hall
    have hone := (chainFreed_iff sample_placed howned hchain).mp
      (hall 4096 NetbufUse.samplePool 4096 free [4096] [] sample_placed howned hchain)
    rcases hone with hnil | hnil
    · cases hnil
    · rw [hnil] at hlen
      cases hlen
  · intro hall
    have hone := (hsegs.segsFreed_iff sample_placed (oneSegment_owned howned)).mp
      (hall 4096 _ 8192 free [8192] [] _ sample_placed (oneSegment_owned howned) hsegs)
    rw [hlen] at hone
    revert hone
    decide

end TTcp
