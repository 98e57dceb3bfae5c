import TTcp.PbufPool

/-!
# TTcp.PbufTwice

Freeing a pbuf that is free already.

`t_pbuf_free` does not look whether a pbuf is in use.  The count of one that is free is
0 and becomes 65535, and the loop goes on along the free list.  A pbuf on the list whose
count happens to be 1 is pushed a second time, which closes the list to a circle, and the
walk over it does not end.  Otherwise the list stays as it is.
-/

namespace TTcp.PbufPool

open PtrList

/-- The pbufs whose `ref` a call of `t_pbuf_free` brings to zero, in order, of a loop with at
most `n` rounds. -/
def zeroedFrom (n : Nat) (r : Nat × Nat × PbufPool) : List Nat :=
  (Loop.visited freeRound n r).filterMap fun r =>
    if r.1 ≠ 0 ∧ (pbufHdr r.2.2.mem r.1).ref = 1 then some r.1 else none

/-- The pbufs whose `ref` `t_pbuf_free` brings to zero, in order. -/
def zeroed (s : PbufPool) (p : Nat) : List Nat := zeroedFrom rounds (p, 0, s)

section
variable {n p q count count' : Nat} {s s' : PbufPool}

theorem zeroedFrom_null (n count : Nat) (s : PbufPool) : zeroedFrom n (0, count, s) = [] := by
  cases n with
  | zero => rfl
  | succ n => simp [zeroedFrom, Loop.visited, freeRound]

theorem zeroedFrom_done {r : Option (Nat × PbufPool)} (h : freeRound (p, count, s) = .done r) :
    zeroedFrom n (p, count, s) ⊆ [p] := by
  cases n with
  | zero => simp [zeroedFrom, Loop.visited]
  | succ n =>
      rw [zeroedFrom, Loop.visited, h]
      simp only [List.filterMap_cons, List.filterMap_nil]
      split
      · simp
      · next heq => split at heq <;> simp_all

theorem zeroedFrom_next (hp : p ≠ 0) (h : freeRound (p, count, s) = .next (q, count', s')) :
    zeroedFrom (n + 1) (p, count, s) =
      (if (pbufHdr s.mem p).ref = 1 then [p] else []) ++ zeroedFrom n (q, count', s') := by
  rw [zeroedFrom, Loop.visited, h]
  by_cases href : (pbufHdr s.mem p).ref = 1
  · simp [hp, href, zeroedFrom]
  · simp [href, zeroedFrom]

end

/-! ## a pbuf in use -/

section
variable {base p : Nat} {s : PbufPool} {free held : List Nat}

/-- A pbuf in use that is linked to no other is brought to zero. -/
theorem Owned.zeroed_eq (h : Owned base s free (p :: held)) (hpl : Placed base)
    (hnext : (pbufHdr s.mem p).next = 0) : zeroed s p = [p] := by
  obtain ⟨mem, hround, -⟩ := h.freeRound_eq hpl 0
  have hpos := (addrs_inside (h.mem_of_held List.mem_cons_self)).1
  have hp : p ≠ 0 := by
    have := hpl.pos
    omega
  rw [zeroed, zeroedFrom_next hp hround, hnext, zeroedFrom_null,
    if_pos (h.ref p List.mem_cons_self)]
  rfl

end

/-! ## a free pbuf -/

/-- A walk over the free list that ends shows a list. -/
theorem exists_isList_of_countFree {s : PbufPool} {n : Nat} (h : countFree s = some n) :
    ∃ l, IsList (links s.mem) (ptr s.pbufPool) l := by
  have hrun : ∀ k q count, Loop.run (countRound s.mem) k (q, count) = some n →
      ∃ l, IsList (links s.mem) (ptr q) l := fun k => by
    induction k with
    | zero =>
        intro q count hrun
        cases hrun
    | succ k ih =>
        intro q count hrun
        rw [Loop.run, countRound] at hrun
        by_cases hq : q = 0
        · exact ⟨[], by rw [hq]; rfl⟩
        · rw [if_pos hq] at hrun
          obtain ⟨l, hl⟩ := ih _ _ hrun
          exact ⟨q :: l, ptr_of_pos (Nat.pos_of_ne_zero hq), hl⟩
  exact hrun _ _ _ h

namespace Owned

variable {base p : Nat} {s : PbufPool} {free : List Nat} (h : Owned base s free [])
include h

/-- Pushing a pbuf that is on the list closes a circle. -/
theorem countFree_push (hpl : Placed base) {mem : ByteMem} (hp : p ∈ free)
    (honly : HdrOnly p s.mem mem) (hnext : (pbufHdr mem p).next = s.pbufPool) :
    countFree ⟨mem, p⟩ = none := by
  by_contra hne
  obtain ⟨n, hn⟩ := Option.ne_none_iff_exists'.mp hne
  obtain ⟨l, hl⟩ := exists_isList_of_countFree hn
  rw [ptr_of_pos (hpl.pos.trans_le (addrs_inside (h.mem_of_free hp)).1)] at hl
  -- the links from `p` on lead nowhere but to pbufs of the list
  have hupdate : ∀ a ∈ free,
      links mem a = Function.update (links s.mem) p (ptr s.pbufPool) a := fun a ha => by
    by_cases hap : a = p
    · rw [hap, Function.update_self, links, hnext]
    · rw [Function.update_of_ne hap, links, links,
        hdr_of_ne honly (h.mem_of_free hp) (h.mem_of_free ha) hap]
  have hclosed : ∀ a ∈ free, ∀ b ∈ Function.update (links s.mem) p (ptr s.pbufPool) a, b ∈ free :=
    fun a ha b hb => by
      by_cases hap : a = p
      · rw [hap, Function.update_self] at hb
        exact h.list.mem_head hb (List.ne_nil_of_mem ha)
      · rw [Function.update_of_ne hap] at hb
        exact h.list.mem_next ha hb
  have hpush : IsList (Function.update (links s.mem) p (ptr s.pbufPool)) (some p) l :=
    hl.congr_of_closed (S := (· ∈ free)) (fun a ha => Option.some.inj ha ▸ hp) hclosed hupdate
  exact h.list.not_isList_push hp hpush

/-- One round at a free pbuf does not end, or goes on with the next one of the list and
leaves the list as it is. -/
theorem freeRound_free (hpl : Placed base) (hp : p ∈ free) (count : Nat) :
    freeRound (p, count, s) = .done none ∨
      ∃ mem, freeRound (p, count, s) =
          .next ((pbufHdr s.mem p).next, count + 1, ⟨mem, s.pbufPool⟩) ∧
        (∀ q ∈ free, links mem q = links s.mem q) ∧ Owned base ⟨mem, s.pbufPool⟩ free [] := by
  have hpos : 0 < p := hpl.pos.trans_le (addrs_inside (h.mem_of_free hp)).1
  obtain ⟨mem, hset⟩ : ∃ mem, mem = pbufSetRef s.mem p ((pbufHdr s.mem p).ref - 1) := ⟨_, rfl⟩
  have honly : HdrOnly p s.mem mem := hset ▸ (HdrOnly.refl p s.mem).setRef _
  have hnext : (pbufHdr mem p).next = (pbufHdr s.mem p).next := by rw [hset, pbufHdr_setRef]
  rw [freeRound, if_pos hpos.ne']
  simp only [← hset]
  by_cases hpush : (pbufHdr mem p).ref = 0 ∧ (pbufHdr mem p).flags = tPbufFlagPool
  · have hcount := h.countFree_push hpl hp (honly.setNext s.pbufPool)
      (by rw [pbufHdr_setNext (h.pbufPool_lt hpl)])
    rw [if_pos hpush, hcount]
    exact Or.inl rfl
  · have hlinks : ∀ q ∈ free, links mem q = links s.mem q := fun q hq => by
      by_cases hqp : q = p
      · rw [hqp, links, links, hnext]
      · rw [links, links, hdr_of_ne honly (h.mem_of_free hp) (h.mem_of_free hq) hqp]
    rw [if_neg hpush, hnext]
    exact Or.inr ⟨mem, rfl, hlinks,
      h.list.congr hlinks, h.nodup, h.pbufs, by simp, by simp⟩

/-- The loop of `t_pbuf_free` from a free pbuf on: if it ends, the list is as it was. -/
theorem run_freeRound_free (hpl : Placed base) {rest : List Nat}
    (hrest : IsList (links s.mem) (ptr p) rest) (hsub : rest ⊆ free) (count : Nat) {n : Nat}
    {r : Nat × PbufPool} (hr : Loop.run freeRound n (p, count, s) = some (some r)) :
    Owned base r.2 free [] := by
  induction rest generalizing p s count n with
  | nil =>
      obtain rfl := ptr_eq_none_iff.mp hrest
      cases n with
      | zero => cases hr
      | succ n =>
          obtain rfl := Option.some.inj (Option.some.inj hr)
          exact h
  | cons a l ih =>
      obtain ⟨rfl, hpos⟩ := ptr_eq_some_iff.mp hrest.1
      have hl := (List.cons_subset.mp hsub).2
      cases n with
      | zero => cases hr
      | succ n =>
          rw [Loop.run] at hr
          obtain hround | ⟨mem, hround, hlinks, howned⟩ :=
            h.freeRound_free hpl (hsub List.mem_cons_self) count
          · rw [hround] at hr
            cases hr
          · rw [hround] at hr
            exact ih howned (hrest.2.congr fun q hq => hlinks q (hl hq)) hl _ hr

/-- It brings no other pbufs to zero than those it passes. -/
theorem zeroedFrom_free (hpl : Placed base) {rest : List Nat}
    (hrest : IsList (links s.mem) (ptr p) rest) (hsub : rest ⊆ free) (count n : Nat) :
    zeroedFrom n (p, count, s) ⊆ rest := by
  induction rest generalizing p s count n with
  | nil =>
      obtain rfl := ptr_eq_none_iff.mp hrest
      rw [zeroedFrom_null]
      exact List.nil_subset _
  | cons a l ih =>
      obtain ⟨rfl, hpos⟩ := ptr_eq_some_iff.mp hrest.1
      have hl := (List.cons_subset.mp hsub).2
      obtain hround | ⟨mem, hround, hlinks, howned⟩ :=
        h.freeRound_free hpl (hsub List.mem_cons_self) count
      · exact List.Subset.trans (zeroedFrom_done hround) (by simp)
      · cases n with
        | zero => exact List.nil_subset _
        | succ n =>
            have hrest' := ih howned (hrest.2.congr fun q hq => hlinks q (hl hq)) hl (count + 1) n
            rw [zeroedFrom_next hpos.ne' hround]
            refine List.append_subset.mpr ⟨?_, List.Subset.trans hrest' (List.subset_cons_self _ _)⟩
            split
            · simp
            · exact List.nil_subset _

/-- **Freeing the first free pbuf once more**: if `t_pbuf_free` returns, the free list is
as it was, and the pbuf was not brought to zero again. -/
theorem tPbufFree_free (hpl : Placed base) {l : List Nat} (hfree : free = p :: l)
    (href : (pbufHdr s.mem p).ref = 0) {r : Nat × PbufPool} (hr : tPbufFree s p = some r) :
    Owned base r.2 free [] ∧ p ∉ zeroed s p := by
  have hlist := h.list
  rw [hfree] at hlist
  obtain ⟨hpool, hpos⟩ := ptr_eq_some_iff.mp hlist.1
  have hrest : IsList (links s.mem) (ptr p) free := by rw [← hpool]; exact h.list
  refine ⟨h.run_freeRound_free hpl hrest (List.Subset.refl _) 0 (Option.join_eq_some_iff.mp hr),
    ?_⟩
  have hp : p ∈ free := hfree ▸ List.mem_cons_self
  have hl : l ⊆ free := fun q hq => hfree ▸ List.mem_cons_of_mem p hq
  obtain hround | ⟨mem, hround, hlinks, howned⟩ := h.freeRound_free hpl hp 0
  · rw [tPbufFree, Loop.run, hround] at hr
    cases hr
  · rw [zeroed, zeroedFrom_next hpos.ne' hround, if_neg (by rw [href]; decide), List.nil_append]
    intro hmem
    have hsub := howned.zeroedFrom_free hpl (hlist.2.congr fun q hq => hlinks q (hl hq)) hl _ _ hmem
    exact (List.nodup_cons.mp hlist.nodup).1 hsub

end Owned

end TTcp.PbufPool
