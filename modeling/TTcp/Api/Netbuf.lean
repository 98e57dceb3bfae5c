import TTcp.PbufPool

/-!
# TTcp.Api.Netbuf

Network buffers (`api/t_api_lib.c`): a `struct t_netbuf` points to the first pbuf
of a chain, and to the one that its user looks at.

`t_netbuf_copy_partial` copies from the middle of a chain, byte by byte, with one
16-bit counter that runs through two loops.  What it writes is a slice of the
bytes of the chain (`netbuf_copy_partial`).
-/

namespace TTcp

open PtrList PbufPool

/-- The pointers of a `struct t_netbuf`. -/
structure Netbuf where
  p : Nat
  ptr : Nat
deriving DecidableEq, Repr

/-! ## copying -/

/-- How the inner loop of `t_netbuf_copy_partial` is left. -/
inductive ByteLoop where
  | returned (mem : ByteMem)
  | ended (mem : ByteMem) (left : UInt16)

/-- One round of the inner loop: `i` in the pbuf, `left` in the destination. -/
def copyByteRound (p dataptr : Nat) (len : UInt16) : ByteMem × UInt16 × UInt16 →
    Loop.Step (ByteMem × UInt16 × UInt16) ByteLoop
  | (mem, i, left) =>
      if i < (pbufHdr mem p).len then
        let mem := Function.update mem (dataptr + left.toNat)
          (mem ((pbufHdr mem p).payload + i.toNat))
        if left + 1 ≥ len then .done (.returned mem) else .next (mem, i + 1, left + 1)
      else .done (.ended mem left)

/-- One round of the outer loop.  `none` when the inner loop does not end. -/
def copyPbufRound (dataptr : Nat) (len : UInt16) : ByteMem × Nat × UInt16 × UInt16 →
    Loop.Step (ByteMem × Nat × UInt16 × UInt16) (Option ByteMem)
  | (mem, p, left, offset) =>
      if left < len ∧ p ≠ 0 then
        if offset ≠ 0 ∧ offset ≥ (pbufHdr mem p).len then
          .next (mem, (pbufHdr mem p).next, left, offset - (pbufHdr mem p).len)
        else
          match Loop.run (copyByteRound p dataptr len) 65536 (mem, offset, left) with
          | none => .done none
          | some (.returned mem) => .done (some mem)
          | some (.ended mem left) => .next (mem, (pbufHdr mem p).next, left, 0)
      else .done (some mem)

/-- `t_netbuf_copy_partial`: the memory after it.  `none` stands for a null `buf`,
and as a result for a loop that does not end. -/
def tNetbufCopyPartial (mem : ByteMem) (buf : Option Netbuf) (dataptr : Nat)
    (len offset : UInt16) : Option ByteMem :=
  match buf with
  | none => some mem
  | some buf =>
      if dataptr = 0 then some mem
      else (Loop.run (copyPbufRound dataptr len) rounds (mem, buf.p, 0, offset)).join

/-- `t_netbuf_copy`. -/
def tNetbufCopy (mem : ByteMem) (buf : Option Netbuf) (dataptr : Nat) (len : UInt16) :
    Option ByteMem :=
  tNetbufCopyPartial mem buf dataptr len 0

/-! ## what is copied -/

/-- The bytes of a pbuf. -/
def pbufBytes (mem : ByteMem) (p : Nat) : List UInt8 :=
  mem.slice (pbufHdr mem p).payload (pbufHdr mem p).len.toNat

/-- The bytes of the pbufs of a chain. -/
def chainBytes (mem : ByteMem) (ps : List Nat) : List UInt8 := ps.flatMap (pbufBytes mem)

/-- The `n` bytes at `dataptr` belong to none of the pbufs. -/
structure Apart (mem : ByteMem) (ps : List Nat) (dataptr n : Nat) : Prop where
  header : ∀ p ∈ ps, p + sizeofTPbuf ≤ dataptr ∨ dataptr + n ≤ p
  payload : ∀ p ∈ ps,
    (pbufHdr mem p).payload + (pbufHdr mem p).len.toNat ≤ dataptr ∨
      dataptr + n ≤ (pbufHdr mem p).payload

section
variable {mem : ByteMem} {dataptr n : Nat} {w : List UInt8}

@[simp] theorem length_pbufBytes (mem : ByteMem) (p : Nat) :
    (pbufBytes mem p).length = (pbufHdr mem p).len.toNat := ByteMem.length_slice _ _ _

/-- What is written to the destination leaves the headers alone. -/
theorem pbufHdr_put {p : Nat} (h : p + sizeofTPbuf ≤ dataptr ∨ dataptr + n ≤ p)
    (hw : w.length ≤ n) : pbufHdr (mem.put dataptr w) p = pbufHdr mem p :=
  pbufHdr_congr fun i hi hi' => ByteMem.put_apply_of_disjoint _ (by omega)

/-- One byte more of a pbuf. -/
theorem drop_pbufBytes (mem : ByteMem) {p i : Nat} (hi : i < (pbufHdr mem p).len.toNat) :
    (pbufBytes mem p).drop i =
      mem ((pbufHdr mem p).payload + i) :: (pbufBytes mem p).drop (i + 1) := by
  rw [List.drop_eq_getElem_cons (by rwa [length_pbufBytes])]
  congr 1
  exact ByteMem.getElem_slice ..

/-- The inner loop appends what is left of the pbuf, or as much of it as fits. -/
theorem run_copyByteRound {p : Nat} {len : UInt16} (hmem : Apart mem [p] dataptr len.toNat)
    {i left : UInt16} (hw : w.length = left.toNat) (hleft : left < len)
    (hi : i.toNat ≤ (pbufHdr mem p).len.toNat) {k : Nat}
    (hk : (pbufHdr mem p).len.toNat - i.toNat < k) :
    Loop.run (copyByteRound p dataptr len) k (mem.put dataptr w, i, left) =
      let rest := (pbufBytes mem p).drop i.toNat
      if len.toNat ≤ left.toNat + rest.length then
        some (.returned (mem.put dataptr (w ++ rest.take (len.toNat - left.toNat))))
      else some (.ended (mem.put dataptr (w ++ rest)) (left + UInt16.ofNat rest.length)) := by
  have hlt := UInt16.lt_iff_toNat_lt.mp hleft
  induction k generalizing i left w with
  | zero => omega
  | succ k ih =>
      have hhdr : pbufHdr (mem.put dataptr w) p = pbufHdr mem p :=
        pbufHdr_put (hmem.header p List.mem_cons_self) (by omega)
      have hout := hmem.payload p List.mem_cons_self
      have hll := len.toNat_lt
      rw [Loop.run, copyByteRound]
      simp only [hhdr]
      by_cases hin : i < (pbufHdr mem p).len
      · have hin' := UInt16.lt_iff_toNat_lt.mp hin
        have hplen := (pbufHdr mem p).len.toNat_lt
        have hi1 : (i + 1).toNat = i.toNat + 1 := by
          rw [UInt16.toNat_add, show (1 : UInt16).toNat = 1 from rfl]
          omega
        have hleft1 : (left + 1).toNat = left.toNat + 1 := by
          rw [UInt16.toNat_add, show (1 : UInt16).toNat = 1 from rfl]
          omega
        have hbyte : mem.put dataptr w ((pbufHdr mem p).payload + i.toNat) =
            mem ((pbufHdr mem p).payload + i.toNat) :=
          ByteMem.put_apply_of_disjoint _ (by omega)
        rw [if_pos hin, hbyte, ← hw, ByteMem.update_put, drop_pbufBytes mem hin']
        generalize mem ((pbufHdr mem p).payload + i.toNat) = b
        by_cases hfull : left + 1 ≥ len
        · have hfull' := UInt16.le_iff_toNat_le.mp hfull
          rw [if_pos hfull]
          simp only
          rw [if_pos (by rw [List.length_cons]; omega),
            show len.toNat - w.length = 1 by omega, List.take_succ_cons, List.take_zero]
        · have hnot := UInt16.lt_iff_toNat_lt.mp (UInt16.not_le.mp hfull)
          rw [if_neg hfull]
          simp only
          rw [ih (w := w ++ [b]) (by rw [List.length_append, hw, hleft1]; rfl)
            (UInt16.not_le.mp hfull) (by omega) (by omega) (by omega), hi1, hleft1]
          have htake : len.toNat - w.length = (len.toNat - (left.toNat + 1)) + 1 := by omega
          have hsum : left + 1 + UInt16.ofNat ((pbufBytes mem p).drop (i.toNat + 1)).length =
              left + UInt16.ofNat (((pbufBytes mem p).drop (i.toNat + 1)).length + 1) := by
            rw [UInt16.ofNat_add, add_assoc, add_comm 1]
            rfl
          simp only [List.length_cons, List.append_assoc, List.cons_append, List.nil_append, htake,
            List.take_succ_cons, hsum]
          refine if_congr ?_ rfl rfl
          omega
      · have hrest : (pbufBytes mem p).drop i.toNat = [] := List.drop_eq_nil_of_le (by
          rw [length_pbufBytes]
          exact UInt16.le_iff_toNat_le.mp (UInt16.not_lt.mp hin))
        rw [if_neg hin]
        simp only [hrest, List.length_nil, Nat.add_zero, List.append_nil]
        rw [if_neg (by omega)]
        simp

theorem Apart.mono {ps qs : List Nat} (h : Apart mem ps dataptr n) (hsub : qs ⊆ ps) :
    Apart mem qs dataptr n :=
  ⟨fun p hp => h.header p (hsub hp), fun p hp => h.payload p (hsub hp)⟩

/-- The outer loop appends what is left of the chain, or as much of it as fits. -/
theorem run_copyPbufRound {len : UInt16} {ps : List Nat} (hmem : Apart mem ps dataptr len.toNat)
    {p : Nat} (hps : IsList (PbufPool.links mem) (ptr p) ps) {left : UInt16} (offset : UInt16)
    (hw : w.length = left.toNat) (hle : left ≤ len) {k : Nat} (hk : ps.length < k) :
    Loop.run (copyPbufRound dataptr len) k (mem.put dataptr w, p, left, offset) =
      some (some (mem.put dataptr
        (w ++ ((chainBytes mem ps).drop offset.toNat).take (len.toNat - left.toNat)))) := by
  have hle' := UInt16.le_iff_toNat_le.mp hle
  induction ps generalizing p k w left offset with
  | nil =>
      obtain ⟨k, rfl⟩ : ∃ m, k = m + 1 := ⟨k - 1, by simp at hk; omega⟩
      obtain rfl := ptr_eq_none_iff.mp hps
      rw [Loop.run, copyPbufRound, if_neg (by simp)]
      simp [chainBytes]
  | cons a l ih =>
      obtain ⟨k, rfl⟩ : ∃ m, k = m + 1 := ⟨k - 1, by omega⟩
      obtain ⟨hhead, hl⟩ := hps
      obtain ⟨rfl, hpos⟩ := ptr_eq_some_iff.mp hhead
      have hhdr : pbufHdr (mem.put dataptr w) p = pbufHdr mem p :=
        pbufHdr_put (hmem.header p List.mem_cons_self) (by omega)
      have hmem' := hmem.mono (List.subset_cons_self p l)
      have hbytes : chainBytes mem (p :: l) = pbufBytes mem p ++ chainBytes mem l :=
        List.flatMap_cons
      have hk' : l.length < k := by simpa using hk
      rw [Loop.run, copyPbufRound]
      simp only [hhdr, hbytes]
      by_cases hleft : left < len
      · have hlt := UInt16.lt_iff_toNat_lt.mp hleft
        rw [if_pos ⟨hleft, hpos.ne'⟩]
        by_cases hskip : offset ≠ 0 ∧ offset ≥ (pbufHdr mem p).len
        · have hskip' := UInt16.le_iff_toNat_le.mp hskip.2
          have hdrop : (pbufBytes mem p ++ chainBytes mem l).drop offset.toNat =
              (chainBytes mem l).drop (offset.toNat - (pbufHdr mem p).len.toNat) := by
            rw [List.drop_append, List.drop_eq_nil_of_le (by rwa [length_pbufBytes]),
              List.nil_append, length_pbufBytes]
          rw [if_pos hskip]
          simp only
          rw [ih hmem' hl _ hw hle hk' hle', UInt16.toNat_sub_of_le _ _ hskip.2, hdrop]
        · have hoff : offset.toNat ≤ (pbufHdr mem p).len.toNat := by
            by_cases hzero : offset = 0
            · rw [hzero]
              exact Nat.zero_le _
            · exact (UInt16.lt_iff_toNat_lt.mp
                (UInt16.not_le.mp fun hge => hskip ⟨hzero, hge⟩)).le
          have hplen := (pbufHdr mem p).len.toNat_lt
          have hdrop : (pbufBytes mem p ++ chainBytes mem l).drop offset.toNat =
              (pbufBytes mem p).drop offset.toNat ++ chainBytes mem l :=
            List.drop_append_of_le_length (by rwa [length_pbufBytes])
          rw [if_neg hskip, run_copyByteRound (hmem.mono (by simp)) hw hleft hoff (by omega), hdrop]
          simp only
          generalize (pbufBytes mem p).drop offset.toNat = rest
          by_cases hfull : len.toNat ≤ left.toNat + rest.length
          · rw [if_pos hfull, List.take_append_of_le_length (by omega)]
          · have hll := len.toNat_lt
            have hadd : (left + UInt16.ofNat rest.length).toNat = left.toNat + rest.length := by
              rw [UInt16.toNat_add, UInt16.toNat_ofNat']
              omega
            have hhdr' : pbufHdr (mem.put dataptr (w ++ rest)) p = pbufHdr mem p :=
              pbufHdr_put (hmem.header p List.mem_cons_self) (by rw [List.length_append]; omega)
            rw [if_neg hfull]
            simp only
            rw [hhdr', ih hmem' hl 0 (by rw [List.length_append, hw, hadd])
              (UInt16.le_iff_toNat_le.mpr (by omega)) hk' (by omega), hadd, List.take_append,
              List.take_of_length_le (show rest.length ≤ len.toNat - left.toNat by omega),
              List.append_assoc, Nat.sub_sub]
            rfl
      · have hzero : len.toNat - left.toNat = 0 :=
          Nat.sub_eq_zero_of_le (UInt16.le_iff_toNat_le.mp (UInt16.not_lt.mp hleft))
        rw [if_neg fun h => hleft h.1, hzero, List.take_zero, List.append_nil]

/-- `t_netbuf_copy_partial` of a chain. -/
theorem tNetbufCopyPartial_eq {buf : Netbuf} {ps : List Nat}
    (hps : IsList (PbufPool.links mem) (ptr buf.p) ps) {len : UInt16}
    (hmem : Apart mem ps dataptr len.toNat) (hdata : dataptr ≠ 0) (offset : UInt16) :
    tNetbufCopyPartial mem (some buf) dataptr len offset =
      some (mem.put dataptr (((chainBytes mem ps).drop offset.toNat).take len.toNat)) := by
  have hrun := run_copyPbufRound (w := []) hmem hps offset rfl (UInt16.zero_le (a := len))
    (length_lt_rounds hps)
  rw [tNetbufCopyPartial, if_neg hdata]
  rw [ByteMem.put_nil, List.nil_append] at hrun
  rw [hrun]
  rfl

/-- `t_netbuf_copy` writes the front of the chain. -/
theorem tNetbufCopy_eq {buf : Netbuf} {ps : List Nat}
    (hps : IsList (PbufPool.links mem) (ptr buf.p) ps) {len : UInt16}
    (hmem : Apart mem ps dataptr len.toNat) (hdata : dataptr ≠ 0) :
    tNetbufCopy mem (some buf) dataptr len =
      some (mem.put dataptr ((chainBytes mem ps).take len.toNat)) := by
  rw [tNetbufCopy, tNetbufCopyPartial_eq hps hmem hdata 0]
  rfl

end

/-- **Partial copy is slicing**: of every chain and at every offset, the call ends and
writes the bytes from there on, at most `len`, and nothing else. -/
theorem netbuf_copy_partial {mem : ByteMem} {buf : Netbuf} {ps : List Nat}
    (hps : IsList (PbufPool.links mem) (ptr buf.p) ps) {dataptr : Nat} {len : UInt16}
    (hmem : Apart mem ps dataptr len.toNat) (hdata : dataptr ≠ 0) (offset : UInt16) :
    ∃ mem', tNetbufCopyPartial mem (some buf) dataptr len offset = some mem' ∧
      let n := min len.toNat ((chainBytes mem ps).length - offset.toNat)
      mem'.slice dataptr n = ((chainBytes mem ps).drop offset.toNat).take n ∧
        ∀ i, i < dataptr ∨ dataptr + n ≤ i → mem' i = mem i := by
  have hlen : (((chainBytes mem ps).drop offset.toNat).take len.toNat).length =
      min len.toNat ((chainBytes mem ps).length - offset.toNat) := by
    rw [List.length_take, List.length_drop]
  refine ⟨_, tNetbufCopyPartial_eq hps hmem hdata offset, ?_, fun i hi => ?_⟩
  · rw [← hlen, ByteMem.slice_put, hlen, List.take_eq_take_iff]
    simp
  · exact ByteMem.put_apply_of_disjoint _ (by rwa [hlen])

/-- Memory in which every byte is its address, with pbufs of three, no and four
bytes at 4096, 8192 and 12288. -/
def threePbufs : ByteMem :=
  let mem := pbufSetNext (fun i => UInt8.ofNat i) 4096 8192
  let mem := pbufSetPayload mem 4096 5000
  let mem := pbufSetLen mem 4096 3
  let mem := pbufSetNext mem 8192 12288
  let mem := pbufSetLen mem 8192 0
  let mem := pbufSetNext mem 12288 0
  let mem := pbufSetPayload mem 12288 13000
  pbufSetLen mem 12288 4

theorem threePbufs_isList :
    IsList (PbufPool.links threePbufs) (ptr 4096) [4096, 8192, 12288] :=
  ⟨by decide, by decide +kernel, by decide +kernel, isList_nil.mpr (by decide +kernel)⟩

theorem threePbufs_apart : Apart threePbufs [4096, 8192, 12288] 64 5 :=
  ⟨by decide +kernel, by decide +kernel⟩

/-- Five bytes from the second on. -/
theorem netbuf_copy_partial_three :
    ∃ mem', tNetbufCopyPartial threePbufs (some ⟨4096, 4096⟩) 64 5 1 = some mem' ∧
      mem'.slice 64 5 = ((chainBytes threePbufs [4096, 8192, 12288]).drop 1).take 5 := by
  have hapart : Apart threePbufs [4096, 8192, 12288] 64 (5 : UInt16).toNat := threePbufs_apart
  have hps : IsList (PbufPool.links threePbufs) (ptr (⟨4096, 4096⟩ : Netbuf).p)
      [4096, 8192, 12288] := threePbufs_isList
  obtain ⟨mem', hcopy, hslice, -⟩ := netbuf_copy_partial hps hapart (by decide) 1
  have hn : min (5 : UInt16).toNat ((chainBytes threePbufs [4096, 8192, 12288]).length -
      (1 : UInt16).toNat) = 5 := by decide +kernel
  simp only [hn] at hslice
  exact ⟨mem', hcopy, hslice⟩

end TTcp
