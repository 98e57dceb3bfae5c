import Mathlib

/-!
# TTcp.Lib.ByteMem

Byte memory seen from a base address, with little-endian 16-, 32- and 64-bit
fields, block copies and slices.

A memory is a function from offsets to bytes; a store is a new function.
Every reader depends only on the bytes of its own footprint (the `_congr`
lemmas), and every writer changes only its own (the `_apply` lemmas), so
each pair of a reader and a writer of disjoint footprints commutes.  Those
commutations are the simp set of this module: they have an arithmetic side
condition, to be discharged by `simp (disch := omega)`.
-/

/-- Byte memory, addressed from some base. -/
abbrev ByteMem := Nat → UInt8

namespace ByteMem

/-! ## readers -/

/-- The memory seen from `o` bytes further on. -/
def shift (m : ByteMem) (o : Nat) : ByteMem := fun i => m (o + i)

/-- The little-endian 16-bit field at `o`. -/
def get16 (m : ByteMem) (o : Nat) : UInt16 :=
  (m o).toUInt16 + 256 * (m (o + 1)).toUInt16

/-- The little-endian 32-bit field at `o`. -/
def get32 (m : ByteMem) (o : Nat) : UInt32 :=
  (m.get16 o).toUInt32 + 65536 * (m.get16 (o + 2)).toUInt32

/-- The little-endian 64-bit field at `o`. -/
def get64 (m : ByteMem) (o : Nat) : UInt64 :=
  (m.get32 o).toUInt64 + 4294967296 * (m.get32 (o + 4)).toUInt64

/-- The `n` bytes from `o` on. -/
def slice (m : ByteMem) (o n : Nat) : List UInt8 := (List.range n).map fun i => m (o + i)

/-! ## writers -/

/-- Store a 16-bit field, low byte first. -/
def set16 (m : ByteMem) (o : Nat) (v : UInt16) : ByteMem := fun i =>
  if i = o then v.toUInt8 else if i = o + 1 then (v / 256).toUInt8 else m i

/-- Store a 32-bit field, low half first. -/
def set32 (m : ByteMem) (o : Nat) (v : UInt32) : ByteMem :=
  (m.set16 o v.toUInt16).set16 (o + 2) (v / 65536).toUInt16

/-- Store a 64-bit field, low half first. -/
def set64 (m : ByteMem) (o : Nat) (v : UInt64) : ByteMem :=
  (m.set32 o v.toUInt32).set32 (o + 4) (v / 4294967296).toUInt32

/-- Copy `n` bytes of `src` to offset `o`. -/
def copy (m : ByteMem) (o : Nat) (src : ByteMem) (n : Nat) : ByteMem := fun i =>
  if o ≤ i ∧ i < o + n then src (i - o) else m i

/-! ## a writer changes its footprint only -/

@[simp] theorem shift_apply (m : ByteMem) (o i : Nat) : m.shift o i = m (o + i) := rfl

theorem set16_apply_of_disjoint (m : ByteMem) {o i : Nat} (v : UInt16) (h : i < o ∨ o + 2 ≤ i) :
    m.set16 o v i = m i := by
  unfold set16
  rw [if_neg (by omega), if_neg (by omega)]

theorem set32_apply_of_disjoint (m : ByteMem) {o i : Nat} (v : UInt32) (h : i < o ∨ o + 4 ≤ i) :
    m.set32 o v i = m i := by
  unfold set32
  rw [set16_apply_of_disjoint _ _ (by omega), set16_apply_of_disjoint _ _ (by omega)]

theorem set64_apply_of_disjoint (m : ByteMem) {o i : Nat} (v : UInt64) (h : i < o ∨ o + 8 ≤ i) :
    m.set64 o v i = m i := by
  unfold set64
  rw [set32_apply_of_disjoint _ _ (by omega), set32_apply_of_disjoint _ _ (by omega)]

theorem copy_apply_of_disjoint (m src : ByteMem) {o n i : Nat} (h : i < o ∨ o + n ≤ i) :
    m.copy o src n i = m i := by
  unfold copy
  rw [if_neg (by omega)]

theorem copy_apply_of_mem (m src : ByteMem) {o n i : Nat} (h1 : o ≤ i) (h2 : i < o + n) :
    m.copy o src n i = src (i - o) := by
  unfold copy
  rw [if_pos ⟨h1, h2⟩]

@[simp] theorem copy_zero (m src : ByteMem) (o : Nat) : m.copy o src 0 = m := by
  funext i
  rw [copy_apply_of_disjoint _ _ (by omega)]

/-! ## a reader depends on its footprint only -/

theorem get16_congr {m m' : ByteMem} {o o' : Nat} (h : ∀ i < 2, m (o + i) = m' (o' + i)) :
    m.get16 o = m'.get16 o' := by
  have h0 : m o = m' o' := h 0 (by omega)
  have h1 : m (o + 1) = m' (o' + 1) := h 1 (by omega)
  rw [get16, get16, h0, h1]

theorem get32_congr {m m' : ByteMem} {o o' : Nat} (h : ∀ i < 4, m (o + i) = m' (o' + i)) :
    m.get32 o = m'.get32 o' := by
  have h0 : m.get16 o = m'.get16 o' := get16_congr fun i hi => h i (by omega)
  have h2 : m.get16 (o + 2) = m'.get16 (o' + 2) := get16_congr fun i hi => by
    have := h (2 + i) (by omega)
    rwa [← Nat.add_assoc, ← Nat.add_assoc] at this
  rw [get32, get32, h0, h2]

theorem get64_congr {m m' : ByteMem} {o o' : Nat} (h : ∀ i < 8, m (o + i) = m' (o' + i)) :
    m.get64 o = m'.get64 o' := by
  have h0 : m.get32 o = m'.get32 o' := get32_congr fun i hi => h i (by omega)
  have h4 : m.get32 (o + 4) = m'.get32 (o' + 4) := get32_congr fun i hi => by
    have := h (4 + i) (by omega)
    rwa [← Nat.add_assoc, ← Nat.add_assoc] at this
  rw [get64, get64, h0, h4]

theorem slice_congr {m m' : ByteMem} {o o' n : Nat} (h : ∀ i < n, m (o + i) = m' (o' + i)) :
    m.slice o n = m'.slice o' n := by
  unfold slice
  exact List.map_congr_left fun i hi => h i (List.mem_range.mp hi)

/-! ## disjoint readers and writers commute -/

@[simp] theorem get16_set16_of_disjoint (m : ByteMem) {o p : Nat} (v : UInt16)
    (h : p + 2 ≤ o ∨ o + 2 ≤ p) : (m.set16 o v).get16 p = m.get16 p :=
  get16_congr fun _ _ => set16_apply_of_disjoint _ _ (by omega)

@[simp] theorem get16_set32_of_disjoint (m : ByteMem) {o p : Nat} (v : UInt32)
    (h : p + 2 ≤ o ∨ o + 4 ≤ p) : (m.set32 o v).get16 p = m.get16 p :=
  get16_congr fun _ _ => set32_apply_of_disjoint _ _ (by omega)

@[simp] theorem get16_copy_of_disjoint (m src : ByteMem) {o n p : Nat}
    (h : p + 2 ≤ o ∨ o + n ≤ p) : (m.copy o src n).get16 p = m.get16 p :=
  get16_congr fun _ _ => copy_apply_of_disjoint _ _ (by omega)

@[simp] theorem get32_set16_of_disjoint (m : ByteMem) {o p : Nat} (v : UInt16)
    (h : p + 4 ≤ o ∨ o + 2 ≤ p) : (m.set16 o v).get32 p = m.get32 p :=
  get32_congr fun _ _ => set16_apply_of_disjoint _ _ (by omega)

@[simp] theorem get32_set32_of_disjoint (m : ByteMem) {o p : Nat} (v : UInt32)
    (h : p + 4 ≤ o ∨ o + 4 ≤ p) : (m.set32 o v).get32 p = m.get32 p :=
  get32_congr fun _ _ => set32_apply_of_disjoint _ _ (by omega)

@[simp] theorem get32_copy_of_disjoint (m src : ByteMem) {o n p : Nat}
    (h : p + 4 ≤ o ∨ o + n ≤ p) : (m.copy o src n).get32 p = m.get32 p :=
  get32_congr fun _ _ => copy_apply_of_disjoint _ _ (by omega)

@[simp] theorem get64_set64_of_disjoint (m : ByteMem) {o p : Nat} (v : UInt64)
    (h : p + 8 ≤ o ∨ o + 8 ≤ p) : (m.set64 o v).get64 p = m.get64 p :=
  get64_congr fun _ _ => set64_apply_of_disjoint _ _ (by omega)

@[simp] theorem get16_set64_of_disjoint (m : ByteMem) {o p : Nat} (v : UInt64)
    (h : p + 2 ≤ o ∨ o + 8 ≤ p) : (m.set64 o v).get16 p = m.get16 p :=
  get16_congr fun _ _ => set64_apply_of_disjoint _ _ (by omega)

@[simp] theorem get64_set16_of_disjoint (m : ByteMem) {o p : Nat} (v : UInt16)
    (h : p + 8 ≤ o ∨ o + 2 ≤ p) : (m.set16 o v).get64 p = m.get64 p :=
  get64_congr fun _ _ => set16_apply_of_disjoint _ _ (by omega)

@[simp] theorem slice_set16_of_disjoint (m : ByteMem) {o p n : Nat} (v : UInt16)
    (h : p + n ≤ o ∨ o + 2 ≤ p) : (m.set16 o v).slice p n = m.slice p n :=
  slice_congr fun _ _ => set16_apply_of_disjoint _ _ (by omega)

@[simp] theorem slice_set32_of_disjoint (m : ByteMem) {o p n : Nat} (v : UInt32)
    (h : p + n ≤ o ∨ o + 4 ≤ p) : (m.set32 o v).slice p n = m.slice p n :=
  slice_congr fun _ _ => set32_apply_of_disjoint _ _ (by omega)

@[simp] theorem slice_copy_of_disjoint (m src : ByteMem) {o k p n : Nat}
    (h : p + n ≤ o ∨ o + k ≤ p) : (m.copy o src k).slice p n = m.slice p n :=
  slice_congr fun _ _ => copy_apply_of_disjoint _ _ (by omega)

/-! ## reading back what was written -/

@[simp] theorem get16_set16_self (m : ByteMem) (o : Nat) (v : UInt16) :
    (m.set16 o v).get16 o = v := by
  have h0 : m.set16 o v o = v.toUInt8 := by simp [set16]
  have h1 : m.set16 o v (o + 1) = (v / 256).toUInt8 := by simp [set16]
  have hv := v.toNat_lt
  apply UInt16.toNat_inj.1
  rw [get16, h0, h1]
  simp
  omega

@[simp] theorem get32_set32_self (m : ByteMem) (o : Nat) (v : UInt32) :
    (m.set32 o v).get32 o = v := by
  have hv := v.toNat_lt
  apply UInt32.toNat_inj.1
  rw [get32, set32, get16_set16_of_disjoint _ _ (by omega), get16_set16_self, get16_set16_self]
  simp
  omega

@[simp] theorem get64_set64_self (m : ByteMem) (o : Nat) (v : UInt64) :
    (m.set64 o v).get64 o = v := by
  have hv := v.toNat_lt
  apply UInt64.toNat_inj.1
  rw [get64, set64, get32_set32_of_disjoint _ _ (by omega), get32_set32_self, get32_set32_self]
  simp
  omega

/-- A block read back where it was copied. -/
@[simp] theorem slice_copy_self (m src : ByteMem) (o n : Nat) :
    (m.copy o src n).slice o n = src.slice 0 n :=
  slice_congr fun i hi => by
    rw [copy_apply_of_mem _ _ (by omega) (by omega)]
    congr 1
    omega

/-! ## slices -/

@[simp] theorem length_slice (m : ByteMem) (o n : Nat) : (m.slice o n).length = n := by
  simp [slice]

@[simp] theorem slice_zero (m : ByteMem) (o : Nat) : m.slice o 0 = [] := rfl

@[simp] theorem slice_shift (m : ByteMem) (k o n : Nat) :
    (m.shift k).slice o n = m.slice (k + o) n := by
  simp [slice, Nat.add_assoc]

@[simp] theorem getElem_slice (m : ByteMem) (o n i : Nat) (h : i < (m.slice o n).length) :
    (m.slice o n)[i] = m (o + i) := by
  simp [slice]

theorem slice_succ (m : ByteMem) (o n : Nat) : m.slice o (n + 1) = m o :: m.slice (o + 1) n := by
  simp [slice, List.range_succ_eq_map, Nat.add_assoc, Nat.add_comm 1]

/-- A slice splits at any point. -/
theorem slice_add (m : ByteMem) (o a b : Nat) :
    m.slice o (a + b) = m.slice o a ++ m.slice (o + a) b := by
  simp [slice, List.range_add, Nat.add_assoc]

/-- Dropping the front of a slice starts it later. -/
theorem drop_slice (m : ByteMem) (o a b : Nat) :
    (m.slice o (a + b)).drop a = m.slice (o + a) b := by
  rw [slice_add, List.drop_append_of_le_length (by simp), List.drop_of_length_le (by simp),
    List.nil_append]

/-- The memory that holds a list from offset 0 on, and `pad` behind it. -/
def ofList (bs : List UInt8) (pad : ByteMem) : ByteMem := fun i => bs.getD i (pad i)

/-- Reading a list back from the memory that holds it. -/
theorem slice_ofList (bs : List UInt8) (pad : ByteMem) :
    (ofList bs pad).slice 0 bs.length = bs := by
  apply List.ext_getElem (by simp)
  intro i h1 h2
  simp [ofList, h2]

theorem ofList_apply_of_lt {bs : List UInt8} (pad : ByteMem) {i : Nat} (h : i < bs.length) :
    ofList bs pad i = bs[i] := by
  simp [ofList, h]

/-- The memory that holds a slice is the sliced memory, from there on. -/
theorem ofList_slice_apply (m : ByteMem) (o n : Nat) (pad : ByteMem) {i : Nat} (h : i < n) :
    ofList (m.slice o n) pad i = m (o + i) := by
  rw [ofList_apply_of_lt pad (by simpa using h), getElem_slice]

theorem get16_ofList_slice (m : ByteMem) (o n : Nat) (pad : ByteMem) {i : Nat} (h : i + 2 ≤ n) :
    (ofList (m.slice o n) pad).get16 i = m.get16 (o + i) :=
  get16_congr fun j hj => by rw [ofList_slice_apply _ _ _ _ (by omega), Nat.add_assoc]

theorem get32_ofList_slice (m : ByteMem) (o n : Nat) (pad : ByteMem) {i : Nat} (h : i + 4 ≤ n) :
    (ofList (m.slice o n) pad).get32 i = m.get32 (o + i) :=
  get32_congr fun j hj => by rw [ofList_slice_apply _ _ _ _ (by omega), Nat.add_assoc]

/-! ## bytes put into memory -/

/-- The memory with the bytes `bs` at `o`. -/
def put (m : ByteMem) (o : Nat) (bs : List UInt8) : ByteMem := fun i =>
  if i < o then m i else bs.getD (i - o) (m i)

@[simp] theorem put_nil (m : ByteMem) (o : Nat) : m.put o [] = m := by
  funext i
  simp [put]

theorem put_apply_of_disjoint (m : ByteMem) {o i : Nat} {bs : List UInt8}
    (h : i < o ∨ o + bs.length ≤ i) : m.put o bs i = m i := by
  rw [put]
  split
  · rfl
  · exact List.getD_eq_default _ _ (by omega)

/-- One more byte behind them. -/
theorem update_put (m : ByteMem) (o : Nat) (bs : List UInt8) (b : UInt8) :
    Function.update (m.put o bs) (o + bs.length) b = m.put o (bs ++ [b]) := by
  funext i
  by_cases hi : i = o + bs.length
  · subst hi
    rw [Function.update_self, put, if_neg (by omega), Nat.add_sub_cancel_left]
    simp
  · rw [Function.update_of_ne hi, put, put]
    split
    · rfl
    · next hlo =>
      by_cases hlt : i - o < bs.length
      · rw [List.getD_append _ _ _ _ hlt]
      · rw [List.getD_eq_default _ _ (by omega), List.getD_eq_default _ _ (by simp; omega)]

theorem slice_put (m : ByteMem) (o : Nat) (bs : List UInt8) :
    (m.put o bs).slice o bs.length = bs := by
  refine List.ext_getElem (by simp) fun i hi hi' => ?_
  rw [getElem_slice, put, if_neg (by omega), Nat.add_sub_cancel_left, List.getD_eq_getElem _ _ hi']

/-! ## memories that agree -/

/-- The two memories hold the same bytes at the offsets of `S`. -/
def AgreeOn (S : Nat → Prop) (m m' : ByteMem) : Prop := ∀ i, S i → m i = m' i

namespace AgreeOn

variable {S T : Nat → Prop} {m m' : ByteMem} (h : AgreeOn S m m')
include h

theorem mono (hT : ∀ i, T i → S i) : AgreeOn T m m' := fun i hi => h i (hT i hi)

theorem get16 {o : Nat} (ho : ∀ i, o ≤ i → i < o + 2 → S i) : m.get16 o = m'.get16 o :=
  get16_congr fun i _ => h _ (ho _ (by omega) (by omega))

theorem get32 {o : Nat} (ho : ∀ i, o ≤ i → i < o + 4 → S i) : m.get32 o = m'.get32 o :=
  get32_congr fun i _ => h _ (ho _ (by omega) (by omega))

theorem slice {o n : Nat} (ho : ∀ i, o ≤ i → i < o + n → S i) : m.slice o n = m'.slice o n :=
  slice_congr fun i _ => h _ (ho _ (by omega) (by omega))

/-- Writing the same makes memories agree where it is written. -/
theorem set16 {o : Nat} (v : UInt16) (hT : ∀ i, T i → S i ∨ (o ≤ i ∧ i < o + 2)) :
    AgreeOn T (m.set16 o v) (m'.set16 o v) := fun i hi => by
  unfold ByteMem.set16
  split
  · rfl
  · split
    · rfl
    · exact h i ((hT i hi).resolve_right (by omega))

theorem set32 {o : Nat} (v : UInt32) (hT : ∀ i, T i → S i ∨ (o ≤ i ∧ i < o + 4)) :
    AgreeOn T (m.set32 o v) (m'.set32 o v) :=
  set16 (set16 (T := fun i => S i ∨ (o ≤ i ∧ i < o + 2)) h _ fun _ hi => hi) _ fun i hi => by
    have := hT i hi
    by_cases hS : S i
    · exact .inl (.inl hS)
    · have := this.resolve_left hS
      by_cases hlow : i < o + 2
      · exact .inl (.inr ⟨by omega, hlow⟩)
      · exact .inr ⟨by omega, by omega⟩

theorem copy {src src' : ByteMem} {o n : Nat} (hsrc : ∀ i < n, src i = src' i)
    (hT : ∀ i, T i → S i ∨ (o ≤ i ∧ i < o + n)) :
    AgreeOn T (m.copy o src n) (m'.copy o src' n) := fun i hi => by
  unfold ByteMem.copy
  split
  · exact hsrc _ (by omega)
  · next hout => exact h i ((hT i hi).resolve_right hout)

end AgreeOn

/-- Equal fields have equal bytes. -/
theorem agreeOn_of_get16 {m m' : ByteMem} {o : Nat} (h : m.get16 o = m'.get16 o) :
    AgreeOn (fun i => o ≤ i ∧ i < o + 2) m m' := by
  have h0 := (m o).toNat_lt
  have h1 := (m (o + 1)).toNat_lt
  have h0' := (m' o).toNat_lt
  have h1' := (m' (o + 1)).toNat_lt
  have hword := congrArg UInt16.toNat h
  simp only [get16] at hword
  simp at hword
  have hbytes : (m o).toNat = (m' o).toNat ∧ (m (o + 1)).toNat = (m' (o + 1)).toNat := by omega
  rintro i ⟨hlo, hhi⟩
  obtain rfl | rfl : i = o ∨ i = o + 1 := by omega
  · exact UInt8.toNat_inj.1 hbytes.1
  · exact UInt8.toNat_inj.1 hbytes.2

theorem agreeOn_of_get32 {m m' : ByteMem} {o : Nat} (h : m.get32 o = m'.get32 o) :
    AgreeOn (fun i => o ≤ i ∧ i < o + 4) m m' := by
  have hlow := (m.get16 o).toNat_lt
  have hhigh := (m.get16 (o + 2)).toNat_lt
  have hlow' := (m'.get16 o).toNat_lt
  have hhigh' := (m'.get16 (o + 2)).toNat_lt
  have hword := congrArg UInt32.toNat h
  simp only [get32] at hword
  simp at hword
  have hhalves : (m.get16 o).toNat = (m'.get16 o).toNat ∧
      (m.get16 (o + 2)).toNat = (m'.get16 (o + 2)).toNat := by omega
  rintro i ⟨hlo, hhi⟩
  by_cases hi : i < o + 2
  · exact agreeOn_of_get16 (UInt16.toNat_inj.1 hhalves.1) i ⟨hlo, hi⟩
  · exact agreeOn_of_get16 (UInt16.toNat_inj.1 hhalves.2) i ⟨by omega, by omega⟩

end ByteMem
