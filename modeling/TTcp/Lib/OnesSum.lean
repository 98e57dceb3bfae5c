import TTcp.Lib.ByteMem

/-!
# TTcp.Lib.OnesSum

Ones'-complement sums of byte strings: the bytes are read as 16-bit words,
high byte first and an odd last byte padded with zero, and added with the
carry out of the top bit added back in at the bottom.

Such a sum is the plain sum of the words with its carries folded in
(`Folds`), so it is 65535 exactly when the plain sum is a positive multiple of
65535.  Reading the words low byte first instead multiplies the sum by a unit
modulo 65535, so that the order of the two bytes does not matter for this
(`onesSum_eq_iff`).
-/

namespace OnesSum

/-- Addition with end-around carry. -/
def onesAdd (a b : Nat) : Nat := if a + b < 65536 then a + b else a + b - 65535

/-- The 16-bit words of a byte string, high byte first. -/
def wordsBE : List UInt8 → List Nat
  | [] => []
  | [b] => [256 * b.toNat]
  | a :: b :: rest => (256 * a.toNat + b.toNat) :: wordsBE rest

/-- The ones'-complement sum. -/
def onesSum (bytes : List UInt8) : Nat := (wordsBE bytes).foldl onesAdd 0

/-- The 16-bit words of a byte string, low byte first. -/
def wordsLE : List UInt8 → List Nat
  | [] => []
  | [b] => [b.toNat]
  | a :: b :: rest => (a.toNat + 256 * b.toNat) :: wordsLE rest

/-- The ones'-complement sum of the words read low byte first. -/
def onesSumLE (bytes : List UInt8) : Nat := (wordsLE bytes).foldl onesAdd 0

/-- The Internet checksum, as a machine has it that reads words low byte
first. -/
def checksumLE (bytes : List UInt8) : Nat := 65535 - onesSumLE bytes

/-- The plain sum of the words read low byte first. -/
def sumLE : List UInt8 → Nat
  | [] => 0
  | [b] => b.toNat
  | a :: b :: rest => a.toNat + 256 * b.toNat + sumLE rest

/-! ## folding carries -/

/-- `n` is `s` with its carries folded in. -/
structure Folds (n s : Nat) : Prop where
  lt : n < 65536
  mod : n % 65535 = s % 65535
  zero : n = 0 ↔ s = 0

namespace Folds

variable {n s : Nat}

theorem zero_zero : Folds 0 0 := ⟨by omega, rfl, Iff.rfl⟩

/-- A number that fits is folded already. -/
theorem of_lt (h : s < 65536) : Folds s s := ⟨h, rfl, Iff.rfl⟩

theorem onesAdd (h : Folds n s) {b : Nat} (hb : b < 65536) : Folds (onesAdd n b) (s + b) := by
  have hlt := h.lt
  have hmod := h.mod
  have hzero := h.zero
  unfold OnesSum.onesAdd
  split
  · exact ⟨by omega, by omega, by omega⟩
  · exact ⟨by omega, by omega, by omega⟩

/-- Folding is adding the high half to the low half. -/
theorem of_fold {m : Nat} (h : Folds n (m / 65536 + m % 65536)) : Folds n m := by
  have hmod := h.mod
  have hzero := h.zero
  exact ⟨h.lt, by omega, by omega⟩

/-- A partly folded sum may stand for the sum. -/
theorem trans {m : Nat} (h : Folds n (m + s)) {k : Nat} (hm : Folds m k) : Folds n (k + s) := by
  have hmod := h.mod
  have hzero := h.zero
  have hmod' := hm.mod
  have hzero' := hm.zero
  exact ⟨h.lt, by omega, by omega⟩

/-- Only the residue counts, and whether the sum is zero. -/
theorem congr (h : Folds n s) {t : Nat} (hmod : s % 65535 = t % 65535) (hzero : s = 0 ↔ t = 0) :
    Folds n t := ⟨h.lt, h.mod.trans hmod, h.zero.trans hzero⟩

/-- There is one way to fold. -/
theorem unique (h : Folds n s) {m : Nat} (hm : Folds m s) : n = m := by
  have hlt := h.lt
  have hlt' := hm.lt
  have hmod := h.mod.trans hm.mod.symm
  have hzero := h.zero.trans hm.zero.symm
  omega

/-- Exchanging the bytes of a folded sum multiplies it by 256. -/
theorem swap (h : Folds n s) : Folds (n % 256 * 256 + n / 256) (256 * s) := by
  have hlt := h.lt
  have hmod := h.mod
  have hzero := h.zero
  exact ⟨by omega, by omega, by omega⟩

theorem eq_iff (h : Folds n s) : n = 65535 ↔ 65535 ∣ s ∧ s ≠ 0 := by
  have hlt := h.lt
  have hmod := h.mod
  have hzero := h.zero
  omega

/-- The complement of a folded sum makes it up to a multiple of 65535. -/
theorem dvd_add_compl (h : Folds n s) : 65535 ∣ s + (65535 - n) := by
  have hlt := h.lt
  have hmod := h.mod
  omega

end Folds

/-! ## words -/

theorem lt_of_mem_wordsBE (bytes : List UInt8) : ∀ w ∈ wordsBE bytes, w < 65536 := by
  induction bytes using wordsBE.induct with
  | case1 => simp [wordsBE]
  | case2 b =>
      have hb := b.toNat_lt
      simp only [wordsBE, List.mem_singleton, forall_eq]
      omega
  | case3 a b rest ih =>
      have ha := a.toNat_lt
      have hb := b.toNat_lt
      intro w hw
      rcases List.mem_cons.mp hw with rfl | hw
      · omega
      · exact ih w hw

theorem folds_foldl {ws : List Nat} (hws : ∀ w ∈ ws, w < 65536) {n s : Nat} (h : Folds n s) :
    Folds (ws.foldl onesAdd n) (s + ws.sum) := by
  induction ws generalizing n s with
  | nil => simpa using h
  | cons w ws ih =>
      have hw := ih (fun v hv => hws v (List.mem_cons_of_mem w hv))
        (h.onesAdd (hws w List.mem_cons_self))
      rw [List.foldl_cons, List.sum_cons, ← Nat.add_assoc]
      exact hw

/-- A ones'-complement sum is a folded sum. -/
theorem folds_onesSum (bytes : List UInt8) : Folds (onesSum bytes) (wordsBE bytes).sum := by
  have h := folds_foldl (lt_of_mem_wordsBE bytes) .zero_zero
  rwa [Nat.zero_add] at h

theorem lt_of_mem_wordsLE (bytes : List UInt8) : ∀ w ∈ wordsLE bytes, w < 65536 := by
  induction bytes using wordsLE.induct with
  | case1 => simp [wordsLE]
  | case2 b =>
      have hb := b.toNat_lt
      simp only [wordsLE, List.mem_singleton, forall_eq]
      omega
  | case3 a b rest ih =>
      have ha := a.toNat_lt
      have hb := b.toNat_lt
      intro w hw
      rcases List.mem_cons.mp hw with rfl | hw
      · omega
      · exact ih w hw

theorem sum_wordsLE (bytes : List UInt8) : (wordsLE bytes).sum = sumLE bytes := by
  induction bytes using wordsLE.induct with
  | case1 => rfl
  | case2 b => simp [wordsLE, sumLE]
  | case3 a b rest ih => rw [wordsLE, List.sum_cons, ih, sumLE]

theorem folds_onesSumLE (bytes : List UInt8) : Folds (onesSumLE bytes) (sumLE bytes) := by
  have h := folds_foldl (lt_of_mem_wordsLE bytes) .zero_zero
  rwa [Nat.zero_add, sum_wordsLE] at h

/-- The complement of a folded sum is the checksum. -/
theorem Folds.compl_eq {n : Nat} {bytes : List UInt8} (h : Folds n (sumLE bytes)) :
    65535 - n = checksumLE bytes := by
  rw [h.unique (folds_onesSumLE bytes), checksumLE]

/-- The byte order multiplies by 256, modulo 65535. -/
theorem sum_wordsBE_mod (bytes : List UInt8) :
    (wordsBE bytes).sum % 65535 = 256 * sumLE bytes % 65535 ∧
      ((wordsBE bytes).sum = 0 ↔ sumLE bytes = 0) := by
  induction bytes using wordsBE.induct with
  | case1 => simp [wordsBE, sumLE]
  | case2 b => simp [wordsBE, sumLE]
  | case3 a b rest ih =>
      obtain ⟨hmod, hzero⟩ := ih
      simp only [wordsBE, List.sum_cons, sumLE]
      omega

/-- **Verification**: a ones'-complement sum is 65535 when the sum of the
words, whichever byte comes first, is a positive multiple of 65535. -/
theorem onesSum_eq_iff (bytes : List UInt8) :
    onesSum bytes = 65535 ↔ 65535 ∣ sumLE bytes ∧ sumLE bytes ≠ 0 := by
  obtain ⟨hmod, hzero⟩ := sum_wordsBE_mod bytes
  rw [(folds_onesSum bytes).eq_iff]
  omega

example : onesSum [0xff, 0xff, 0x00, 0x01, 0x80] = 0x8001 := by decide

/-! ## sums of strings put together -/

/-- Behind a string of even length the words go on as they are. -/
theorem sumLE_append {xs : List UInt8} (hxs : xs.length % 2 = 0) (ys : List UInt8) :
    sumLE (xs ++ ys) = sumLE xs + sumLE ys := by
  induction xs using sumLE.induct with
  | case1 => simp [sumLE]
  | case2 b => simp at hxs
  | case3 a b rest ih =>
      have hrest := ih (by simp only [List.length_cons] at hxs; omega)
      simp only [List.cons_append, sumLE, hrest]
      omega

/-- Behind a single byte the words are read the other way round. -/
theorem sumLE_cons_mod (b : UInt8) (ys : List UInt8) :
    sumLE (b :: ys) % 65535 = (b.toNat + 256 * sumLE ys) % 65535 ∧
      (sumLE (b :: ys) = 0 ↔ b.toNat + 256 * sumLE ys = 0) := by
  induction ys using sumLE.induct generalizing b with
  | case1 => simp [sumLE]
  | case2 y =>
      simp only [sumLE]
      omega
  | case3 y z rest ih =>
      obtain ⟨hmod, hzero⟩ := ih z
      simp only [sumLE] at hmod hzero ⊢
      omega

/-- Behind a string of odd length the words are read the other way round. -/
theorem sumLE_append_odd_mod {xs : List UInt8} (hxs : xs.length % 2 = 1) (ys : List UInt8) :
    sumLE (xs ++ ys) % 65535 = (sumLE xs + 256 * sumLE ys) % 65535 ∧
      (sumLE (xs ++ ys) = 0 ↔ sumLE xs + 256 * sumLE ys = 0) := by
  induction xs using sumLE.induct with
  | case1 => simp at hxs
  | case2 b => exact sumLE_cons_mod b ys
  | case3 a b rest ih =>
      obtain ⟨hmod, hzero⟩ := ih (by simp only [List.length_cons] at hxs; omega)
      simp only [List.cons_append, sumLE]
      omega

theorem sumLE_eq_zero_iff (bytes : List UInt8) : sumLE bytes = 0 ↔ ∀ b ∈ bytes, b = 0 := by
  have hzero : ∀ b : UInt8, b.toNat = 0 ↔ b = 0 := fun b =>
    ⟨fun h => UInt8.toNat_inj.1 h, fun h => by rw [h]; rfl⟩
  induction bytes using sumLE.induct with
  | case1 => simp [sumLE]
  | case2 b => simp [sumLE, hzero]
  | case3 a b rest ih =>
      have hrest : sumLE rest = 0 ↔ ∀ b ∈ rest, b = 0 := ih
      rw [List.forall_mem_cons, List.forall_mem_cons, ← hrest, ← hzero, ← hzero, sumLE]
      omega

theorem sumLE_le (bytes : List UInt8) : sumLE bytes ≤ 65535 * ((bytes.length + 1) / 2) := by
  induction bytes using sumLE.induct with
  | case1 => simp [sumLE]
  | case2 b =>
      have hb := b.toNat_lt
      simp only [sumLE, List.length_singleton]
      omega
  | case3 a b rest ih =>
      have ha := a.toNat_lt
      have hb := b.toNat_lt
      simp only [sumLE, List.length_cons]
      omega

/-! ## sums of memory -/

section
variable (m : ByteMem) (o : Nat)

theorem sumLE_slice_two : sumLE (m.slice o 2) = (m.get16 o).toNat := by
  have h0 := (m o).toNat_lt
  have h1 := (m (o + 1)).toNat_lt
  have hslice : m.slice o 2 = [m o, m (o + 1)] := rfl
  rw [hslice]
  simp only [sumLE, ByteMem.get16]
  simp
  omega

theorem sumLE_slice_add {k : Nat} (hk : k % 2 = 0) (n : Nat) :
    sumLE (m.slice o (k + n)) = sumLE (m.slice o k) + sumLE (m.slice (o + k) n) := by
  rw [ByteMem.slice_add, sumLE_append (by rwa [ByteMem.length_slice])]

theorem sumLE_slice_four :
    sumLE (m.slice o 4) = (m.get32 o).toNat % 65536 + (m.get32 o).toNat / 65536 := by
  have h0 := (m.get16 o).toNat_lt
  have h1 := (m.get16 (o + 2)).toNat_lt
  rw [show (4 : Nat) = 2 + 2 from rfl, sumLE_slice_add _ _ (by omega), sumLE_slice_two,
    sumLE_slice_two, ByteMem.get32]
  simp
  omega

/-- A word written where there was zero adds itself to the sum. -/
theorem sumLE_slice_set16 {k n : Nat} (hk : k % 2 = 0) (hn : k + 2 ≤ n)
    (hzero : m.get16 (o + k) = 0) (v : UInt16) :
    sumLE ((m.set16 (o + k) v).slice o n) = sumLE (m.slice o n) + v.toNat := by
  obtain ⟨r, rfl⟩ : ∃ r, n = k + (2 + r) := ⟨n - k - 2, by omega⟩
  rw [sumLE_slice_add _ _ hk, sumLE_slice_add _ _ hk, sumLE_slice_add _ _ (by omega),
    sumLE_slice_add _ _ (by omega), sumLE_slice_two, sumLE_slice_two,
    ByteMem.slice_set16_of_disjoint _ _ (by omega), ByteMem.get16_set16_self,
    ByteMem.slice_set16_of_disjoint _ _ (by omega), hzero]
  simp
  omega

end

end OnesSum
