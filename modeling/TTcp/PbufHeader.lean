import TTcp.Pbuf
import TTcp.Lib.Run

/-!
# TTcp.PbufHeader

Is pushing a header the inverse of pulling it (`t_pbuf_header`)?

The code takes the bounds of the payload from the start of the pbuf's header where its
buffer starts `sizeof(struct t_pbuf)` bytes later, and it never looks at `len`.  So the
payload cannot get behind offset 1480 of the buffer, even where data are, and up to
there it can be moved behind the data.
-/

namespace TTcp

/-- A call on `p` does what it should: it succeeds exactly when the payload stays in
the buffer and `len` does not run below zero, it changes nothing when it fails, and the
opposite call takes it back when it does not. -/
structure HeaderExact (p : Pbuf) (increment : Int) : Prop where
  succeeds : (tPbufHeader p increment).1 = 0 ↔
    0 ≤ p.payload + increment ∧ p.payload + increment ≤ tPbufBufsize ∧
      0 ≤ p.len.toNat - increment
  fails : (tPbufHeader p increment).1 ≠ 0 → (tPbufHeader p increment).2 = p
  inverse : (tPbufHeader p increment).1 = 0 →
    tPbufHeader (tPbufHeader p increment).2 (-increment) = (0, p)

/-- A call on `p`, whose data end at `total`: it moves the payload to the data or right
behind them exactly when it moves it below offset 1481, and it does not move it there
from 1481 on. -/
def HeaderFits (total : Nat) (p : Pbuf) (increment : Int) : Prop :=
  0 ≤ p.payload + increment →
    (p.payload + increment ≤ total ↔ p.payload + increment < 1481) ∧
    (p.payload + increment < 1481 → p.payload < 1481)

/-- `len` and `payload` of a pbuf whose data end at `total`. -/
structure Pbuf.EndsAt (p : Pbuf) (total : Nat) : Prop where
  data : p.payload + p.len.toNat = total
  inside : total ≤ tPbufBufsize

section
variable {p : Pbuf} {total : Nat} {increment : Int}

theorem tPbufHeader_ret : (tPbufHeader p increment).1 = 0 ↔
    0 ≤ p.payload + increment ∧ p.payload + increment < 1481 := by
  rw [tPbufHeader_eq]
  split
  · next h => simpa using h
  · next h => simpa using h

/-- Subtracting an increment and its opposite. -/
theorem sub_ofInt_sub_ofInt_neg (l : UInt16) (i : Int) :
    l - UInt16.ofInt i - UInt16.ofInt (-i) = l := by
  apply UInt16.toNat_inj.mp
  have hl := l.toNat_lt
  rw [toNat_sub_ofInt, toNat_sub_ofInt]
  omega

/-- The opposite call takes a call back exactly when the payload came from below offset
1481. -/
theorem tPbufHeader_inverse_iff (h : (tPbufHeader p increment).1 = 0) :
    tPbufHeader (tPbufHeader p increment).2 (-increment) = (0, p) ↔ p.payload < 1481 := by
  have hmove := tPbufHeader_ret.mp h
  have hback : (((p.payload : Int) + increment).toNat : Int) + -increment = p.payload := by omega
  rw [tPbufHeader_eq p, if_pos hmove, tPbufHeader_eq]
  simp only [hback, sub_ofInt_sub_ofInt_neg, Int.toNat_natCast]
  constructor
  · intro heq
    by_contra hge
    rw [if_neg (by omega)] at heq
    simp at heq
  · intro hlt
    rw [if_pos (by omega)]

/-- A call is exact exactly when it fits. -/
theorem headerExact_iff_fits (h : p.EndsAt total) :
    HeaderExact p increment ↔ HeaderFits total p increment := by
  obtain ⟨hdata, hinside⟩ := h
  simp only [tPbufBufsize] at hinside
  have hfails : (tPbufHeader p increment).1 ≠ 0 → (tPbufHeader p increment).2 = p := by
    intro hne
    rw [tPbufHeader_eq, if_neg fun hmove => hne (tPbufHeader_ret.mpr hmove)]
  constructor
  · rintro ⟨hsucceeds, -, hinverse⟩ hpos
    rw [tPbufHeader_ret] at hsucceeds hinverse
    simp only [tPbufBufsize] at hsucceeds
    refine ⟨by omega, fun hlt => ?_⟩
    exact (tPbufHeader_inverse_iff (tPbufHeader_ret.mpr ⟨hpos, hlt⟩)).mp (hinverse ⟨hpos, hlt⟩)
  · intro hfits
    refine ⟨?_, hfails, fun hret => ?_⟩
    · rw [tPbufHeader_ret]
      simp only [tPbufBufsize]
      unfold HeaderFits at hfits
      omega
    · obtain ⟨hpos, hlt⟩ := tPbufHeader_ret.mp hret
      exact (tPbufHeader_inverse_iff hret).mpr ((hfits hpos).2 hlt)

/-- A call that fits leaves the end of the data where it is. -/
theorem Pbuf.EndsAt.header (h : p.EndsAt total) (hfits : HeaderFits total p increment) :
    (tPbufHeader p increment).2.EndsAt total := by
  obtain ⟨hdata, hinside⟩ := h
  refine ⟨?_, hinside⟩
  simp only [tPbufBufsize] at hinside
  rw [tPbufHeader_eq]
  split
  · next hmove =>
    have hle := (hfits hmove.1).1.mpr hmove.2
    simp only [toNat_sub_ofInt]
    omega
  · exact hdata

end

/-- A fresh pbuf's data end where they should, if its sizes fit. -/
theorem Pbuf.endsAt_alloc {pool pool' : List Pbuf} {offset length flags : UInt16} {p : Pbuf}
    (h : tPbufAlloc pool offset length flags = (some p, pool'))
    (hfit : offset.toNat + length.toNat ≤ tPbufBufsize) :
    p.EndsAt (offset.toNat + length.toNat) := by
  obtain ⟨-, -, q, -, rfl⟩ := tPbufAlloc_eq_some h
  exact ⟨rfl, hfit⟩

/-- **Push and pull are inverse** in a run of `t_pbuf_header` on a fresh pbuf exactly
when all calls fit. -/
theorem header_exact_iff {pool pool' : List Pbuf} {offset length flags : UInt16} {p : Pbuf}
    (h : tPbufAlloc pool offset length flags = (some p, pool'))
    (hfit : offset.toNat + length.toNat ≤ tPbufBufsize) (increments : List Int) :
    Run.Along (fun p n => (tPbufHeader p n).2) HeaderExact p increments ↔
      Run.Along (fun p n => (tPbufHeader p n).2) (HeaderFits (offset.toNat + length.toNat)) p
        increments :=
  Run.along_iff_of_along (I := fun p => p.EndsAt (offset.toNat + length.toNat))
    (fun _ _ hI hok => hI.header hok) (fun _ _ hI => headerExact_iff_fits hI)
    (Pbuf.endsAt_alloc h hfit)

/-! ## some calls -/

/-- A pbuf from a pool of one. -/
def headerPbuf (offset length : UInt16) : Pbuf where
  id := 0
  payload := offset.toNat
  totLen := length
  len := length
  ref := 1
  mem := fun _ => 0
  wrEnd := 0
  rdEnd := 0

theorem headerPbuf_alloc {offset length : UInt16} (h : (length + offset).toNat ≤ 1514) :
    tPbufAlloc [{ headerPbuf 0 1514 with ref := 0 }] offset length tPbufFlagPool =
      (some (headerPbuf offset length), []) :=
  tPbufAlloc_pool _ _ _ h

/-- The calls of `T_PBUF_TEST`. -/
theorem header_exact_test :
    Run.Along (fun p n => (tPbufHeader p n).2) HeaderExact (headerPbuf 10 1500) [14, 20, -20, -14] ↔
      Run.Along (fun p n => (tPbufHeader p n).2) (HeaderFits 1510) (headerPbuf 10 1500)
        [14, 20, -20, -14] :=
  header_exact_iff (headerPbuf_alloc (by decide)) (by decide) _

/-- A pull to the data at offset 1481 fails, and one of more than `len` succeeds. -/
theorem not_header_exact :
    ¬ Run.Along (fun p n => (tPbufHeader p n).2) HeaderExact (headerPbuf 10 1500) [1471] ∧
    ¬ Run.Along (fun p n => (tPbufHeader p n).2) HeaderExact (headerPbuf 0 100) [200] := by
  have hfar : (headerPbuf 10 1500).EndsAt 1510 := ⟨rfl, by decide⟩
  have hshort : (headerPbuf 0 100).EndsAt 100 := ⟨rfl, by decide⟩
  simp only [Run.along_cons, Run.along_nil, and_true, headerExact_iff_fits hfar, headerExact_iff_fits hshort]
  constructor <;> simp [HeaderFits, headerPbuf]

end TTcp
