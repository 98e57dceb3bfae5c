import TTcp.Tcp.Input

/-!
# TTcp.Tcp.Options

The walk of `t_tcp_parseopt` over the options of a segment.

`parseMss` says what the walk is for: the value of the first MSS option in a
list of options.  The code differs from it in two ways.  Its cursor has 8 bits,
so a length byte can throw it back, and then the walk may go round for ever
(`parseopt_ends`) or meet an MSS option that is none; and it compares only
the cursor with the end of the options, not where the option ends that begins
there.  It finds what `parseMss` finds unless it takes a stray MSS option
(`parseopt_exact_iff`).
-/

namespace TTcp

open Loop

/-! ## the grammar -/

/-- The value of the first MSS option in a list of options: a byte 1 stands
for itself, other options have their length behind the first byte, and the
list ends with a byte 0, a length of 0, or the last byte. -/
def parseMss : List UInt8 → Option UInt16
  | [] | [_] => none
  | kind :: len :: value =>
      if kind = 0 then none
      else if kind = 1 then parseMss (len :: value)
      else if len = 0 then none
      else if kind = 2 ∧ len = 4 ∧ 2 ≤ value.length then
        some ((value.getD 0 0).toUInt16 <<< 8 ||| (value.getD 1 0).toUInt16)
      else parseMss ((len :: value).drop (len.toNat - 1))
termination_by l => l.length
decreasing_by
  all_goals simp only [List.length_drop, List.length_cons]
  all_goals omega

/-! ## the walk -/

/-- The length of the options of a segment. -/
def optArea (m : ByteMem) (tcphdr : Nat) : Nat := ((tTcphHdrlen m tcphdr).toNat - 5) * 4

theorem optArea_le (m : ByteMem) (tcphdr : Nat) : optArea m tcphdr ≤ 40 := by
  have hlt := (tTcphWord m tcphdr).toNat_lt
  have hdiv : (tTcphHdrlen m tcphdr).toNat = (tTcphWord m tcphdr).toNat / 4096 := by
    rw [tTcphHdrlen, UInt16.toNat_shiftRight, show (12 : UInt16).toNat % 16 = 12 from rfl,
      Nat.shiftRight_eq_div_pow]
  rw [optArea, hdiv]
  omega

/-- The options of a segment. -/
def options (m : ByteMem) (tcphdr : Nat) : List UInt8 := m.slice (tcphdr + 20) (optArea m tcphdr)

/-- By how much the option at `o` moves the cursor on, if the walk goes past
it. -/
def optSize (m : ByteMem) (o : Nat) : Option UInt8 :=
  if m o = 0 then none
  else if m o = 1 then some 1
  else if m o = 2 ∧ m (o + 1) = 4 then none
  else if m (o + 1) = 0 then none
  else some (m (o + 1))

theorem optSize_pos {m : ByteMem} {o : Nat} {l : UInt8} (h : optSize m o = some l) : 0 < l.toNat := by
  unfold optSize at h
  repeat' split at h
  all_goals first
    | contradiction
    | skip
  · rw [← Option.some.inj h]
    decide
  · next h0 =>
    rw [← Option.some.inj h]
    exact Nat.pos_of_ne_zero fun hz => h0 (UInt8.toNat_inj.1 hz)

/-- A round of the walk. -/
theorem parseoptCursor_eq (m : ByteMem) (tcphdr : Nat) (c : UInt8) : parseoptCursor m tcphdr c =
    if optArea m tcphdr ≤ c.toNat then .done ()
    else match optSize m (tcphdr + 20 + c.toNat) with
      | none => .done ()
      | some l => .next (c + l) := by
  unfold parseoptCursor optSize optArea
  simp only [show tTcpHlen = 20 from rfl, tTcphHdrlen, tTcphWord, ← Nat.add_assoc]
  repeat' split
  all_goals first
    | rfl
    | simp_all

theorem next_parseoptCursor_iff {m : ByteMem} {tcphdr : Nat} {c c' : UInt8} :
    Next (parseoptCursor m tcphdr) c c' ↔ c.toNat < optArea m tcphdr ∧
      ∃ l, optSize m (tcphdr + 20 + c.toNat) = some l ∧ c' = c + l := by
  rw [Next, parseoptCursor_eq]
  by_cases hc : optArea m tcphdr ≤ c.toNat
  · rw [if_pos hc]
    exact iff_of_false (fun h => by cases h) fun h => absurd h.1 (not_lt.mpr hc)
  · rw [if_neg hc]
    cases hsize : optSize m (tcphdr + 20 + c.toNat) with
    | none => simp
    | some l => simp [not_le.mp hc, eq_comm]

/-! ## when it ends -/

/-- The loop ends within as many rounds as there are option bytes, or never. -/
theorem parseopt_leavesWithin_iff_ends (p : Pbuf) (tcphdr : Nat) :
    LeavesWithin (parseoptRound tcphdr) (fun s => s.1.toNat < optArea p.mem tcphdr)
        (optArea p.mem tcphdr) (0, p) ↔
      Ends (parseoptCursor p.mem tcphdr) 0 := by
  rw [leavesWithin_map (parseoptRound tcphdr) (P := fun s => p.ReadMore s.2) Prod.fst
    (fun c => c.toNat < optArea p.mem tcphdr) (fun _ _ hs h => parseoptRound_next hs h)
    (fun _ _ hs h => ⟨(), (parseoptRound_done hs h).2⟩) _ (s := (0, p)) (.refl p)]
  exact leavesWithin_iff_ends _ UInt8.toNat (fun _ h => h) (fun _ _ _ _ h => UInt8.toNat_inj.1 h)
    (fun s hs => ⟨(), by rw [parseoptCursor_eq, if_pos (not_lt.mp hs)]⟩) 0

/-- The options in a list of bytes, the first of which is byte `c` of the
options of a segment, with their places and lengths: one after the other, up
to the end of the list, a byte 0, an MSS option or a length of 0. -/
def optionsFrom : Nat → List UInt8 → List (Nat × Nat)
  | _, [] | _, [_] => []
  | c, kind :: len :: value =>
      if kind = 0 then []
      else if kind = 1 then (c, 1) :: optionsFrom (c + 1) (len :: value)
      else if kind = 2 ∧ len = 4 then []
      else if len = 0 then []
      else (c, len.toNat) :: optionsFrom (c + len.toNat) ((len :: value).drop (len.toNat - 1))
termination_by _ l => l.length
decreasing_by
  all_goals simp only [List.length_drop, List.length_cons]
  all_goals omega

/-- The options of a segment from byte `c` of them on.  The byte behind them is
the length of an option that begins in the last one. -/
def optionsAt (m : ByteMem) (tcphdr c : Nat) : List (Nat × Nat) :=
  optionsFrom c (m.slice (tcphdr + 20 + c) (optArea m tcphdr + 1 - c))

/-- The options of a segment, with their places and lengths. -/
def placedOptions (m : ByteMem) (tcphdr : Nat) : List (Nat × Nat) := optionsAt m tcphdr 0

section
variable {m : ByteMem} {tcphdr c : Nat}

theorem optionsAt_of_le (hc : optArea m tcphdr ≤ c) : optionsAt m tcphdr c = [] := by
  rw [optionsAt]
  rcases Nat.lt_or_ge (optArea m tcphdr) c with hlt | hge
  · rw [show optArea m tcphdr + 1 - c = 0 by omega, ByteMem.slice_zero, optionsFrom]
  · rw [show optArea m tcphdr + 1 - c = 0 + 1 by omega, ByteMem.slice_succ, ByteMem.slice_zero,
      optionsFrom]

theorem optionsAt_of_lt (hc : c < optArea m tcphdr) : optionsAt m tcphdr c =
    (optSize m (tcphdr + 20 + c)).elim []
      fun l => (c, l.toNat) :: optionsAt m tcphdr (c + l.toNat) := by
  obtain ⟨k, hk⟩ : ∃ k, optArea m tcphdr + 1 - c = k + 1 + 1 :=
    ⟨optArea m tcphdr - c - 1, by omega⟩
  rw [optionsAt, hk, ByteMem.slice_succ, ByteMem.slice_succ, optionsFrom, optSize]
  split
  · rfl
  split
  · rw [Option.elim_some, show (1 : UInt8).toNat = 1 from rfl, optionsAt,
      show optArea m tcphdr + 1 - (c + 1) = k + 1 by omega, ByteMem.slice_succ, ← Nat.add_assoc]
  split
  · rfl
  split
  · rfl
  next h0 =>
  have hpos : 0 < (m (tcphdr + 20 + c + 1)).toNat :=
    Nat.pos_of_ne_zero fun h => h0 (UInt8.toNat_inj.1 h)
  have hdrop : (m.slice (tcphdr + 20 + c + 1) (k + 1)).drop ((m (tcphdr + 20 + c + 1)).toNat - 1) =
      m.slice (tcphdr + 20 + (c + (m (tcphdr + 20 + c + 1)).toNat))
        (optArea m tcphdr + 1 - (c + (m (tcphdr + 20 + c + 1)).toNat)) := by
    obtain ⟨l, hl⟩ : ∃ l, (m (tcphdr + 20 + c + 1)).toNat = l + 1 :=
      ⟨_, (Nat.sub_add_cancel hpos).symm⟩
    rw [hl, Nat.add_sub_cancel]
    by_cases hle : l ≤ k + 1
    · rw [show k + 1 = l + (k + 1 - l) by omega, ByteMem.drop_slice,
        show optArea m tcphdr + 1 - (c + (l + 1)) = k + 1 - l by omega]
      congr 1
      omega
    · rw [show optArea m tcphdr + 1 - (c + (l + 1)) = 0 by omega, ByteMem.slice_zero,
        List.drop_eq_nil_iff, ByteMem.length_slice]
      omega
  rw [Option.elim_some, optionsAt, ← ByteMem.slice_succ, hdrop]

/-- Where an option begins, the walk is in the options, and goes past it. -/
theorem mem_optionsAt {o : Nat × Nat} (h : o ∈ optionsAt m tcphdr c) :
    c ≤ o.1 ∧ o.1 < optArea m tcphdr ∧
      ∃ l, optSize m (tcphdr + 20 + o.1) = some l ∧ o.2 = l.toNat := by
  induction hn : optArea m tcphdr - c using Nat.strong_induction_on generalizing c with
  | _ n ih =>
      rcases Nat.lt_or_ge c (optArea m tcphdr) with hc | hc
      · rw [optionsAt_of_lt hc] at h
        cases hsize : optSize m (tcphdr + 20 + c) with
        | none => simp [hsize] at h
        | some l =>
            rw [hsize, Option.elim_some, List.mem_cons] at h
            have hl := optSize_pos hsize
            rcases h with rfl | h
            · exact ⟨le_rfl, hc, l, hsize, rfl⟩
            · obtain ⟨hle, hrest⟩ := ih _ (by omega) h rfl
              exact ⟨by omega, hrest⟩
      · rw [optionsAt_of_le hc] at h
        exact absurd h List.not_mem_nil

/-- The walk comes to every option, and the cursor then is its place. -/
theorem reaches_of_mem_optionsAt {c : UInt8} {o : Nat × Nat} (h : o ∈ optionsAt m tcphdr c.toNat) :
    ∃ c', c'.toNat = o.1 ∧ Reaches (parseoptCursor m tcphdr) c c' := by
  induction hn : optArea m tcphdr - c.toNat using Nat.strong_induction_on generalizing c with
  | _ n ih =>
      obtain ⟨hle, hlt, -⟩ := mem_optionsAt h
      have harea := optArea_le m tcphdr
      rw [optionsAt_of_lt (by omega)] at h
      cases hsize : optSize m (tcphdr + 20 + c.toNat) with
      | none => simp [hsize] at h
      | some l =>
          rw [hsize, Option.elim_some, List.mem_cons] at h
          rcases h with rfl | h
          · exact ⟨c, rfl, .refl⟩
          · -- an option that begins behind this one begins below 256
            have hl := optSize_pos hsize
            have hbehind := (mem_optionsAt h).1
            have hadd : (c + l).toNat = c.toNat + l.toNat := by
              rw [UInt8.toNat_add]
              omega
            rw [← hadd] at h
            obtain ⟨c', hc', hreach⟩ := ih _ (by omega) h rfl
            exact ⟨c', hc', .head (next_parseoptCursor_iff.mpr ⟨by omega, l, hsize, rfl⟩) hreach⟩

/-- As long as no option throws it back, the cursor goes up. -/
theorem ends_of_optionsAt {c : UInt8} (h : ∀ o ∈ optionsAt m tcphdr c.toNat, o.1 + o.2 < 256) :
    Ends (parseoptCursor m tcphdr) c := by
  induction hn : optArea m tcphdr - c.toNat using Nat.strong_induction_on generalizing c with
  | _ n ih =>
      rcases Nat.lt_or_ge c.toNat (optArea m tcphdr) with hc | hc
      · rw [optionsAt_of_lt hc] at h
        cases hsize : optSize m (tcphdr + 20 + c.toNat) with
        | none =>
            exact ends_of_done _ (r := ()) (by rw [parseoptCursor_eq, if_neg (not_le.mpr hc), hsize])
        | some l =>
            rw [hsize, Option.elim_some] at h
            have hl := optSize_pos hsize
            have hadd : (c + l).toNat = c.toNat + l.toNat := by
              have hfits := h _ List.mem_cons_self
              rw [UInt8.toNat_add]
              omega
            refine ends_of_next _ (next_parseoptCursor_iff.mpr ⟨hc, l, hsize, rfl⟩)
              (ih _ (by omega) (fun o ho => ?_) rfl)
            rw [hadd] at ho
            exact h o (List.mem_cons_of_mem _ ho)
      · exact ends_of_done _ (r := ()) (by rw [parseoptCursor_eq, if_pos hc])

/-- An option that throws the cursor back to a place behind which it comes
again is come to for ever. -/
theorem not_ends_of_mem_optionsAt {c : UInt8} {o : Nat × Nat} (ho : o ∈ optionsAt m tcphdr c.toNat)
    (hback : 256 ≤ o.1 + o.2) (hagain : o ∈ optionsAt m tcphdr (o.1 + o.2 - 256)) :
    ¬ Ends (parseoptCursor m tcphdr) c := by
  obtain ⟨c₁, hc₁, hreach⟩ := reaches_of_mem_optionsAt ho
  obtain ⟨-, hlt, l, hsize, hl⟩ := mem_optionsAt ho
  have harea := optArea_le m tcphdr
  have hthrown : (c₁ + l).toNat = o.1 + o.2 - 256 := by
    have := l.toNat_lt
    rw [UInt8.toNat_add]
    omega
  rw [← hc₁] at hlt hsize
  have hnext : Next (parseoptCursor m tcphdr) c₁ (c₁ + l) :=
    next_parseoptCursor_iff.mpr ⟨hlt, l, hsize, rfl⟩
  rw [← hthrown] at hagain
  obtain ⟨c₂, hc₂, hround⟩ := reaches_of_mem_optionsAt hagain
  obtain rfl : c₂ = c₁ := UInt8.toNat_inj.1 (hc₂.trans hc₁.symm)
  rw [Reaches.ends _ hreach]
  obtain ⟨k, hk⟩ := (reaches_iff _).mp hround
  refine not_ends_of_cycle _ (Nat.succ_pos k) (s := c₂) ?_
  rw [Nat.succ_eq_one_add, iter_add, iter_one _ hnext, Option.bind_some, hk]

end

/-- **Ending**: the loop of `t_tcp_parseopt` is left after at most as many
rounds as there are option bytes if none of the options has an end, place and
length, that its 8-bit cursor cannot hold.  It goes round for ever if one
does, and comes again behind the place that it throws the cursor back to. -/
theorem parseopt_ends (p : Pbuf) (tcphdr : Nat) :
    ((∀ o ∈ placedOptions p.mem tcphdr, o.1 + o.2 < 256) →
      LeavesWithin (parseoptRound tcphdr) (fun s => s.1.toNat < optArea p.mem tcphdr)
        (optArea p.mem tcphdr) (0, p)) ∧
      ∀ o ∈ placedOptions p.mem tcphdr, 256 ≤ o.1 + o.2 →
        o ∈ optionsAt p.mem tcphdr (o.1 + o.2 - 256) →
        ¬ LeavesWithin (parseoptRound tcphdr) (fun s => s.1.toNat < optArea p.mem tcphdr)
          (optArea p.mem tcphdr) (0, p) := by
  rw [parseopt_leavesWithin_iff_ends]
  exact ⟨fun h => ends_of_optionsAt (c := 0) h,
    fun o ho hback hagain => not_ends_of_mem_optionsAt (c := 0) ho hback hagain⟩

/-- A segment with these bytes from the middle of its TCP header on, and zeros
before. -/
def optionSegment (bytes : List UInt8) : Pbuf where
  id := 0
  payload := 0
  totLen := 20
  len := 20
  ref := 1
  mem := ByteMem.copy (fun _ => 0) 12 (fun i => bytes.getD i 0) bytes.length
  wrEnd := 0
  rdEnd := 0

/-- One word of options: a NOP, and an option of length 255 that throws the
cursor back to it. -/
def loopingOptions : Pbuf := optionSegment [0x60, 0x12, 0, 0, 0, 0, 0, 0, 1, 3, 255, 0]

theorem not_parseopt_ends : ¬ ∀ p tcphdr, tTcphHdrlen p.mem tcphdr > 5 →
    LeavesWithin (parseoptRound tcphdr) (fun s => s.1.toNat < optArea p.mem tcphdr)
      (optArea p.mem tcphdr) (0, p) := by
  intro h
  have hends := h loopingOptions 0 (by decide +kernel)
  rw [parseopt_leavesWithin_iff_ends] at hends
  have h01 : Next (parseoptCursor loopingOptions.mem 0) 0 1 :=
    next_parseoptCursor_iff.mpr ⟨by decide +kernel, 1, by decide +kernel, by decide⟩
  have h10 : Next (parseoptCursor loopingOptions.mem 0) 1 0 :=
    next_parseoptCursor_iff.mpr ⟨by decide +kernel, 255, by decide +kernel, by decide⟩
  refine not_ends_of_cycle _ (k := 2) (by decide) ?_ hends
  rw [show 2 = 1 + 1 from rfl, iter_add, iter_one _ h01, Option.bind_some, iter_one _ h10]

/-! ## what it finds -/

section
variable {m : ByteMem} {tcphdr : Nat} {c : UInt8}

theorem drop_options (c : Nat) : (options m tcphdr).drop c =
    m.slice (tcphdr + 20 + c) (optArea m tcphdr - c) := by
  by_cases hc : c ≤ optArea m tcphdr
  · rw [options, show optArea m tcphdr = c + (optArea m tcphdr - c) by omega, ByteMem.drop_slice,
      Nat.add_sub_cancel_left]
  · rw [show optArea m tcphdr - c = 0 by omega, ByteMem.slice_zero, List.drop_eq_nil_iff, options,
      ByteMem.length_slice]
    omega

/-- Going past an option, the walk goes on with the rest of the list. -/
theorem parseMss_drop_of_optSize {l : UInt8} (hc : c.toNat < optArea m tcphdr)
    (hsize : optSize m (tcphdr + 20 + c.toNat) = some l) :
    parseMss ((options m tcphdr).drop c.toNat) =
      parseMss ((options m tcphdr).drop (c.toNat + l.toNat)) := by
  have hl := optSize_pos hsize
  rw [← List.drop_drop, drop_options]
  obtain ⟨o, ho⟩ : ∃ o, o = tcphdr + 20 + c.toNat := ⟨_, rfl⟩
  obtain ⟨k, hk⟩ : ∃ k, optArea m tcphdr - c.toNat = k + 1 := ⟨_, (Nat.sub_add_cancel (by omega)).symm⟩
  rw [← ho] at hsize ⊢
  rw [hk, ByteMem.slice_succ]
  unfold optSize at hsize
  split at hsize
  · cases hsize
  next h0 =>
  split at hsize
  · next h1 =>
    obtain rfl := Option.some.inj hsize
    rw [show (1 : UInt8).toNat = 1 from rfl, List.drop_succ_cons, List.drop_zero]
    cases k with
    | zero => simp [parseMss]
    | succ k => rw [ByteMem.slice_succ, parseMss, if_neg h0, if_pos h1]
  next h1 =>
  split at hsize
  · cases hsize
  next h2 =>
  split at hsize
  · cases hsize
  next h3 =>
  obtain rfl := Option.some.inj hsize
  rw [show (m (o + 1)).toNat = (m (o + 1)).toNat - 1 + 1 by omega, List.drop_succ_cons]
  cases k with
  | zero => simp [parseMss]
  | succ k =>
      rw [ByteMem.slice_succ, parseMss, if_neg h0, if_neg h1, if_neg h3,
        if_neg fun h => h2 ⟨h.1, h.2.1⟩]

/-- The value of the MSS option at `o`, if there is one. -/
def mssAt (m : ByteMem) (o : Nat) : Option UInt16 :=
  if m o = 2 ∧ m (o + 1) = 4 then
    some ((m (o + 2)).toUInt16 <<< 8 ||| (m (o + 3)).toUInt16)
  else none

/-- At an option that the walk does not go past, the list ends, or has its MSS
option if that is complete. -/
theorem parseMss_drop_of_optSize_eq_none (hc : c.toNat < optArea m tcphdr)
    (hsize : optSize m (tcphdr + 20 + c.toNat) = none) :
    parseMss ((options m tcphdr).drop c.toNat) =
      if c.toNat + 4 ≤ optArea m tcphdr then mssAt m (tcphdr + 20 + c.toNat) else none := by
  rw [drop_options]
  obtain ⟨o, ho⟩ : ∃ o, o = tcphdr + 20 + c.toNat := ⟨_, rfl⟩
  obtain ⟨k, hk⟩ : ∃ k, optArea m tcphdr - c.toNat = k + 1 := ⟨_, (Nat.sub_add_cancel (by omega)).symm⟩
  have hfour : c.toNat + 4 ≤ optArea m tcphdr ↔ 3 ≤ k := by omega
  rw [← ho] at hsize ⊢
  simp only [hk, hfour, ByteMem.slice_succ]
  unfold optSize at hsize
  cases k with
  | zero => simp [parseMss]
  | succ k =>
  rw [ByteMem.slice_succ, parseMss, ByteMem.length_slice]
  split at hsize
  · next h0 => simp [h0, mssAt]
  next h0 =>
  split at hsize
  · contradiction
  next h1 =>
  split at hsize
  · next h2 =>
    have hlen : m (o + 1) ≠ 0 := by rw [h2.2]; decide
    rw [if_neg h0, if_neg h1, if_neg hlen, mssAt, if_pos h2]
    by_cases hk2 : 2 ≤ k
    · obtain ⟨k, rfl⟩ : ∃ j, k = j + 2 := ⟨k - 2, by omega⟩
      rw [if_pos ⟨h2.1, h2.2, hk2⟩, if_pos (by omega), ByteMem.slice_succ, ByteMem.slice_succ]
      rfl
    · -- the option is cut off: what is left is shorter than it says
      have hnil : (m (o + 1) :: m.slice (o + 1 + 1) k).drop ((m (o + 1)).toNat - 1) = [] := by
        rw [List.drop_eq_nil_iff, List.length_cons, ByteMem.length_slice, h2.2,
          show (4 : UInt8).toNat = 4 from rfl]
        omega
      rw [if_neg fun h => hk2 h.2.2, if_neg (by omega), hnil, parseMss]
  next h2 =>
  split at hsize
  · next h3 => rw [if_neg h0, if_neg h1, if_pos h3, mssAt, if_neg h2, ite_self]
  · contradiction

/-- The walk comes to `c` without having been thrown back. -/
def ReachesForward (m : ByteMem) (tcphdr : Nat) : UInt8 → Prop :=
  Relation.ReflTransGen
    (fun c c' => Next (parseoptCursor m tcphdr) c c' ∧ c.toNat < c'.toNat) 0

/-- As long as it is not thrown back, the walk is in the list. -/
theorem ReachesForward.parseMss_eq (h : ReachesForward m tcphdr c) :
    parseMss (options m tcphdr) = parseMss ((options m tcphdr).drop c.toNat) := by
  induction h with
  | refl => rfl
  | @tail c c' _ hnext ih =>
      obtain ⟨hc, l, hsize, hc'⟩ := next_parseoptCursor_iff.mp hnext.1
      have hparse := parseMss_drop_of_optSize hc hsize
      have hup := hnext.2
      have hadd : c'.toNat = c.toNat + l.toNat := by
        rw [hc', UInt8.toNat_add] at hup ⊢
        have := c.toNat_lt
        have := l.toNat_lt
        omega
      rw [ih, hparse, hadd]

/-- When it is thrown back, it has passed the end of the list. -/
theorem parseMss_of_reaches (h : Reaches (parseoptCursor m tcphdr) 0 c) :
    ReachesForward m tcphdr c ∨ parseMss (options m tcphdr) = none := by
  induction h with
  | refl => exact Or.inl .refl
  | @tail c c' _ hnext ih =>
      refine ih.elim (fun hfwd => ?_) Or.inr
      obtain ⟨hc, l, hsize, hc'⟩ := next_parseoptCursor_iff.mp hnext
      have hl := optSize_pos hsize
      have hparse := parseMss_drop_of_optSize hc hsize
      by_cases hwrap : c.toNat + l.toNat < 256
      · refine Or.inl (hfwd.tail ⟨hnext, ?_⟩)
        rw [hc', UInt8.toNat_add]
        omega
      · right
        have hle := optArea_le m tcphdr
        rw [hfwd.parseMss_eq, hparse, drop_options,
          show optArea m tcphdr - (c.toNat + l.toNat) = 0 by omega]
        simp [parseMss]

/-- An MSS option that the walk takes though it is not in the list: it is cut
off by the end of the options, or the walk was thrown back to it. -/
def StrayMss (m : ByteMem) (tcphdr : Nat) : Prop :=
  ∃ c, Reaches (parseoptCursor m tcphdr) 0 c ∧ c.toNat < optArea m tcphdr ∧
    mssAt m (tcphdr + 20 + c.toNat) ≠ none ∧
    ¬ (ReachesForward m tcphdr c ∧ c.toNat + 4 ≤ optArea m tcphdr)

/-- What the walk ends with, by the place where it does. -/
theorem parseoptRound_result {s : UInt8 × Pbuf} {r : Option UInt16 × Pbuf}
    (h : parseoptRound tcphdr s = .done r) :
    optArea s.2.mem tcphdr ≤ s.1.toNat ∧ r.1 = none ∨
      s.1.toNat < optArea s.2.mem tcphdr ∧
        optSize s.2.mem (tcphdr + 20 + s.1.toNat) = none ∧
        r.1 = mssAt s.2.mem (tcphdr + 20 + s.1.toNat) := by
  obtain ⟨c, q⟩ := s
  simp only [parseoptRound, Pbuf.rd16_fst, Pbuf.rd16_snd, Pbuf.rd8_fst, Pbuf.rd8_snd,
    Pbuf.see_mem, show tTcpHlen = 20 from rfl, ← Nat.add_assoc] at h
  have harea : ((ntohs (q.mem.get16 (tcphdr + 12)) >>> 12).toNat - 5) * 4 =
      optArea q.mem tcphdr := rfl
  rw [harea] at h
  unfold optSize mssAt
  split at h
  · next hend => exact Or.inl ⟨hend, by rw [← Loop.Step.done.inj h]⟩
  next hend =>
  refine Or.inr ⟨not_le.mp hend, ?_⟩
  simp only
  split at h
  · next h0 =>
    rw [← Loop.Step.done.inj h]
    simp [h0]
  next h0 =>
  split at h
  · cases h
  next h1 =>
  rw [if_neg h0, if_neg h1]
  split at h
  · next h2 =>
    rw [← Loop.Step.done.inj h, if_pos h2, if_pos h2]
    exact ⟨rfl, rfl⟩
  next h2 =>
  split at h
  · next h3 =>
    rw [← Loop.Step.done.inj h, if_neg h2, if_neg h2, if_pos h3]
    exact ⟨rfl, rfl⟩
  · cases h

/-- Where the walk of `t_tcp_parseopt` ends, and with what. -/
theorem tTcpParseopt_result {p p' : Pbuf} {r : Option UInt16} (h5 : tTcphHdrlen p.mem tcphdr > 5)
    (h : tTcpParseopt p tcphdr = some (r, p')) :
    ∃ c, Reaches (parseoptCursor p.mem tcphdr) 0 c ∧ parseoptCursor p.mem tcphdr c = .done () ∧
      (optArea p.mem tcphdr ≤ c.toNat ∧ r = none ∨ c.toNat < optArea p.mem tcphdr ∧
        optSize p.mem (tcphdr + 20 + c.toNat) = none ∧
        r = mssAt p.mem (tcphdr + 20 + c.toNat)) := by
  rw [tTcpParseopt_eq, if_pos h5] at h
  refine Loop.run_of_invariant (parseoptRound tcphdr)
    (P := fun s => p.ReadMore s.2 ∧ Reaches (parseoptCursor p.mem tcphdr) 0 s.1)
    (Q := fun r => ∃ c, Reaches (parseoptCursor p.mem tcphdr) 0 c ∧
      parseoptCursor p.mem tcphdr c = .done () ∧
      (optArea p.mem tcphdr ≤ c.toNat ∧ r.1 = none ∨ c.toNat < optArea p.mem tcphdr ∧
        optSize p.mem (tcphdr + 20 + c.toNat) = none ∧
        r.1 = mssAt p.mem (tcphdr + 20 + c.toNat)))
    (fun s s' hs hnext => ?_) (fun s r hs hdone => ?_) ⟨(Pbuf.ReadMore.refl p).see _, .refl⟩ h
  · obtain ⟨hread, hcursor⟩ := parseoptRound_next hs.1 hnext
    exact ⟨hread, hs.2.tail hcursor⟩
  · have hresult := parseoptRound_result hdone
    rw [hs.1.mem] at hresult
    exact ⟨s.1, hs.2, (parseoptRound_done hs.1 hdone).2, hresult⟩

/-- The options that decide are those in the list unless a stray MSS option is
taken. -/
theorem tTcpParseopt_parseMss_iff {p p' : Pbuf} {r : Option UInt16}
    (h5 : tTcphHdrlen p.mem tcphdr > 5) (h : tTcpParseopt p tcphdr = some (r, p')) :
    (∀ mss, negotiatedMss mss r = negotiatedMss mss (parseMss (options p.mem tcphdr))) ↔
      ¬ StrayMss p.mem tcphdr := by
  obtain ⟨c, hreach, hdone, hresult⟩ := tTcpParseopt_result h5 h
  constructor
  · rintro heq ⟨c', hreach', hc', hmss, hstray⟩
    -- the walk ends at its first MSS option, so it is the stray one
    have hsize : optSize p.mem (tcphdr + 20 + c'.toNat) = none := by
      unfold mssAt at hmss
      split at hmss
      · next h2 =>
        have h0 : p.mem (tcphdr + 20 + c'.toNat) ≠ 0 := by rw [h2.1]; decide
        have h1 : p.mem (tcphdr + 20 + c'.toNat) ≠ 1 := by rw [h2.1]; decide
        rw [optSize, if_neg h0, if_neg h1, if_pos h2]
      · exact absurd rfl hmss
    have hdone' : parseoptCursor p.mem tcphdr c' = .done () := by
      rw [parseoptCursor_eq, if_neg (not_le.mpr hc'), hsize]
    obtain rfl := Reaches.unique _ hreach hreach' hdone hdone'
    have hnone : parseMss (options p.mem tcphdr) = none := by
      rcases parseMss_of_reaches hreach with hfwd | hparse
      · rw [hfwd.parseMss_eq, parseMss_drop_of_optSize_eq_none hc' hsize,
          if_neg fun hfour => hstray ⟨hfwd, hfour⟩]
      · exact hparse
    obtain ⟨v, hv⟩ := Option.ne_none_iff_exists'.mp hmss
    have hr : r = some v := by
      rcases hresult with ⟨hend, -⟩ | ⟨-, -, hr⟩
      · omega
      · rw [hr, hv]
    -- an option decides whatever the `mss` was before
    have h0 := heq 0
    have h1 := heq 1
    rw [hr, hnone] at h0 h1
    have h01 : negotiatedMss 0 (some v) = negotiatedMss 1 (some v) := rfl
    rw [h0, h1] at h01
    exact absurd h01 (by decide)
  · intro hstray mss
    congr 1
    rcases hresult with ⟨hend, rfl⟩ | ⟨hc, hsize, rfl⟩
    · rcases parseMss_of_reaches hreach with hfwd | hparse
      · rw [hfwd.parseMss_eq, drop_options, show optArea p.mem tcphdr - c.toNat = 0 by omega]
        simp [parseMss]
      · exact hparse.symm
    · by_cases hmss : mssAt p.mem (tcphdr + 20 + c.toNat) = none
      · rcases parseMss_of_reaches hreach with hfwd | hparse
        · rw [hfwd.parseMss_eq, parseMss_drop_of_optSize_eq_none hc hsize, hmss, ite_self]
        · rw [hmss, hparse]
      · obtain ⟨hfwd, hfour⟩ : ReachesForward p.mem tcphdr c ∧
            c.toNat + 4 ≤ optArea p.mem tcphdr :=
          not_not.mp fun hn => hstray ⟨c, hreach, hc, hmss, hn⟩
        rw [hfwd.parseMss_eq, parseMss_drop_of_optSize_eq_none hc hsize, if_pos hfour]

end

/-- The two segments have the same options. -/
def SameOptions (p q : Pbuf) (tcphdr : Nat) : Prop :=
  tTcphHdrlen q.mem tcphdr = tTcphHdrlen p.mem tcphdr ∧
    options q.mem tcphdr = options p.mem tcphdr

/-- **Finding the MSS option**: whatever bytes follow the options of a segment,
the `mss` becomes what the list of its options says when the walk ends, exactly
when there are no bytes with which the walk ends and takes a stray MSS
option. -/
theorem parseopt_exact_iff (p : Pbuf) (tcphdr : Nat) (h5 : tTcphHdrlen p.mem tcphdr > 5) :
    (∀ q r q', SameOptions p q tcphdr → tTcpParseopt q tcphdr = some (r, q') →
        ∀ mss, negotiatedMss mss r = negotiatedMss mss (parseMss (options p.mem tcphdr))) ↔
      ∀ q, SameOptions p q tcphdr → (tTcpParseopt q tcphdr).isSome → ¬ StrayMss q.mem tcphdr := by
  constructor
  · intro h q hq hsome
    obtain ⟨⟨r, q'⟩, hr⟩ := Option.isSome_iff_exists.mp hsome
    refine (tTcpParseopt_parseMss_iff (by rw [hq.1]; exact h5) hr).mp ?_
    rw [hq.2]
    exact h q r q' hq hr
  · intro h q r q' hq hr
    have hexact := (tTcpParseopt_parseMss_iff (by rw [hq.1]; exact h5) hr).mpr
      (h q hq (by rw [hr]; rfl))
    rwa [hq.2] at hexact

/-- One word of options that ends in the kind of an MSS option; the rest of it
is in the data. -/
def strayOptions (mss : UInt8) : Pbuf :=
  optionSegment [0x60, 0x12, 0, 0, 0, 0, 0, 0, 1, 1, 1, 2, 4, 0, mss]

theorem not_parseopt_exact : ¬ ∀ p tcphdr q r q', tTcphHdrlen p.mem tcphdr > 5 →
    SameOptions p q tcphdr → tTcpParseopt q tcphdr = some (r, q') →
      ∀ mss, negotiatedMss mss r = negotiatedMss mss (parseMss (options p.mem tcphdr)) := by
  intro h
  -- two segments that differ in their data only
  have hfound : ∀ mss : UInt8, mss = 1 ∨ mss = 2 →
      ((tTcpParseopt (strayOptions mss) 0).map Prod.fst) = some (some mss.toUInt16) := by
    rintro mss (rfl | rfl) <;> decide +kernel
  have hsame : SameOptions (strayOptions 1) (strayOptions 2) 0 :=
    ⟨by decide +kernel, by decide +kernel⟩
  obtain ⟨⟨r, q⟩, hr, hr1⟩ := Option.map_eq_some_iff.mp (hfound 1 (Or.inl rfl))
  obtain ⟨⟨r', q'⟩, hr', hr2⟩ := Option.map_eq_some_iff.mp (hfound 2 (Or.inr rfl))
  have h1 := h (strayOptions 1) 0 _ _ _ (by decide +kernel) ⟨rfl, rfl⟩ hr 0
  have h2 := h (strayOptions 1) 0 _ _ _ (by decide +kernel) hsame hr' 0
  simp only at hr1 hr2
  rw [← h2, hr1, hr2] at h1
  exact absurd h1 (by decide)

/-- The options of the stray segment say nothing, but with some data the walk
takes an MSS option that begins in them. -/
theorem parseopt_exact_iff_stray :
    (∀ q r q', SameOptions (strayOptions 1) q 0 → tTcpParseopt q 0 = some (r, q') →
        ∀ mss, negotiatedMss mss r =
          negotiatedMss mss (parseMss (options (strayOptions 1).mem 0))) ↔
      ∀ q, SameOptions (strayOptions 1) q 0 → (tTcpParseopt q 0).isSome →
        ¬ StrayMss q.mem 0 :=
  parseopt_exact_iff (strayOptions 1) 0 (by decide +kernel)

end TTcp
