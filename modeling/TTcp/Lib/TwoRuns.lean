import TTcp.Lib.Run

/-!
# TTcp.Lib.TwoRuns

Two runs of one system, call by call.

A pair of runs is a run of pairs (`pairStep`).  If each pair of calls puts out equally much, and
the same exactly under a condition, then all that the two runs put out is the same exactly when
the condition holds of every pair of calls (`outputs_eq_iff`).
-/

namespace Run

variable {σ ι ω : Type*} (exec : σ → ι → List ω × σ)

/-- All that a run puts out. -/
def outputs : σ → List ι → List ω
  | _, [] => []
  | s, op :: ops => (exec s op).1 ++ outputs (exec s op).2 ops

/-- One call in each of two runs. -/
def pairStep (s : σ × σ) (op : ι × ι) : σ × σ := ((exec s.1 op.1).2, (exec s.2 op.2).2)

/-- **Two runs**: `R` is what they keep in common. -/
theorem outputs_eq_iff {R : σ × σ → Prop} {legal ok : σ × σ → ι × ι → Prop}
    (hinv : ∀ s op, R s → legal s op → R (pairStep exec s op))
    (hlen : ∀ s op, R s → legal s op → (exec s.1 op.1).1.length = (exec s.2 op.2).1.length)
    (hiff : ∀ s op, R s → legal s op → ((exec s.1 op.1).1 = (exec s.2 op.2).1 ↔ ok s op))
    {s : σ × σ} {ops : List (ι × ι)} (hs : R s) (hl : Along (pairStep exec) legal s ops) :
    outputs exec s.1 (ops.map Prod.fst) = outputs exec s.2 (ops.map Prod.snd) ↔
      Along (pairStep exec) ok s ops := by
  induction ops generalizing s with
  | nil => exact iff_of_true rfl trivial
  | cons op ops ih =>
      have hrest := ih (hinv s op hs hl.1) hl.2
      rw [along_cons, ← hiff s op hs hl.1, ← hrest]
      simp only [List.map_cons, outputs]
      constructor
      · intro h
        exact List.append_inj h (hlen s op hs hl.1)
      · rintro ⟨hhead, htail⟩
        rw [hhead]
        exact congrArg _ htail

end Run
