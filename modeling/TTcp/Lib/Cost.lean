import TTcp.Lib.Run

/-!
# TTcp.Lib.Cost

What the steps of a run cost together.

A step may cost more than its budget `b op` by what a potential `Φ` grows by (`total_le`), so a run
costs its budgets and what the potential has grown by at its end.
-/

namespace Run

variable {σ ι : Type*} (step : σ → ι → σ) (cost : σ → ι → ℕ)

/-- The costs of the steps of a run. -/
def total : σ → List ι → ℕ
  | _, [] => 0
  | s, op :: ops => cost s op + total (step s op) ops

@[simp] theorem total_nil (s : σ) : total step cost s [] = 0 := rfl

@[simp] theorem total_cons (s : σ) (op : ι) (ops : List ι) :
    total step cost s (op :: ops) = cost s op + total step cost (step s op) ops := rfl

variable {step cost}

/-- **Amortised costs**: when each step costs no more than its budget and what the potential
grows by, a run costs no more than all budgets and the growth from its beginning to its end. -/
theorem total_le {I : σ → Prop} {ok : σ → ι → Prop} {Φ : σ → ℤ} {b : ι → ℕ}
    (hinv : ∀ s op, I s → ok s op → I (step s op))
    (hstep : ∀ s op, I s → ok s op → (cost s op : ℤ) ≤ Φ (step s op) - Φ s + b op) {s : σ}
    {ops : List ι} (hs : I s) (h : Along step ok s ops) :
    (total step cost s ops : ℤ) ≤ Φ (final step s ops) - Φ s + (ops.map b).sum := by
  induction ops generalizing s with
  | nil => simp
  | cons op ops ih =>
      have hone := hstep s op hs h.1
      have hrest := ih (hinv s op hs h.1) h.2
      rw [total_cons, final_cons, List.map_cons, List.sum_cons, Nat.cast_add, Nat.cast_add]
      omega

end Run
