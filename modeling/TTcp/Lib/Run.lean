import Mathlib

/-!
# TTcp.Lib.Run

Runs of a deterministic system: a step function `step : σ → ι → σ` applied to
a list of operations.

`Along ok s ops` says that every operation of the run satisfies the condition
`ok` in the state it is applied to, `Throughout P s ops` that every state of
the run, the first and the last included, satisfies `P`.  An invariant that
every `ok` step preserves holds throughout every run along `ok`
(`throughout_of_along`); if `ok` is moreover exactly what a step needs to
preserve it, the two are equivalent (`throughout_iff_along`).
-/

namespace Run

variable {σ ι : Type*} (step : σ → ι → σ)

/-- The state at the end of a run. -/
def final (s : σ) (ops : List ι) : σ := ops.foldl step s

/-- Every operation satisfies `ok` in the state it is applied to. -/
def Along (ok : σ → ι → Prop) : σ → List ι → Prop
  | _, [] => True
  | s, op :: ops => ok s op ∧ Along ok (step s op) ops

/-- Every state of the run satisfies `P`. -/
def Throughout (P : σ → Prop) : σ → List ι → Prop
  | s, [] => P s
  | s, op :: ops => P s ∧ Throughout P (step s op) ops

/-- Whether a run is along a condition that can be decided. -/
instance decidableAlong (ok : σ → ι → Prop) [∀ s op, Decidable (ok s op)] :
    ∀ (s : σ) (ops : List ι), Decidable (Along step ok s ops)
  | _, [] => isTrue trivial
  | s, op :: ops => @instDecidableAnd _ _ _ (decidableAlong ok (step s op) ops)

@[simp] theorem final_nil (s : σ) : final step s [] = s := rfl

@[simp] theorem final_cons (s : σ) (op : ι) (ops : List ι) :
    final step s (op :: ops) = final step (step s op) ops := rfl

@[simp] theorem final_append (s : σ) (ops ops' : List ι) :
    final step s (ops ++ ops') = final step (final step s ops) ops' := List.foldl_append

@[simp] theorem along_nil (ok : σ → ι → Prop) (s : σ) : Along step ok s [] := trivial

@[simp] theorem along_cons (ok : σ → ι → Prop) (s : σ) (op : ι) (ops : List ι) :
    Along step ok s (op :: ops) ↔ ok s op ∧ Along step ok (step s op) ops := Iff.rfl

theorem along_append (ok : σ → ι → Prop) (s : σ) (ops ops' : List ι) :
    Along step ok s (ops ++ ops') ↔ Along step ok s ops ∧ Along step ok (final step s ops) ops' := by
  induction ops generalizing s with
  | nil => simp
  | cons op ops ih => simp [ih, and_assoc]

theorem Along.imp {ok ok' : σ → ι → Prop} (himp : ∀ s op, ok s op → ok' s op) {s : σ}
    {ops : List ι} (h : Along step ok s ops) : Along step ok' s ops := by
  induction ops generalizing s with
  | nil => trivial
  | cons op ops ih => exact ⟨himp s op h.1, ih h.2⟩

theorem Along.and {ok ok' : σ → ι → Prop} {s : σ} {ops : List ι} (h : Along step ok s ops)
    (h' : Along step ok' s ops) : Along step (fun s op => ok s op ∧ ok' s op) s ops := by
  induction ops generalizing s with
  | nil => trivial
  | cons op ops ih => exact ⟨⟨h.1, h'.1⟩, ih h.2 h'.2⟩

theorem along_of_forall {ok : ι → Prop} {s : σ} {ops : List ι} (h : ∀ op ∈ ops, ok op) :
    Along step (fun _ => ok) s ops := by
  induction ops generalizing s with
  | nil => trivial
  | cons op ops ih =>
      exact ⟨h op List.mem_cons_self, ih fun op' hop => h op' (List.mem_cons_of_mem op hop)⟩

variable {step}
variable {ok : σ → ι → Prop} {P : σ → Prop}

/-- **Invariants**: what every `ok` step preserves holds throughout. -/
theorem throughout_of_along (hstep : ∀ s op, P s → ok s op → P (step s op)) {s : σ}
    {ops : List ι} (hs : P s) (h : Along step ok s ops) : Throughout step P s ops := by
  induction ops generalizing s with
  | nil => exact hs
  | cons op ops ih => exact ⟨hs, ih (hstep s op hs h.1) h.2⟩

theorem Throughout.final {s : σ} {ops : List ι} (h : Throughout step P s ops) :
    P (final step s ops) := by
  induction ops generalizing s with
  | nil => exact h
  | cons op ops ih => exact ih h.2

theorem Throughout.imp {P' : σ → Prop} (himp : ∀ s, P s → P' s) {s : σ} {ops : List ι}
    (h : Throughout step P s ops) : Throughout step P' s ops := by
  induction ops generalizing s with
  | nil => exact himp s h
  | cons op ops ih => exact ⟨himp s h.1, ih h.2⟩

/-- An invariant holds at the end of every run along `ok`. -/
theorem final_of_along (hstep : ∀ s op, P s → ok s op → P (step s op)) {s : σ}
    {ops : List ι} (hs : P s) (h : Along step ok s ops) : P (Run.final step s ops) :=
  (throughout_of_along hstep hs h).final

/-- If, for the operations of the run, a step from a good state leads to a good
state exactly when it is `ok`, then a run from a good state is good throughout
exactly when it is along `ok`.  `I` is an invariant that these operations
preserve anyway. -/
theorem throughout_iff_along_of_invariant {I : σ → Prop} {legal : σ → ι → Prop}
    (hinv : ∀ s op, I s → legal s op → I (step s op))
    (hstep : ∀ s op, I s → legal s op → P s → (P (step s op) ↔ ok s op)) {s : σ} {ops : List ι}
    (hI : I s) (hs : P s) (hl : Along step legal s ops) :
    Throughout step P s ops ↔ Along step ok s ops := by
  induction ops generalizing s with
  | nil => exact iff_of_true hs trivial
  | cons op ops ih =>
      have hop := hstep s op hI hl.1 hs
      have hrest := fun hP => ih (hinv s op hI hl.1) hP hl.2
      constructor
      · rintro ⟨-, h⟩
        have hP : P (step s op) := by
          cases ops with
          | nil => exact h
          | cons op' ops => exact h.1
        exact ⟨hop.mp hP, (hrest hP).mp h⟩
      · rintro ⟨hok, h⟩
        exact ⟨hs, (hrest (hop.mpr hok)).mpr h⟩

/-- The same without an invariant, for any operations. -/
theorem throughout_iff_along (hstep : ∀ s op, P s → (P (step s op) ↔ ok s op)) {s : σ}
    {ops : List ι} (hs : P s) : Throughout step P s ops ↔ Along step ok s ops :=
  throughout_iff_along_of_invariant (I := fun _ => True) (fun _ _ _ _ => trivial)
    (fun s op _ _ hP => hstep s op hP) trivial hs
    (along_of_forall step fun _ _ => trivial)

/-- The same when a run that is good needs more than `P` to be so: a step that is
`ok` keeps the stronger `P'`, and no other step keeps `P`. -/
theorem throughout_iff_along_of_strong {P' : σ → Prop} {legal : σ → ι → Prop}
    (hP : ∀ s, P' s → P s)
    (hok : ∀ s op, P' s → legal s op → ok s op → P' (step s op))
    (hbad : ∀ s op, P' s → legal s op → P (step s op) → ok s op) {s : σ} {ops : List ι}
    (hs : P' s) (hl : Along step legal s ops) : Throughout step P s ops ↔ Along step ok s ops := by
  induction ops generalizing s with
  | nil => exact iff_of_true (hP s hs) trivial
  | cons op ops ih =>
      constructor
      · rintro ⟨-, h⟩
        have hstep : P (step s op) := by
          cases ops with
          | nil => exact h
          | cons op' ops => exact h.1
        have hop := hbad s op hs hl.1 hstep
        exact ⟨hop, (ih (hok s op hs hl.1 hop) hl.2).mp h⟩
      · rintro ⟨hop, h⟩
        exact ⟨hP s hs, (ih (hok s op hs hl.1 hop) hl.2).mpr h⟩

/-- Conditions that agree on every operation of the run agree on the run. -/
theorem along_iff_of_invariant {I : σ → Prop} {legal ok' : σ → ι → Prop}
    (hinv : ∀ s op, I s → legal s op → I (step s op))
    (hiff : ∀ s op, I s → legal s op → (ok s op ↔ ok' s op)) {s : σ} {ops : List ι} (hI : I s)
    (hl : Along step legal s ops) : Along step ok s ops ↔ Along step ok' s ops := by
  induction ops generalizing s with
  | nil => exact Iff.rfl
  | cons op ops ih =>
      rw [along_cons, along_cons, hiff s op hI hl.1, ih (hinv s op hI hl.1) hl.2]

/-- The same when the invariant needs the conditions to be preserved. -/
theorem along_iff_of_along {I : σ → Prop} {ok' : σ → ι → Prop}
    (hinv : ∀ s op, I s → ok' s op → I (step s op))
    (hiff : ∀ s op, I s → (ok s op ↔ ok' s op)) {s : σ} {ops : List ι} (hI : I s) :
    Along step ok s ops ↔ Along step ok' s ops := by
  induction ops generalizing s with
  | nil => exact Iff.rfl
  | cons op ops ih =>
      rw [along_cons, along_cons, hiff s op hI]
      exact and_congr_right fun hok => ih (hinv s op hI hok)

/-- What an invariant gives for every operation holds along the run. -/
theorem along_of_invariant {I : σ → Prop} {legal : σ → ι → Prop}
    (hinv : ∀ s op, I s → legal s op → I (step s op)) (hok : ∀ s op, I s → legal s op → ok s op)
    {s : σ} {ops : List ι} (hI : I s) (hl : Along step legal s ops) : Along step ok s ops := by
  induction ops generalizing s with
  | nil => trivial
  | cons op ops ih => exact ⟨hok s op hI hl.1, ih (hinv s op hI hl.1) hl.2⟩

/-- A run seen through `f`, when `f` carries the steps of one system to those
of another. -/
theorem along_map {τ : Type*} {step' : τ → ι → τ} {ok' : τ → ι → Prop} (f : σ → τ)
    (hf : ∀ s op, f (step s op) = step' (f s) op) {s : σ} {ops : List ι} :
    Along step (fun s op => ok' (f s) op) s ops ↔ Along step' ok' (f s) ops := by
  induction ops generalizing s with
  | nil => exact Iff.rfl
  | cons op ops ih => rw [along_cons, along_cons, ih, hf]

/-! ## what the calls of a run return -/

section History

variable {ω : Type*} (exec : σ → ι → ω × σ)

/-- The operations of a run with what came of them. -/
def history : σ → List ι → List (ι × ω)
  | _, [] => []
  | s, op :: ops => (op, (exec s op).1) :: history (exec s op).2 ops

@[simp] theorem history_nil (s : σ) : history exec s [] = [] := rfl

@[simp] theorem history_cons (s : σ) (op : ι) (ops : List ι) :
    history exec s (op :: ops) = (op, (exec s op).1) :: history exec (exec s op).2 ops := rfl

theorem history_append (s : σ) (ops ops' : List ι) : history exec s (ops ++ ops') =
    history exec s ops ++ history exec (final (fun s op => (exec s op).2) s ops) ops' := by
  induction ops generalizing s with
  | nil => rfl
  | cons op ops ih => simp [ih]

/-- **Invariants with history**: what holds of the empty history and every
`ok` step preserves holds of a whole run and what its calls returned. -/
theorem history_of_along {P : List (ι × ω) → σ → Prop}
    (hstep : ∀ hist s op, P hist s → ok s op → P (hist ++ [(op, (exec s op).1)]) (exec s op).2)
    (hist : List (ι × ω)) {s : σ} {ops : List ι} (hs : P hist s)
    (h : Along (fun s op => (exec s op).2) ok s ops) :
    P (hist ++ history exec s ops) (Run.final (fun s op => (exec s op).2) s ops) := by
  induction ops generalizing hist s with
  | nil => simpa using hs
  | cons op ops ih =>
      have := ih _ (hstep hist s op hs h.1) h.2
      simpa using this

end History

end Run
