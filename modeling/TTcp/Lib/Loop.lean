import Mathlib

/-!
# TTcp.Lib.Loop

Deterministic loops over a finite set of states.

A loop is given by its body, which either leaves with a result or goes round
again in a new state.  `run` executes it with a bound on the number of
iterations, and `Ends` says that some bound is large enough.  A loop whose
states inject into `Fin N` ends within `N` iterations or never, so running it
with bound `N` decides whether it ends (`ends_iff_run`): a bound of `N` loses
nothing.
-/

namespace Loop

/-- What one execution of a loop's body leads to. -/
inductive Step (σ ρ : Type*) where
  | next (s : σ)
  | done (r : ρ)
deriving Repr

variable {σ ρ : Type*} (step : σ → Step σ ρ)

/-- At most `n` iterations from `s`; `none` when they did not suffice. -/
def run : Nat → σ → Option ρ
  | 0, _ => none
  | n + 1, s => match step s with
    | .done r => some r
    | .next s' => run n s'

/-- The loop leaves after finitely many iterations. -/
def Ends (s : σ) : Prop := ∃ n, (run step n s).isSome

/-- The state after `n` iterations, if the loop is still running then. -/
def iter : Nat → σ → Option σ
  | 0, s => some s
  | n + 1, s => match step s with
    | .done _ => none
    | .next s' => iter n s'

/-- The states that at most `n` iterations from `s` are in. -/
def visited : Nat → σ → List σ
  | 0, _ => []
  | n + 1, s => s :: match step s with
    | .done _ => []
    | .next s' => visited n s'

theorem ends_of_done {s : σ} {r : ρ} (h : step s = .done r) : Ends step s :=
  ⟨1, by simp [run, h]⟩

theorem ends_of_next {s s' : σ} (h : step s = .next s') : Ends step s' → Ends step s :=
  fun ⟨n, hn⟩ => ⟨n + 1, by simpa [run, h] using hn⟩

/-! ## bounds -/

/-- A larger bound gives the same result. -/
theorem run_mono {n m : Nat} {s : σ} {r : ρ} (h : run step n s = some r) (hnm : n ≤ m) :
    run step m s = some r := by
  induction n generalizing s m with
  | zero => simp [run] at h
  | succ n ih =>
      obtain ⟨m, rfl⟩ : ∃ k, m = k + 1 := ⟨m - 1, by omega⟩
      unfold run at h ⊢
      cases hs : step s with
      | done r' => rw [hs] at h; exact h
      | next s' => rw [hs] at h; exact ih h (by omega)

/-- The result does not depend on the bound. -/
theorem run_unique {n m : Nat} {s : σ} {r r' : ρ} (h : run step n s = some r)
    (h' : run step m s = some r') : r = r' := by
  have h1 := run_mono step h (Nat.le_max_left n m)
  have h2 := run_mono step h' (Nat.le_max_right n m)
  exact Option.some.inj (h1.symm.trans h2)

/-- The loop is still running after `n` iterations exactly when the bound `n`
does not suffice. -/
theorem isSome_iter_iff (n : Nat) (s : σ) : (iter step n s).isSome ↔ run step n s = none := by
  induction n generalizing s with
  | zero => simp [iter, run]
  | succ n ih =>
      unfold iter run
      cases step s with
      | done r => simp
      | next s' => exact ih s'

theorem iter_add (a b : Nat) (s : σ) : iter step (a + b) s = (iter step a s).bind (iter step b) := by
  induction a generalizing s with
  | zero => simp [iter]
  | succ a ih =>
      rw [Nat.succ_add]
      simp only [iter]
      cases step s with
      | done r => simp
      | next s' => simpa using ih s'

/-- What holds at the start and every round preserves leads to what leaving
the loop from it leads to. -/
theorem run_of_invariant {P : σ → Prop} {Q : ρ → Prop} (hnext : ∀ s s', P s → step s = .next s' → P s')
    (hdone : ∀ s r, P s → step s = .done r → Q r) {n : Nat} {s : σ} {r : ρ} (hs : P s)
    (h : run step n s = some r) : Q r := by
  induction n generalizing s with
  | zero => simp [run] at h
  | succ n ih =>
      unfold run at h
      cases hstep : step s with
      | done r' =>
          rw [hstep] at h
          obtain rfl := Option.some.inj h
          exact hdone s r' hs hstep
      | next s' =>
          rw [hstep] at h
          exact ih (hnext s s' hs hstep) h

/-- An invariant holds after any number of rounds. -/
theorem iter_of_invariant {P : σ → Prop} (hnext : ∀ s s', P s → step s = .next s' → P s') {n : Nat}
    {s t : σ} (hs : P s) (h : iter step n s = some t) : P t := by
  induction n generalizing s with
  | zero =>
      obtain rfl : s = t := by simpa [iter] using h
      exact hs
  | succ n ih =>
      unfold iter at h
      cases hstep : step s with
      | done r => rw [hstep] at h; contradiction
      | next s' =>
          rw [hstep] at h
          exact ih (hnext s s' hs hstep) h

/-- Two loops whose rounds keep their states related, and are left together, lead
to related results. -/
theorem run_related {τ ρ' : Type*} (step' : τ → Step τ ρ') {R : σ → τ → Prop} {Q : ρ → ρ' → Prop}
    (hround : ∀ s t, R s t → (∃ s' t', step s = .next s' ∧ step' t = .next t' ∧ R s' t') ∨
      ∃ r r', step s = .done r ∧ step' t = .done r' ∧ Q r r') (n : Nat) {s : σ} {t : τ}
    (h : R s t) : Option.Rel Q (run step n s) (run step' n t) := by
  induction n generalizing s t with
  | zero => exact .none
  | succ n ih =>
      rw [run, run]
      obtain ⟨s', t', hs, ht, hR⟩ | ⟨r, r', hs, ht, hQ⟩ := hround s t h
      · rw [hs, ht]
        exact ih hR
      · rw [hs, ht]
        exact .some hQ

/-- A loop whose rounds are, under an invariant, those of another seen through
`f`, ends within a bound when the other does. -/
theorem run_eq_none_map {τ ρ' : Type*} {step' : τ → Step τ ρ'} {P : σ → Prop} (f : σ → τ)
    (hnext : ∀ s s', P s → step s = .next s' → P s' ∧ step' (f s) = .next (f s'))
    (hdone : ∀ s r, P s → step s = .done r → ∃ r', step' (f s) = .done r') (n : Nat) {s : σ}
    (hs : P s) : run step' n (f s) = none ↔ run step n s = none := by
  have hrel := run_related step step' (R := fun s t => P s ∧ f s = t)
    (Q := fun _ _ => True) (fun s t h => ?_) n ⟨hs, rfl⟩
  · generalize run step n s = x, run step' n (f s) = y at hrel
    cases hrel <;> simp
  · obtain ⟨hs, rfl⟩ := h
    cases hstep : step s with
    | next s' =>
        obtain ⟨hs', hstep'⟩ := hnext s s' hs hstep
        exact Or.inl ⟨s', f s', rfl, hstep', hs', rfl⟩
    | done r =>
        obtain ⟨r', hr'⟩ := hdone s r hs hstep
        exact Or.inr ⟨r, r', rfl, hr', trivial⟩

/-- Once back where it was, the loop goes round for ever. -/
theorem iter_of_cycle {s : σ} {k : Nat} (h : iter step k s = some s) (j : Nat) :
    iter step (j * k) s = some s := by
  induction j with
  | zero => simp [iter]
  | succ j ih => rw [Nat.succ_mul, iter_add, ih, Option.bind_some, h]

theorem not_ends_of_cycle {s : σ} {k : Nat} (hk : 0 < k) (h : iter step k s = some s) :
    ¬ Ends step s := by
  rintro ⟨n, hn⟩
  obtain ⟨r, hr⟩ := Option.isSome_iff_exists.mp hn
  have hle : n ≤ n * k := Nat.le_mul_of_pos_right n hk
  have hnone : run step (n * k) s = none := by
    rw [← isSome_iter_iff, iter_of_cycle step h]
    rfl
  rw [run_mono step hr hle] at hnone
  contradiction

/-- The loop ends from `s` exactly when it ends from where it is later. -/
theorem ends_iter_iff {s t : σ} {k : Nat} (h : iter step k s = some t) :
    Ends step s ↔ Ends step t := by
  induction k generalizing s with
  | zero =>
      have : s = t := by simpa [iter] using h
      rw [this]
  | succ k ih =>
      unfold iter at h
      cases hs : step s with
      | done r => rw [hs] at h; contradiction
      | next s' =>
          rw [hs] at h
          rw [← ih h]
          constructor
          · rintro ⟨n, hn⟩
            cases n with
            | zero => simp [run] at hn
            | succ n => exact ⟨n, by simpa [run, hs] using hn⟩
          · exact ends_of_next step hs

/-- A loop still running in states that inject into the numbers below `N`
after `N` iterations has been in one of them twice. -/
theorem exists_cycle {N : Nat} {I : σ → Prop} (f : σ → Nat) (hlt : ∀ s, I s → f s < N)
    (hf : ∀ s t, I s → I t → f s = f t → s = t) {s : σ}
    (hiter : ∀ i ≤ N, ∃ t, iter step i s = some t ∧ I t) :
    ∃ i k t, 0 < k ∧ i + k ≤ N ∧ iter step i s = some t ∧ iter step k t = some t := by
  have hiter' : ∀ i : Fin (N + 1), ∃ t, iter step i s = some t ∧ I t :=
    fun i => hiter i (Nat.lt_succ_iff.mp i.isLt)
  choose t ht hI using hiter'
  obtain ⟨i, j, hij, hfij⟩ := Fintype.exists_ne_map_eq_of_card_lt
    (fun i => (⟨f (t i), hlt _ (hI i)⟩ : Fin N)) (by simp)
  wlog hji : i < j generalizing i j with hwlog
  · exact hwlog j i (Ne.symm hij) hfij.symm (lt_of_le_of_ne (not_lt.mp hji) (Ne.symm hij))
  have htij : t i = t j := hf _ _ (hI i) (hI j) (Fin.mk.inj hfij)
  have hadd := iter_add step i.val (j.val - i.val) s
  rw [show i.val + (j.val - i.val) = j.val by omega, ht, ht, Option.bind_some, ← htij] at hadd
  exact ⟨i, j.val - i.val, t i, by omega, by omega, ht i, hadd.symm⟩

/-- A finite loop that does not end runs into a cycle. -/
theorem exists_cycle_of_not_ends {N : Nat} (f : σ → Fin N) (hf : Function.Injective f) {s : σ}
    (h : run step N s = none) :
    ∃ i k t, 0 < k ∧ i + k ≤ N ∧ iter step i s = some t ∧ iter step k t = some t := by
  refine exists_cycle step (I := fun _ => True) (fun s => (f s).val) (fun s _ => (f s).isLt)
    (fun s t _ _ h => hf (Fin.ext h)) fun i hi => ?_
  obtain ⟨t, ht⟩ : ∃ t, iter step i s = some t := by
    apply Option.isSome_iff_exists.mp
    rw [isSome_iter_iff]
    by_contra hne
    obtain ⟨r, hr⟩ := Option.ne_none_iff_exists'.mp hne
    rw [run_mono step hr hi] at h
    contradiction
  exact ⟨t, ht, trivial⟩

theorem not_ends_of_exists_cycle {s t : σ} {i k : Nat} (hk : 0 < k) (hi : iter step i s = some t)
    (hcycle : iter step k t = some t) : ¬ Ends step s := fun hends =>
  not_ends_of_cycle step hk hcycle ((ends_iter_iff step hi).mp hends)

/-- **Finite loops**: a loop whose states inject into `Fin N` ends if and only
if it ends within `N` iterations. -/
theorem ends_iff_run {N : Nat} (f : σ → Fin N) (hf : Function.Injective f) (s : σ) :
    Ends step s ↔ (run step N s).isSome := by
  refine ⟨fun hends => ?_, fun h => ⟨N, h⟩⟩
  by_contra hrun
  obtain ⟨i, k, t, hk, -, hi, hcycle⟩ := exists_cycle_of_not_ends step f hf (by simpa using hrun)
  exact not_ends_of_exists_cycle step hk hi hcycle hends

/-- The bound `N` loses nothing: not ending within it is not ending at all. -/
theorem run_eq_none_iff {N : Nat} (f : σ → Fin N) (hf : Function.Injective f) (s : σ) :
    run step N s = none ↔ ¬ Ends step s := by
  rw [ends_iff_run step f hf]
  simp

/-! ## where a loop gets -/

/-- One iteration leads from `s` to `t`. -/
def Next (s t : σ) : Prop := step s = .next t

/-- Iterations lead from `s` to `t`. -/
abbrev Reaches : σ → σ → Prop := Relation.ReflTransGen (Next step)

theorem iter_one {s t : σ} (h : Next step s t) : iter step 1 s = some t := by
  rw [iter, show step s = .next t from h]
  rfl

theorem reaches_iff {s t : σ} : Reaches step s t ↔ ∃ k, iter step k s = some t := by
  constructor
  · intro h
    induction h with
    | refl => exact ⟨0, rfl⟩
    | @tail t u _ hu ih =>
        obtain ⟨k, hk⟩ := ih
        exact ⟨k + 1, by rw [iter_add, hk, Option.bind_some, iter_one step hu]⟩
  · rintro ⟨k, hk⟩
    induction k generalizing s with
    | zero =>
        obtain rfl : s = t := by simpa [iter] using hk
        exact .refl
    | succ k ih =>
        unfold iter at hk
        cases hs : step s with
        | done r => rw [hs] at hk; contradiction
        | next s' =>
            rw [hs] at hk
            exact .head (show Next step s s' from hs) (ih hk)

theorem Reaches.ends {s t : σ} (h : Reaches step s t) : Ends step s ↔ Ends step t := by
  obtain ⟨k, hk⟩ := (reaches_iff step).mp h
  exact ends_iter_iff step hk

/-- A loop is left in one place only. -/
theorem Reaches.unique {s t u : σ} {r r' : ρ} (ht : Reaches step s t) (hu : Reaches step s u)
    (htr : step t = .done r) (hur : step u = .done r') : t = u := by
  have hstuck : ∀ a b x, step a = .done x → Reaches step a b → a = b := fun a b x ha hab => by
    rcases Relation.ReflTransGen.cases_head hab with rfl | ⟨c, hc, -⟩
    · rfl
    · rw [show step a = .next c from hc] at ha
      contradiction
  have huniq : Relator.RightUnique (Next step) := fun a b c hb hc => by
    have hbc : Step.next b = Step.next c := hb.symm.trans hc
    exact Step.next.inj hbc
  rcases Relation.ReflTransGen.total_of_right_unique huniq ht hu with h | h
  · exact hstuck t u r htr h
  · exact (hstuck u t r' hur h).symm

/-! ## loops with a test in front of the body -/

section Test

variable (enter : σ → Prop)

/-- The loop is left before the body was executed more than `n` times, when
`enter` is the test in front of it. -/
def LeavesWithin : Nat → σ → Prop
  | 0, s => ¬ enter s
  | n + 1, s => enter s → match step s with
      | .done _ => True
      | .next s' => LeavesWithin n s'

variable {enter}

theorem ends_of_leavesWithin (hleave : ∀ s, ¬ enter s → ∃ r, step s = .done r) {n : Nat} {s : σ}
    (h : LeavesWithin step enter n s) : Ends step s := by
  induction n generalizing s with
  | zero =>
      obtain ⟨r, hr⟩ := hleave s h
      exact ends_of_done step hr
  | succ n ih =>
      by_cases henter : enter s
      · have hbody := h henter
        cases hs : step s with
        | done r => exact ends_of_done step hs
        | next s' =>
            rw [hs] at hbody
            exact ends_of_next step hs (ih hbody)
      · obtain ⟨r, hr⟩ := hleave s henter
        exact ends_of_done step hr

/-- A loop that is not left within `n` executions is still entered after
each of them. -/
theorem iter_of_not_leavesWithin {n : Nat} {s : σ} (h : ¬ LeavesWithin step enter n s) :
    ∀ i ≤ n, ∃ t, iter step i s = some t ∧ enter t := by
  induction n generalizing s with
  | zero =>
      intro i hi
      obtain rfl : i = 0 := by omega
      exact ⟨s, rfl, not_not.mp h⟩
  | succ n ih =>
      obtain ⟨henter, hbody⟩ := Classical.not_imp.mp h
      cases hs : step s with
      | done r => rw [hs] at hbody; exact absurd trivial hbody
      | next s' =>
          rw [hs] at hbody
          intro i hi
          cases i with
          | zero => exact ⟨s, rfl, henter⟩
          | succ i =>
              obtain ⟨t, ht, het⟩ := ih hbody i (by omega)
              exact ⟨t, by rw [iter, hs]; exact ht, het⟩

/-- **Finite loops with a test**: with fewer than `N` states that the body is
entered in, a loop that ends is left within `N` executions of it. -/
theorem leavesWithin_iff_ends {N : Nat} (f : σ → Nat) (hlt : ∀ s, enter s → f s < N)
    (hf : ∀ s t, enter s → enter t → f s = f t → s = t)
    (hleave : ∀ s, ¬ enter s → ∃ r, step s = .done r) (s : σ) :
    LeavesWithin step enter N s ↔ Ends step s := by
  refine ⟨ends_of_leavesWithin step hleave, fun hends => ?_⟩
  by_contra h
  obtain ⟨i, k, t, hk, -, hi, hcycle⟩ :=
    exists_cycle step f hlt hf (iter_of_not_leavesWithin step h)
  exact not_ends_of_exists_cycle step hk hi hcycle hends

/-- A loop whose iterations are, under an invariant, those of another seen
through `f`, is left when the other is. -/
theorem leavesWithin_map {τ ρ' : Type*} {step' : τ → Step τ ρ'} {P : σ → Prop} (f : σ → τ)
    (enter' : τ → Prop)
    (hnext : ∀ s s', P s → step s = .next s' → P s' ∧ step' (f s) = .next (f s'))
    (hdone : ∀ s r, P s → step s = .done r → ∃ r', step' (f s) = .done r') (n : Nat) {s : σ}
    (hs : P s) : LeavesWithin step (fun s => enter' (f s)) n s ↔
      LeavesWithin step' enter' n (f s) := by
  induction n generalizing s with
  | zero => exact Iff.rfl
  | succ n ih =>
      refine imp_congr Iff.rfl ?_
      cases hstep : step s with
      | done r =>
          obtain ⟨r', hr'⟩ := hdone s r hs hstep
          simp [hr']
      | next s' =>
          obtain ⟨hs', hstep'⟩ := hnext s s' hs hstep
          simpa [hstep'] using ih hs'

end Test

end Loop
