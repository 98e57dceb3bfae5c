import TTcp.Lib.Loop

/-!
# TTcp.Lib.PtrList

Singly linked lists in memory: a link function `next : α → Option α` (each
node's successor, `none` for a null pointer) and a head pointer.

`IsList next head l` says that following the links from `head` visits exactly
the nodes of `l` and then reaches a null pointer.  It fails for every `l` when
the links run in a circle, so `∃ l, IsList next head l` is "the list is
acyclic", and the nodes of such an `l` are distinct (`IsList.nodup`).

The updates treated here are pushing a node on the front, which keeps the list
a list exactly when the node is not yet on it (`exists_isList_push_iff`),
moving a node to the front (`IsList.moveToFront`), and the pass that takes one
node out (`IsList.run_unlinkRound`).  With distinct keys, the node that a
search finds does not depend on the order (`find?_key_perm`).  The loops that walk a list (`findRound`,
`walkRound`, `unlinkRound`) are loops in the sense of `TTcp.Lib.Loop`.
-/

namespace PtrList

variable {α : Type*}

/-- The nodes met from `p` on are `l`, and then the list ends. -/
def IsList (next : α → Option α) : Option α → List α → Prop
  | p, [] => p = none
  | p, a :: l => p = some a ∧ IsList next (next a) l

/-- The node is met when following the links from `p`. -/
inductive Reaches (next : α → Option α) : Option α → α → Prop where
  | head (a : α) : Reaches next (some a) a
  | link {a b : α} : Reaches next (next a) b → Reaches next (some a) b

@[simp] theorem isList_nil {next : α → Option α} {p : Option α} : IsList next p [] ↔ p = none :=
  Iff.rfl

@[simp] theorem isList_cons {next : α → Option α} {p : Option α} {a : α} {l : List α} :
    IsList next p (a :: l) ↔ p = some a ∧ IsList next (next a) l := Iff.rfl

/-! ## a list is determined by its head -/

theorem IsList.unique {next : α → Option α} {p : Option α} {l l' : List α}
    (h : IsList next p l) (h' : IsList next p l') : l = l' := by
  induction l generalizing p l' with
  | nil =>
      cases l' with
      | nil => rfl
      | cons b l' => simp_all
  | cons a l ih =>
      cases l' with
      | nil => simp_all
      | cons b l' =>
          obtain ⟨rfl, hl⟩ := h
          obtain ⟨hab, hl'⟩ := h'
          obtain rfl := Option.some.inj hab
          rw [ih hl hl']

/-- From any node of the list, the rest of it is a list again. -/
theorem IsList.of_append {next : α → Option α} {p : Option α} {xs ys : List α} {a : α}
    (h : IsList next p (xs ++ a :: ys)) : IsList next (next a) ys := by
  induction xs generalizing p with
  | nil => exact h.2
  | cons x xs ih => exact ih h.2

/-- What a node of the list is linked to is in the list. -/
theorem IsList.mem_next {next : α → Option α} {p : Option α} {l : List α} {a b : α}
    (h : IsList next p l) (ha : a ∈ l) (hab : next a = some b) : b ∈ l := by
  induction l generalizing p with
  | nil => cases ha
  | cons c l ih =>
      obtain ⟨-, hl⟩ := h
      rcases List.mem_cons.mp ha with rfl | ha
      · rw [hab] at hl
        cases l with
        | nil => cases hl
        | cons d l =>
            obtain rfl := Option.some.inj hl.1
            exact List.mem_cons_of_mem _ List.mem_cons_self
      · exact List.mem_cons_of_mem _ (ih hl ha)

/-- The head of a list is in it. -/
theorem IsList.mem_head {next : α → Option α} {p : Option α} {l : List α} {a : α}
    (h : IsList next p l) (ha : p = some a) (hne : l ≠ []) : a ∈ l := by
  cases l with
  | nil => exact absurd rfl hne
  | cons b l =>
      obtain rfl := Option.some.inj (ha.symm.trans h.1)
      exact List.mem_cons_self

/-- No node is met twice: the rest after the two visits would be two lists
with one head. -/
theorem IsList.nodup {next : α → Option α} {p : Option α} {l : List α}
    (h : IsList next p l) : l.Nodup := by
  induction l generalizing p with
  | nil => exact List.nodup_nil
  | cons a l ih =>
      refine List.nodup_cons.mpr ⟨fun hmem => ?_, ih h.2⟩
      obtain ⟨xs, ys, rfl⟩ := List.append_of_mem hmem
      have hys : IsList next (next a) ys := h.2.of_append
      have hlen := congrArg List.length (h.2.unique hys)
      simp at hlen
      omega

theorem IsList.reaches_iff {next : α → Option α} {p : Option α} {l : List α} {a : α}
    (h : IsList next p l) : Reaches next p a ↔ a ∈ l := by
  induction l generalizing p with
  | nil =>
      obtain rfl := h
      exact ⟨fun hr => (nomatch hr), fun hm => (List.not_mem_nil hm).elim⟩
  | cons b l ih =>
      obtain ⟨rfl, hl⟩ := h
      rw [List.mem_cons, ← ih hl]
      constructor
      · intro hr
        cases hr with
        | head => exact Or.inl rfl
        | link hr => exact Or.inr hr
      · rintro (rfl | hr)
        · exact .head a
        · exact .link hr

/-! ## changing links -/

/-- Links of nodes off the list do not matter. -/
theorem IsList.congr {next next' : α → Option α} {p : Option α} {l : List α}
    (h : IsList next p l) (hn : ∀ a ∈ l, next' a = next a) : IsList next' p l := by
  induction l generalizing p with
  | nil => exact h
  | cons a l ih =>
      refine ⟨h.1, ?_⟩
      rw [hn a List.mem_cons_self]
      exact ih h.2 fun b hb => hn b (List.mem_cons_of_mem a hb)

/-- Nor do links of nodes that are out of reach. -/
theorem IsList.congr_of_closed {next next' : α → Option α} {p : Option α} {l : List α}
    {S : α → Prop} (h : IsList next' p l) (hp : ∀ a ∈ p, S a)
    (hS : ∀ a, S a → ∀ b ∈ next a, S b) (hn : ∀ a, S a → next' a = next a) :
    IsList next p l := by
  induction l generalizing p with
  | nil => exact h
  | cons a l ih =>
      obtain ⟨rfl, hl⟩ := h
      have ha := hp a rfl
      rw [hn a ha] at hl
      exact ⟨rfl, ih hl (hS a ha)⟩

variable [DecidableEq α]

theorem IsList.update {next : α → Option α} {p q : Option α} {l : List α} {a : α}
    (h : IsList next p l) (ha : a ∉ l) : IsList (Function.update next a q) p l :=
  h.congr fun b hb => Function.update_of_ne (fun hba : b = a => ha (hba ▸ hb)) _ _

/-- Pushing a node that is not on the list. -/
theorem IsList.push {next : α → Option α} {p : Option α} {l : List α} {a : α}
    (h : IsList next p l) (ha : a ∉ l) :
    IsList (Function.update next a p) (some a) (a :: l) := by
  refine ⟨rfl, ?_⟩
  rw [Function.update_self]
  exact h.update ha

/-- Redirecting the link of a node leaves the way to it open. -/
theorem IsList.reaches_update {next : α → Option α} {p q : Option α} {xs ys : List α} {a : α}
    (h : IsList next p (xs ++ a :: ys)) (ha : a ∉ xs) :
    Reaches (Function.update next a q) p a := by
  induction xs generalizing p with
  | nil =>
      obtain ⟨rfl, _⟩ := h
      exact .head a
  | cons x xs ih =>
      obtain ⟨rfl, hl⟩ := h
      obtain ⟨hax, hmem⟩ := not_or.mp (List.mem_cons.not.mp ha)
      refine .link ?_
      rw [Function.update_of_ne (Ne.symm hax)]
      exact ih hl hmem

/-- After pushing a node already on the list, the links run in a circle. -/
theorem IsList.not_isList_push {next : α → Option α} {p : Option α} {l l' : List α} {a : α}
    (h : IsList next p l) (ha : a ∈ l) : ¬ IsList (Function.update next a p) (some a) l' := by
  obtain ⟨xs, ys, rfl⟩ := List.append_of_mem ha
  have hxs : a ∉ xs := fun hmem =>
    (List.nodup_append.mp h.nodup).2.2 a hmem a List.mem_cons_self rfl
  have hback : Reaches (Function.update next a p) p a := h.reaches_update hxs
  intro h'
  cases l' with
  | nil => simp at h'
  | cons b l' =>
      obtain ⟨hab, hl⟩ := h'
      obtain rfl := Option.some.inj hab
      have hnd : (a :: l').Nodup := IsList.nodup (p := some a) ⟨rfl, hl⟩
      rw [Function.update_self] at hl
      exact (List.nodup_cons.mp hnd).1 (hl.reaches_iff.mp hback)

/-- Pushing a node keeps a list a list exactly when the node is not on it. -/
theorem IsList.exists_isList_push_iff {next : α → Option α} {p : Option α} {l : List α} {a : α}
    (h : IsList next p l) :
    (∃ l', IsList (Function.update next a p) (some a) l') ↔ a ∉ l :=
  ⟨fun ⟨_, hl'⟩ ha => h.not_isList_push ha hl', fun ha => ⟨a :: l, h.push ha⟩⟩

/-- Unlinking the node after `b`. -/
theorem IsList.unlink {next : α → Option α} {p : Option α} {xs ys : List α} {a b : α}
    (h : IsList next p (xs ++ b :: a :: ys)) :
    IsList (Function.update next b (next a)) p (xs ++ b :: ys) := by
  have hnd := h.nodup
  induction xs generalizing p with
  | nil =>
      obtain ⟨rfl, _, hys⟩ := h
      refine ⟨rfl, ?_⟩
      rw [Function.update_self]
      exact hys.update fun hb => (List.nodup_cons.mp hnd).1 (List.mem_cons_of_mem a hb)
  | cons x xs ih =>
      obtain ⟨rfl, hl⟩ := h
      refine ⟨rfl, ?_⟩
      have hxb : x ≠ b := by
        rintro rfl
        exact (List.nodup_cons.mp hnd).1 (by simp)
      rw [Function.update_of_ne hxb]
      exact ih hl (List.nodup_cons.mp hnd).2

omit [DecidableEq α] in
theorem perm_moveToFront (xs ys : List α) (a b : α) :
    (xs ++ b :: a :: ys).Perm (a :: (xs ++ b :: ys)) := by
  rw [List.append_cons, List.append_cons xs b ys]
  exact List.perm_middle

/-- Moving the node after `b` to the front: unlink it, then push it. -/
theorem IsList.moveToFront {next : α → Option α} {p : Option α} {xs ys : List α} {a b : α}
    (h : IsList next p (xs ++ b :: a :: ys)) :
    IsList (Function.update (Function.update next b (next a)) a p) (some a)
      (a :: (xs ++ b :: ys)) := by
  refine h.unlink.push ?_
  exact (List.nodup_cons.mp ((perm_moveToFront xs ys a b).nodup_iff.mp h.nodup)).1

/-! ## walking a list -/

omit [DecidableEq α] in
/-- `follow next n p` are the first `n` nodes met from `p` on. -/
def follow (next : α → Option α) : Nat → Option α → List α
  | 0, _ => []
  | _ + 1, none => []
  | n + 1, some a => a :: follow next n (next a)

omit [DecidableEq α] in
theorem IsList.follow {next : α → Option α} {p : Option α} {l : List α} (h : IsList next p l)
    {n : Nat} (hn : l.length ≤ n) : follow next n p = l := by
  induction l generalizing p n with
  | nil =>
      obtain rfl := h
      cases n <;> rfl
  | cons a l ih =>
      obtain ⟨rfl, hl⟩ := h
      obtain ⟨n, rfl⟩ : ∃ m, n = m + 1 := ⟨n - 1, by simp at hn; omega⟩
      rw [PtrList.follow, ih hl (by simpa using hn)]

/-- One round of looking for a node that passes `test`. -/
def findRound (next : α → Option α) (test : α → Bool) : Option α → Loop.Step (Option α) (Option α)
  | none => .done none
  | some a => if test a then .done (some a) else .next (next a)

omit [DecidableEq α] in
/-- The search finds the first node of the list that passes. -/
theorem IsList.run_findRound {next : α → Option α} {p : Option α} {l : List α}
    (h : IsList next p l) (test : α → Bool) {n : Nat} (hn : l.length < n) :
    Loop.run (findRound next test) n p = some (l.find? test) := by
  induction l generalizing p n with
  | nil =>
      obtain rfl := h
      obtain ⟨n, rfl⟩ : ∃ m, n = m + 1 := ⟨n - 1, by simp at hn; omega⟩
      rfl
  | cons a l ih =>
      obtain ⟨rfl, hl⟩ := h
      obtain ⟨n, rfl⟩ : ∃ m, n = m + 1 := ⟨n - 1, by omega⟩
      rw [Loop.run, findRound, List.find?_cons]
      cases test a with
      | true => rfl
      | false => exact ih hl (by simpa using hn)

/-- One round of the pass that takes `a` out: redirect every link to `a`. -/
def unlinkRound (a : α) : (α → Option α) × Option α →
    Loop.Step ((α → Option α) × Option α) (α → Option α)
  | (next, none) => .done next
  | (next, some b) =>
      let next := if next b = some a then Function.update next b (next a) else next
      .next (next, next b)

theorem IsList.run_unlinkRound_of_not_mem {next : α → Option α} {p : Option α} {l : List α} {a : α}
    (h : IsList next p l) (ha : a ∉ l) {n : Nat} (hn : l.length < n) :
    Loop.run (unlinkRound a) n (next, p) = some next := by
  induction l generalizing p n with
  | nil =>
      obtain rfl := h
      obtain ⟨n, rfl⟩ : ∃ m, n = m + 1 := ⟨n - 1, by simp at hn; omega⟩
      rfl
  | cons b l ih =>
      obtain ⟨rfl, hl⟩ := h
      obtain ⟨n, rfl⟩ : ∃ m, n = m + 1 := ⟨n - 1, by omega⟩
      have hmem : a ∉ l := fun hm => ha (List.mem_cons_of_mem b hm)
      have hb : next b ≠ some a := by
        intro hba
        rw [hba] at hl
        cases l with
        | nil => simp at hl
        | cons c l => exact hmem (by simp [Option.some.inj hl.1])
      rw [Loop.run, unlinkRound]
      simp only [if_neg hb]
      exact ih hl hmem (by simpa using hn)

/-- **Unlinking**: the pass ends, and takes exactly its node out of the list. -/
theorem IsList.run_unlinkRound {next : α → Option α} {p : Option α} {l : List α} {a : α}
    (h : IsList next p l) (hp : p ≠ some a) {n : Nat} (hn : l.length < n) :
    ∃ next', Loop.run (unlinkRound a) n (next, p) = some next' ∧ IsList next' p (l.erase a) ∧
      ∀ b, b ∉ l → next' b = next b := by
  have hnd := h.nodup
  induction l generalizing p n with
  | nil =>
      obtain rfl := h
      obtain ⟨n, rfl⟩ : ∃ m, n = m + 1 := ⟨n - 1, by simp at hn; omega⟩
      exact ⟨next, rfl, rfl, fun _ _ => rfl⟩
  | cons b l ih =>
      obtain ⟨rfl, hl⟩ := h
      obtain ⟨n, rfl⟩ : ∃ m, n = m + 1 := ⟨n - 1, by omega⟩
      have hba : b ≠ a := fun h => hp (by rw [h])
      have hnd' := List.nodup_cons.mp hnd
      rw [List.erase_cons_tail (by simpa using hba), Loop.run, unlinkRound]
      by_cases hnext : next b = some a
      · -- `a` is the next node: its successors are walked with the link already redirected
        rw [hnext] at hl
        cases l with
        | nil => simp at hl
        | cons c l =>
            obtain ⟨hca, hl⟩ := hl
            obtain rfl := Option.some.inj hca
            have hac := List.nodup_cons.mp hnd'.2
            have hbl : b ∉ l := fun hm => hnd'.1 (List.mem_cons_of_mem _ hm)
            simp only [if_pos hnext, Function.update_self, List.erase_cons_head]
            refine ⟨_, (hl.update hbl).run_unlinkRound_of_not_mem hac.1 (by simp at hn; omega),
              ⟨rfl, ?_⟩, fun x hx => ?_⟩
            · rw [Function.update_self]
              exact hl.update hbl
            · exact Function.update_of_ne (fun hxb => hx (by simp [hxb])) _ _
      · simp only [if_neg hnext]
        obtain ⟨next', hrun, hlist, hsame⟩ := ih hl hnext (by simpa using hn) hnd'.2
        refine ⟨next', hrun, ⟨rfl, ?_⟩, fun x hx => hsame x fun hm => hx (by simp [hm])⟩
        rw [hsame b hnd'.1]
        exact hlist

/-! ## looking up a key -/

section
variable {β : Type*} [DecidableEq β] (key : α → β) {l l' : List α}

omit [DecidableEq α] in
/-- With distinct keys, what is found is the node with the key, wherever it
stands. -/
theorem find?_key_iff (hnd : (l.map key).Nodup) {k : β} {a : α} :
    (l.find? fun b => decide (key b = k)) = some a ↔ a ∈ l ∧ key a = k := by
  constructor
  · intro hfind
    exact ⟨List.mem_of_find?_eq_some hfind, by simpa using List.find?_some hfind⟩
  · rintro ⟨ha, hk⟩
    cases hfind : l.find? fun b => decide (key b = k) with
    | none => exact absurd hk (by simpa using List.find?_eq_none.mp hfind a ha)
    | some b =>
        have hb : key b = k := by simpa using List.find?_some hfind
        rw [List.inj_on_of_nodup_map hnd (List.mem_of_find?_eq_some hfind) ha (hb.trans hk.symm)]

end

/-- The nodes after one of them was moved to the front, or none. -/
def touch (l : List α) : Option α → List α
  | none => l
  | some a => a :: l.erase a

theorem perm_touch {l : List α} {o : Option α} (ho : ∀ a ∈ o, a ∈ l) : (touch l o).Perm l := by
  cases o with
  | none => exact .refl l
  | some a => exact (List.perm_cons_erase (ho a rfl)).symm

end PtrList
