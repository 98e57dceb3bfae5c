import TTcp.Lib.Run

/-!
# TTcp.Lib.Network

Nodes that send each other messages, over a network that delivers them to anyone, in any order,
any number of times or not at all.

An action of a node may take a message in, and any message will do that was sent before.  What
every action of a node keeps, of the node and of the messages, holds in every run of the network
(`inv_of_along`).
-/

namespace Network

variable {ι σ α μ : Type*}

/-- What the nodes do: the state after an action and what it sends, and the message that an
action takes in, if any. -/
structure Nodes (ι σ α μ : Type*) where
  act : ι → σ → α → σ × List μ
  takes : α → Option μ

/-- The nodes, and every message sent so far. -/
structure State (ι σ μ : Type*) where
  node : ι → σ
  sent : List μ

/-- Every node satisfies `I`, and every message `M`. -/
structure Inv (I : ι → σ → Prop) (M : μ → Prop) (s : State ι σ μ) : Prop where
  node : ∀ i, I i (s.node i)
  sent : ∀ m ∈ s.sent, M m

variable [DecidableEq ι] (nodes : Nodes ι σ α μ)

/-- An action of one of the nodes. -/
def step (s : State ι σ μ) (a : ι × α) : State ι σ μ :=
  let (q, out) := nodes.act a.1 (s.node a.1) a.2
  { node := Function.update s.node a.1 q, sent := s.sent ++ out }

/-- The action is allowed in the state its node is in, and what it takes in was sent before. -/
def Legal (ok : ι → σ → α → Prop) (s : State ι σ μ) (a : ι × α) : Prop :=
  ok a.1 (s.node a.1) a.2 ∧ ∀ m ∈ nodes.takes a.2, m ∈ s.sent

variable {nodes} {ok : ι → σ → α → Prop} {I : ι → σ → Prop} {M : μ → Prop}

theorem Inv.step {s : State ι σ μ} {a : ι × α} (h : Inv I M s) (hl : Legal nodes ok s a)
    (hact : ∀ i q a, I i q → ok i q a → (∀ m ∈ nodes.takes a, M m) →
      I i (nodes.act i q a).1 ∧ ∀ m ∈ (nodes.act i q a).2, M m) :
    Inv I M (Network.step nodes s a) := by
  obtain ⟨i, a⟩ := a
  obtain ⟨hnode, hsent⟩ := hact i _ a (h.node i) hl.1 fun m hm => h.sent m (hl.2 m hm)
  refine ⟨fun j => ?_, fun m hm => ?_⟩
  · by_cases hij : j = i
    · subst hij
      simpa [Network.step] using hnode
    · simpa [Network.step, hij] using h.node j
  · rcases List.mem_append.mp hm with hm | hm
    · exact h.sent m hm
    · exact hsent m hm

/-- **Invariants of a network**: what no action of a node breaks, of the node it is an action of
and of the messages under way, nothing breaks. -/
theorem inv_of_along {s : State ι σ μ} {as : List (ι × α)} (h : Inv I M s)
    (hl : Run.Along (step nodes) (Legal nodes ok) s as)
    (hact : ∀ i q a, I i q → ok i q a → (∀ m ∈ nodes.takes a, M m) →
      I i (nodes.act i q a).1 ∧ ∀ m ∈ (nodes.act i q a).2, M m) :
    Inv I M (Run.final (step nodes) s as) :=
  Run.final_of_along (fun _ _ hs ha => hs.step ha hact) h hl

/-- Every message sent in a run was sent by one of its actions, in the state that its node was in
then. -/
theorem exists_sender {s : State ι σ μ} {as : List (ι × α)} {m : μ}
    (hm : m ∈ (Run.final (step nodes) s as).sent) : m ∈ s.sent ∨
      ∃ as₁ i a as₂, as = as₁ ++ (i, a) :: as₂ ∧
        m ∈ (nodes.act i ((Run.final (step nodes) s as₁).node i) a).2 := by
  induction as using List.reverseRecOn with
  | nil => exact Or.inl hm
  | append_singleton as a ih =>
      rw [Run.final_append, Run.final_cons, Run.final_nil] at hm
      obtain hm | hm := List.mem_append.mp hm
      · refine (ih hm).imp_right ?_
        rintro ⟨as₁, i, b, as₂, rfl, hsent⟩
        exact ⟨as₁, i, b, as₂ ++ [a], by simp, hsent⟩
      · exact Or.inr ⟨as, a.1, a.2, [], rfl, hm⟩

end Network
