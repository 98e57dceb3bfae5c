import Mathlib

/-!
# TTcp.Lib.Ledger

Things that are free or held: a step moves some of them between the two, and may lose some.

`Moves lost free held free' held'` says where they all went.  Such steps compose, they leave what
anyone else holds out of account (`Moves.frame`, `Moves.flatMap`), and while each thing is in one
place before, it is in one place at most after (`Moves.nodup`).
-/

namespace Ledger

variable {α ι : Type*}

/-- What was free or held is free, held or lost. -/
def Moves (lost free held free' held' : List α) : Prop :=
  (lost ++ (free' ++ held')).Perm (free ++ held)

section
variable {lost lost' free held free' held' free'' held'' : List α}

/-- What is held changes its order at most. -/
theorem Moves.of_perm (free : List α) (h : held'.Perm held) : Moves [] free held free held' :=
  h.append_left free

theorem Moves.refl (free held : List α) : Moves [] free held free held :=
  .of_perm free (.refl held)

theorem Moves.trans (h : Moves lost free held free' held')
    (h' : Moves lost' free' held' free'' held'') :
    Moves (lost ++ lost') free held free'' held'' := by
  have hsecond : (lost ++ (lost' ++ (free'' ++ held''))).Perm (lost ++ (free' ++ held')) :=
    List.Perm.append_left lost h'
  rw [Moves, List.append_assoc]
  exact hsecond.trans h

/-- New things are held, between the others. -/
theorem Moves.insert {new : List α} (h : (lost ++ (free' ++ new)).Perm free) (l r : List α) :
    Moves lost free (l ++ r) free' (l ++ new ++ r) := by
  have hfront : (l ++ new ++ r).Perm (new ++ (l ++ r)) := by
    rw [← List.append_assoc]
    exact List.perm_append_comm.append_right r
  have hall : (lost ++ (free' ++ (new ++ (l ++ r)))).Perm (free ++ (l ++ r)) := by
    rw [← List.append_assoc free', ← List.append_assoc lost]
    exact h.append_right _
  exact ((hfront.append_left free').append_left lost).trans hall

/-- What somebody else holds does not matter. -/
theorem Moves.frame (h : Moves lost free held free' held') (l : List α) :
    Moves lost free (held ++ l) free' (held' ++ l) := by
  rw [Moves, ← List.append_assoc free', ← List.append_assoc free, ← List.append_assoc lost]
  exact List.Perm.append_right l h

/-- Something held becomes free. -/
theorem Moves.release (a : α) (free held : List α) :
    Moves [] free (a :: held) (a :: free) held :=
  List.perm_middle.symm

/-- Something held is lost. -/
theorem Moves.lose (a : α) (free held : List α) : Moves [a] free (a :: held) free held := by
  rw [Moves, List.singleton_append]
  exact List.perm_middle.symm

/-- Nothing gets into two places. -/
theorem Moves.nodup (h : Moves lost free held free' held') (hn : (free ++ held).Nodup) :
    (free' ++ held').Nodup :=
  (List.nodup_append.mp ((List.Perm.nodup_iff h).mpr hn)).2.1

/-- Nothing comes from outside. -/
theorem Moves.subset (h : Moves lost free held free' held') : free' ++ held' ⊆ free ++ held :=
  fun _ ha => List.Perm.subset h (List.mem_append_right lost ha)

/-- When nothing is lost, the number of things stays. -/
theorem Moves.length (h : Moves [] free held free' held') :
    free'.length + held'.length = free.length + held.length := by
  simpa using List.Perm.length_eq h

end

/-- **The frame rule**: what one of the holders does, all of them together do. -/
theorem Moves.flatMap [DecidableEq ι] {lost free free' : List α} {hold hold' : ι → List α}
    {l : List ι} {i : ι} (hl : l.Nodup) (hi : i ∈ l) (hother : ∀ j, j ≠ i → hold' j = hold j)
    (h : Moves lost free (hold i) free' (hold' i)) :
    Moves lost free (l.flatMap hold) free' (l.flatMap hold') := by
  have hsplit : ∀ f : ι → List α, (l.flatMap f).Perm (f i ++ (l.erase i).flatMap f) := fun f =>
    (List.perm_cons_erase hi).flatMap_right f
  have hrest : (l.erase i).flatMap hold' = (l.erase i).flatMap hold :=
    List.flatMap_congr fun j hj => hother j (hl.mem_erase_iff.mp hj).1
  have hone : (lost ++ (free' ++ (hold' i ++ (l.erase i).flatMap hold))).Perm
      (free ++ (hold i ++ (l.erase i).flatMap hold)) := h.frame _
  have hback := hsplit hold'
  rw [hrest] at hback
  exact ((hback.append_left free').append_left lost).trans
    (hone.trans ((hsplit hold).symm.append_left free))

end Ledger
