import Mathlib.Tactic

/-!
Intervals of natural numbers. Blocks of one size that do not meet and lie below a
bound are few: this is how the number of objects in memory is bounded by the
address space.
-/
namespace GridOS.Intervals

/-- The blocks of `size` at two starting points do not meet. -/
def Apart (size a b : Nat) : Prop := a + size ≤ b ∨ b + size ≤ a

instance (size : Nat) : Std.Symm (Apart size) where
  symm _ _ := Or.symm

/-- Blocks that do not meet and end below `bound` fill no more than it. -/
theorem length_mul_le {size bound : Nat} {starts : List Nat} (apart : starts.Pairwise (Apart size))
    (inside : ∀ a ∈ starts, a + size ≤ bound) : starts.length * size ≤ bound := by
  rcases Nat.eq_zero_or_pos size with rfl | positive
  · simp
  · have distinct : starts.Nodup := by
      refine apart.imp ?_
      intro a b separate same
      subst same
      unfold Apart at separate
      omega
    have disjoint : (starts.toFinset : Set Nat).PairwiseDisjoint (fun a => Finset.Ico a (a + size)) := by
      intro a inA b inB differ
      rw [Function.onFun,Finset.disjoint_left]
      intro i
      have separate := apart.forall (List.mem_toFinset.mp inA) (List.mem_toFinset.mp inB) differ
      unfold Apart at separate
      rw [Finset.mem_Ico,Finset.mem_Ico]
      omega
    calc starts.length * size = starts.toFinset.card * size := by rw [List.toFinset_card_of_nodup distinct]
      _ = ∑ a ∈ starts.toFinset, (Finset.Ico a (a + size)).card := by simp
      _ = (starts.toFinset.biUnion (fun a => Finset.Ico a (a + size))).card := (Finset.card_biUnion disjoint).symm
      _ ≤ (Finset.range bound).card := by
        refine Finset.card_le_card ?_
        intro i member
        obtain ⟨a,inA,inI⟩ := Finset.mem_biUnion.mp member
        have := inside a (List.mem_toFinset.mp inA)
        rw [Finset.mem_Ico] at inI
        rw [Finset.mem_range]
        omega
      _ = bound := Finset.card_range bound

end GridOS.Intervals
