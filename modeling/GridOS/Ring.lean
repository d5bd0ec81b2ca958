import Mathlib.Data.List.Basic
import Mathlib.Algebra.BigOperators.Group.List.Basic
import Mathlib.Data.Nat.ModEq
import Mathlib.Logic.Function.Basic

/-!
Cells in a circle. Positions are counted on without end and fall on one of `M`
cells; a stretch of at most `M` positions meets every cell once at most.
-/
namespace GridOS.Ring

theorem window_injective {M : Nat} (base : Nat) {x y : Nat} (low_x : base ≤ x) (high_x : x < base + M) (low_y : base ≤ y)
    (high_y : y < base + M) (same : x % M = y % M) : x = y := by
  have congruent : Nat.ModEq M x y := same
  rcases Nat.le_total x y with order | order
  · obtain ⟨k,hk⟩ := (Nat.modEq_iff_dvd' order).1 congruent
    rcases Nat.eq_zero_or_pos k with rfl | positive
    · simp only [Nat.mul_zero] at hk
      omega
    · have := Nat.le_mul_of_pos_right M positive
      omega
  · obtain ⟨k,hk⟩ := (Nat.modEq_iff_dvd' order).1 congruent.symm
    rcases Nat.eq_zero_or_pos k with rfl | positive
    · simp only [Nat.mul_zero] at hk
      omega
    · have := Nat.le_mul_of_pos_right M positive
      omega

theorem succ_mod {M : Nat} (cells : 0 < M) (x : Nat) :
    (if M ≤ x % M + 1 then 0 else x % M + 1) = (x + 1) % M := by
  have below := Nat.mod_lt x cells
  by_cases last : M ≤ x % M + 1
  · have whole : x % M + 1 = M := by omega
    rw [if_pos last,← Nat.mod_add_mod,whole,Nat.mod_self]
  · rw [if_neg last,← Nat.mod_add_mod,Nat.mod_eq_of_lt (show x % M + 1 < M by omega)]

theorem add_mod_succ (M a j : Nat) : (a + 1 + j) % M = (a + (j + 1)) % M := by
  rw [show a + 1 + j = a + (j + 1) by omega]

section Sweep
variable {α : Type} (next : Nat → Nat) (change : Nat → α → α)

/-- A loop that changes `n` cells in a row, the `i`th of its caller first, and
    where it stops. -/
def sweep : Nat → Nat → Nat → (Nat → α) → (Nat → α) × Nat
  | 0, _, cur, cells => (cells,cur)
  | n+1, i, cur, cells => sweep n (i + 1) (next cur) (Function.update cells cur (change i (cells cur)))

variable {next change} {M : Nat} (round : ∀ x, next (x % M) = (x + 1) % M)
include round

theorem iterate_next (a j : Nat) : next^[j] (a % M) = (a + j) % M := by
  induction j generalizing a with
  | zero => rfl
  | succ j ih =>
    rw [Function.iterate_succ_apply,round,ih,add_mod_succ]

theorem sweep_end (n i a : Nat) (cells : Nat → α) : (sweep next change n i (a % M) cells).2 = (a + n) % M := by
  induction n generalizing i a cells with
  | zero => rfl
  | succ n ih =>
    rw [sweep,round,ih,add_mod_succ]

theorem sweep_outside {n i a : Nat} {cells : Nat → α} {k : Nat} (away : ∀ j < n, (a + j) % M ≠ k) :
    (sweep next change n i (a % M) cells).1 k = cells k := by
  induction n generalizing i a cells with
  | zero => rfl
  | succ n ih =>
    rw [sweep,round,ih,Function.update_of_ne]
    · exact fun same => away 0 (by omega) (by simpa using same.symm)
    · intro j hj
      rw [add_mod_succ]
      exact away (j + 1) (by omega)

theorem sweep_inside {n i a j : Nat} {cells : Nat → α} (fits : n ≤ M) (hj : j < n) :
    (sweep next change n i (a % M) cells).1 ((a + j) % M) = change (i + j) (cells ((a + j) % M)) := by
  induction n generalizing i a j cells with
  | zero => omega
  | succ n ih =>
    rw [sweep,round]
    rcases j with _ | j
    · rw [sweep_outside round,Nat.add_zero,Function.update_self,Nat.add_zero]
      intro k hk same
      have := window_injective a (by omega) (by omega) (by omega) (by omega) same
      omega
    · rw [show a + (j + 1) = a + 1 + j by omega,ih (by omega) (by omega),Function.update_of_ne]
      · rw [show i + 1 + j = i + (j + 1) by omega]
      · intro same
        have := window_injective a (by omega) (by omega) (by omega) (by omega) same
        omega

end Sweep

section Blocks
variable {α : Type} (size : α → Nat)

/-- Where the `n`th of the blocks `l`, laid one behind the other from 0 on, begins. -/
def startOf (l : List α) (n : Nat) : Nat := ((l.take n).map size).sum

variable {size} {l : List α}

theorem startOf_succ {n : Nat} {x : α} (at_n : l[n]? = some x) : startOf size l (n + 1) = startOf size l n + size x := by
  rw [startOf,startOf,List.take_add_one,at_n]
  simp

theorem startOf_append {n : Nat} (more : List α) (within : n ≤ l.length) :
    startOf size (l ++ more) n = startOf size l n := by
  rw [startOf,startOf,List.take_append_of_le_length within]

theorem startOf_append_end (x : α) :
    startOf size (l ++ [x]) (l.length + 1) = startOf size l l.length + size x := by
  have at_end : (l ++ [x])[l.length]? = some x := by simp
  rw [startOf_succ at_end,startOf_append [x] (Nat.le_refl _)]

theorem startOf_le {n m : Nat} (order : n ≤ m) : startOf size l n ≤ startOf size l m := by
  induction m, order using Nat.le_induction with
  | base => exact Nat.le_refl _
  | succ m _ ih =>
    rcases at_m : l[m]? with _ | x
    · rw [List.getElem?_eq_none_iff] at at_m
      rw [startOf,startOf,List.take_of_length_le (show l.length ≤ m + 1 by omega)]
      rwa [startOf,startOf,List.take_of_length_le at_m] at ih
    · rw [startOf_succ at_m]
      omega

theorem startOf_lt {n m : Nat} {x : α} (at_n : l[n]? = some x) (order : n < m) :
    startOf size l n + size x ≤ startOf size l m := by
  rw [← startOf_succ at_n]
  exact startOf_le order

end Blocks
end GridOS.Ring
