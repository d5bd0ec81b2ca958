import Mathlib.Tactic

/-!
Unsigned machine arithmetic on the 32-bit targets. A word is a natural number
below `modulus`; `add` and `sub` wrap as C's unsigned operators do. The lemmas
give the exact value whenever nothing wraps.
-/
namespace GridOS.Words

/-- The number of values of an `unsigned long`. -/
def modulus : Nat := 4294967296

def add (a b : Nat) : Nat := (a + b) % modulus
def sub (a b : Nat) : Nat := (a + (modulus - b % modulus)) % modulus

theorem add_exact {a b : Nat} (fits : a + b < modulus) : add a b = a + b := Nat.mod_eq_of_lt fits

theorem sub_exact {a b : Nat} (le : b ≤ a) (fits : a < modulus) : sub a b = a - b := by
  unfold sub modulus at *
  omega

/-- The mask `~(a - 1)` of a power of two rounds down. -/
theorem and_mask {x k : Nat} (small : k ≤ 32) (word : x < modulus) :
    x &&& (modulus - 1 - (2 ^ k - 1)) = x / 2 ^ k * 2 ^ k := by
  have two_pow : modulus = 2 ^ 32 := rfl
  have below : 2 ^ k ≤ 2 ^ 32 := Nat.pow_le_pow_right (by decide) small
  have positive : 0 < 2 ^ k := Nat.two_pow_pos k
  have mask : modulus - 1 - (2 ^ k - 1) = 2 ^ 32 - ((2 ^ k - 1) + 1) := by omega
  apply Nat.eq_of_testBit_eq
  intro i
  rw [mask,Nat.testBit_and,Nat.testBit_two_pow_sub_succ (by omega),Nat.testBit_two_pow_sub_one,
    Nat.testBit_mul_two_pow,Nat.testBit_div_two_pow]
  by_cases high : k ≤ i
  · have back : i - k + k = i := Nat.sub_add_cancel high
    by_cases inside : i < 32
    · simp [high,inside,back]
    · have clear : x.testBit i = false :=
        Nat.testBit_lt_two_pow (Nat.lt_of_lt_of_le (two_pow ▸ word) (Nat.pow_le_pow_right (by decide) (Nat.not_lt.mp inside)))
      simp [high,back,clear]
  · simp [high,Nat.lt_of_not_le high]

end GridOS.Words
