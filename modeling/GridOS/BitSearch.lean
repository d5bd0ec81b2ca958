import GridOS.Bits
import GridOS.Timer

/-!
The three bit searches of `source/libs/common/cpu/bit.c` against a scan of one bit after
the other. `find_last_bit` goes through the words from the last one down.
-/
namespace GridOS.Bits

/-! ### The first and the last place of a property -/

/-- `r` is the first place below `stop` where `P` holds, or `stop` when there is none. -/
def LeastOr (P : Nat → Prop) (stop r : Nat) : Prop := IsLeast {i | i < stop ∧ P i} r ∨ ((∀ i < stop, ¬ P i) ∧ r = stop)
/-- `r` is the last place below `stop` where `P` holds, or `stop` when there is none. -/
def GreatestOr (P : Nat → Prop) (stop r : Nat) : Prop := IsGreatest {i | i < stop ∧ P i} r ∨ ((∀ i < stop, ¬ P i) ∧ r = stop)

theorem LeastOr.unique {P Q : Nat → Prop} {stop r s : Nat} (same : ∀ i < stop, P i ↔ Q i) (first : LeastOr P stop r)
    (second : LeastOr Q stop s) : r = s := by
  have sets : {i | i < stop ∧ P i} = {i | i < stop ∧ Q i} := Set.ext fun i => and_congr_right (same i)
  rcases first with least | ⟨none,rfl⟩ <;> rcases second with other | ⟨absent,rfl⟩
  · rw [sets] at least
    exact least.unique other
  · exact absurd ((same r least.1.1).mp least.1.2) (absent r least.1.1)
  · exact absurd ((same s other.1.1).mpr other.1.2) (none s other.1.1)
  · rfl

theorem GreatestOr.unique {P Q : Nat → Prop} {stop r s : Nat} (same : ∀ i < stop, P i ↔ Q i) (first : GreatestOr P stop r)
    (second : GreatestOr Q stop s) : r = s := by
  have sets : {i | i < stop ∧ P i} = {i | i < stop ∧ Q i} := Set.ext fun i => and_congr_right (same i)
  rcases first with greatest | ⟨none,rfl⟩ <;> rcases second with other | ⟨absent,rfl⟩
  · rw [sets] at greatest
    exact greatest.unique other
  · exact absurd ((same r greatest.1.1).mp greatest.1.2) (absent r greatest.1.1)
  · exact absurd ((same s other.1.1).mpr other.1.2) (none s other.1.1)
  · rfl

theorem NextZero.least {addr : Words} {size offset r : Nat} (found : NextZero addr size offset r) :
    LeastOr (fun i => offset ≤ i ∧ test_bit i addr = false) size r := by
  rcases found.bound.lt_or_eq with less | rfl
  · refine .inl ⟨⟨less,found.clear less⟩,?_⟩
    rintro i ⟨_,above,clear⟩
    by_contra earlier
    rw [found.filled i above (not_le.mp earlier)] at clear
    exact Bool.noConfusion clear
  · refine .inr ⟨?_,rfl⟩
    rintro i below ⟨above,clear⟩
    rw [found.filled i above below] at clear
    exact Bool.noConfusion clear

theorem NextBit.least {addr : Words} {size offset r : Nat} (found : NextBit addr size offset r) :
    LeastOr (fun i => offset ≤ i ∧ test_bit i addr = true) size r := by
  rcases found.bound.lt_or_eq with less | rfl
  · refine .inl ⟨⟨less,found.set less⟩,?_⟩
    rintro i ⟨_,above,set⟩
    by_contra earlier
    rw [found.clear i above (not_le.mp earlier)] at set
    exact Bool.noConfusion set
  · refine .inr ⟨?_,rfl⟩
    rintro i below ⟨above,set⟩
    rw [found.clear i above below] at set
    exact Bool.noConfusion set

/-! ### The last set bit -/

/-- `__fls`, the index of the highest set bit of a word that has one. -/
def fls (word : BitVec 32) : Nat := ((List.range BITS_PER_LONG).reverse.find? (fun i => word.getLsbD i)).getD BITS_PER_LONG

/-- The loop `while (words)` and the `return size` behind it. -/
def last_words (addr : Words) (size : Nat) : Nat → Nat
  | 0 => size
  | words+1 => if addr words ≠ 0#32 then words * BITS_PER_LONG + fls (addr words) else last_words addr size words

def find_last_bit (addr : Words) (size : Nat) : Nat :=
  let words := size / BITS_PER_LONG
  if size % BITS_PER_LONG ≠ 0 then
    let tmp := addr words &&& (BitVec.allOnes 32 >>> (BITS_PER_LONG - size % BITS_PER_LONG))
    if tmp ≠ 0#32 then words * BITS_PER_LONG + fls tmp else last_words addr size words
  else last_words addr size words

theorem fls_spec {word : BitVec 32} (some_bit : word ≠ 0#32) :
    fls word < BITS_PER_LONG ∧ word.getLsbD (fls word) = true ∧
      ∀ i < BITS_PER_LONG, fls word < i → word.getLsbD i = false := by
  unfold fls
  cases found : (List.range BITS_PER_LONG).reverse.find? (fun i => word.getLsbD i) with
  | none =>
    rw [List.find?_eq_none] at found
    refine absurd (BitVec.eq_of_getLsbD_eq ?_) some_bit
    intro i inside
    have clear := found i (List.mem_reverse.mpr (List.mem_range.mpr inside))
    rw [BitVec.getLsbD_zero]
    simpa using clear
  | some i =>
    obtain ⟨set,rank,inside,same,before⟩ := List.find?_eq_some_iff_getElem.mp found
    rw [List.length_reverse,List.length_range] at inside
    rw [List.getElem_reverse,List.getElem_range,List.length_range] at same
    refine ⟨by simp only [Option.getD_some]; omega,set,?_⟩
    intro j within above
    simp only [Option.getD_some] at above
    -- the place of `j` in the list that runs down is before the place of `i`
    have clear := before (BITS_PER_LONG - 1 - j) (by omega)
    rw [List.getElem_reverse,List.getElem_range,List.length_range] at clear
    have place : BITS_PER_LONG - 1 - (BITS_PER_LONG - 1 - j) = j := by omega
    rw [place] at clear
    simpa using clear

/-- A word with a set bit, below bits that are all clear, decides the search. -/
theorem last_of_word {addr : Words} {size p : Nat} {word : BitVec 32} (some_bit : word ≠ 0#32)
    (clear : ∀ i < size, (p+1) * BITS_PER_LONG ≤ i → test_bit i addr = false)
    (agree : ∀ i < BITS_PER_LONG, word.getLsbD i = (decide (p * BITS_PER_LONG + i < size) && (addr p).getLsbD i)) :
    GreatestOr (fun i => test_bit i addr = true) size (p * BITS_PER_LONG + fls word) := by
  obtain ⟨inside,set,after⟩ := fls_spec some_bit
  have both := agree _ inside
  rw [set,eq_comm,Bool.and_eq_true,decide_eq_true_eq] at both
  have found : test_bit (p * BITS_PER_LONG + fls word) addr = true := by rw [test_bit_word addr p inside,both.2]
  refine .inl ⟨⟨both.1,found⟩,?_⟩
  rintro i ⟨below,bit⟩
  by_contra later
  by_cases word_end : (p+1) * BITS_PER_LONG ≤ i
  · rw [clear i below word_end] at bit
    exact Bool.noConfusion bit
  · rw [Nat.succ_mul] at word_end
    obtain ⟨j,rfl⟩ : ∃ j, i = p * BITS_PER_LONG + j := ⟨i - p * BITS_PER_LONG,by omega⟩
    have within : j < BITS_PER_LONG := by omega
    have unset := after j within (by omega)
    rw [agree j within,decide_eq_true below,Bool.true_and] at unset
    rw [test_bit_word addr p within,unset] at bit
    exact Bool.noConfusion bit

/-- A word without a set bit below `size` carries the search on. -/
theorem clear_of_word {addr : Words} {size p : Nat} {word : BitVec 32} (no_bit : word = 0#32)
    (clear : ∀ i < size, (p+1) * BITS_PER_LONG ≤ i → test_bit i addr = false)
    (agree : ∀ i < BITS_PER_LONG, word.getLsbD i = (decide (p * BITS_PER_LONG + i < size) && (addr p).getLsbD i)) :
    ∀ i < size, p * BITS_PER_LONG ≤ i → test_bit i addr = false := by
  intro i below above
  by_cases word_end : (p+1) * BITS_PER_LONG ≤ i
  · exact clear i below word_end
  · rw [Nat.succ_mul] at word_end
    obtain ⟨j,rfl⟩ : ∃ j, i = p * BITS_PER_LONG + j := ⟨i - p * BITS_PER_LONG,by omega⟩
    have within : j < BITS_PER_LONG := by omega
    have unset := agree j within
    rw [no_bit,BitVec.getLsbD_zero,decide_eq_true below,Bool.true_and] at unset
    rw [test_bit_word addr p within]
    exact unset.symm

/-- The loop keeps every bit from the word `words` on clear. -/
theorem last_words_spec {addr : Words} {size words : Nat} (within : words * BITS_PER_LONG ≤ size)
    (clear : ∀ i < size, words * BITS_PER_LONG ≤ i → test_bit i addr = false) :
    GreatestOr (fun i => test_bit i addr = true) size (last_words addr size words) := by
  induction words with
  | zero =>
    refine .inr ⟨?_,rfl⟩
    intro i below set
    rw [clear i below (by rw [Nat.zero_mul]; exact Nat.zero_le _)] at set
    exact Bool.noConfusion set
  | succ words ih =>
    have whole : ∀ i < BITS_PER_LONG,
        (addr words).getLsbD i = (decide (words * BITS_PER_LONG + i < size) && (addr words).getLsbD i) := by
      intro i inside
      rw [Nat.succ_mul] at within
      rw [decide_eq_true (show words * BITS_PER_LONG + i < size by omega),Bool.true_and]
    unfold last_words
    split
    · next some_bit => exact last_of_word some_bit clear whole
    · next no_bit =>
      refine ih (by rw [Nat.succ_mul] at within; omega) (clear_of_word (not_not.mp no_bit) clear whole)

theorem find_last_bit_spec (addr : Words) (size : Nat) :
    GreatestOr (fun i => test_bit i addr = true) size (find_last_bit addr size) := by
  have sum := Nat.div_add_mod' size BITS_PER_LONG
  have inside := Nat.mod_lt size (show 0 < BITS_PER_LONG by decide)
  have beyond : ∀ i < size, (size / BITS_PER_LONG + 1) * BITS_PER_LONG ≤ i → test_bit i addr = false := by
    intro i below above
    rw [Nat.succ_mul] at above
    omega
  unfold find_last_bit
  dsimp only
  split
  · next partial_word =>
    have masked : ∀ i < BITS_PER_LONG,
        (addr (size / BITS_PER_LONG) &&& (BitVec.allOnes 32 >>> (BITS_PER_LONG - size % BITS_PER_LONG))).getLsbD i =
          (decide (size / BITS_PER_LONG * BITS_PER_LONG + i < size) && (addr (size / BITS_PER_LONG)).getLsbD i) := by
      intro i _
      have below : decide (BITS_PER_LONG - size % BITS_PER_LONG + i < 32) =
          decide (size / BITS_PER_LONG * BITS_PER_LONG + i < size) := by
        have : (BITS_PER_LONG - size % BITS_PER_LONG + i < BITS_PER_LONG) ↔
            (size / BITS_PER_LONG * BITS_PER_LONG + i < size) := by omega
        exact decide_eq_decide.mpr this
      rw [BitVec.getLsbD_and,BitVec.getLsbD_ushiftRight,BitVec.getLsbD_allOnes,below,Bool.and_comm]
    split
    · next some_bit => exact last_of_word some_bit beyond masked
    · next no_bit => exact last_words_spec (by omega) (clear_of_word (not_not.mp no_bit) beyond masked)
  · next aligned =>
    refine last_words_spec (by omega) ?_
    intro i below above
    omega

/-- The search in the one word that the timers round with, in closed form. -/
theorem find_last_bit_word (word : BitVec 32) : find_last_bit (fun _ => word) BITS_PER_LONG = Timer.find_last_bit word := by
  refine GreatestOr.unique (fun _ _ => Iff.rfl) (find_last_bit_spec ..) ?_
  have bit : ∀ i < BITS_PER_LONG, test_bit i (fun _ => word) = word.toNat.testBit i := by
    intro i below
    unfold test_bit
    rw [Nat.mod_eq_of_lt below,BitVec.testBit_toNat]
  unfold Timer.find_last_bit
  split
  · next empty =>
    refine .inr ⟨?_,rfl⟩
    intro i below
    simp [empty,test_bit]
  · next some_bit =>
    have positive : word.toNat ≠ 0 := fun zero => some_bit (BitVec.eq_of_toNat_eq zero)
    have within : Nat.log2 word.toNat < BITS_PER_LONG := (Nat.log2_lt positive).mpr word.isLt
    have top : test_bit (Nat.log2 word.toNat) (fun _ => word) = true := by rw [bit _ within,Nat.testBit_log2 positive]
    refine .inl ⟨⟨within,top⟩,?_⟩
    rintro i ⟨below,set⟩
    rw [bit i below] at set
    exact (Nat.le_log2 positive).mpr (Nat.ge_two_pow_of_testBit set)

/-! ### All three searches -/

/-- Each search returns what a scan of the single bits below `size` finds, whatever the bits from `size` on are. -/
theorem searches_scan_bits (addr : Words) (size offset : Nat) :
    LeastOr (fun i => offset ≤ i ∧ test_bit i addr = false) size (cl_find_next_zero_bit addr size offset) ∧
    LeastOr (fun i => offset ≤ i ∧ test_bit i addr = true) size (cl_find_next_bit addr size offset) ∧
    GreatestOr (fun i => test_bit i addr = true) size (find_last_bit addr size) ∧
    ∀ other : Words, (∀ i < size, test_bit i other = test_bit i addr) →
      cl_find_next_zero_bit other size offset = cl_find_next_zero_bit addr size offset ∧
      cl_find_next_bit other size offset = cl_find_next_bit addr size offset ∧
      find_last_bit other size = find_last_bit addr size := by
  refine ⟨(cl_find_next_zero_bit_spec ..).least,(cl_find_next_bit_spec ..).least,find_last_bit_spec ..,?_⟩
  intro other same
  refine ⟨?_,?_,?_⟩
  · refine LeastOr.unique ?_ (cl_find_next_zero_bit_spec ..).least (cl_find_next_zero_bit_spec ..).least
    intro i below
    rw [same i below]
  · refine LeastOr.unique ?_ (cl_find_next_bit_spec ..).least (cl_find_next_bit_spec ..).least
    intro i below
    rw [same i below]
  · refine GreatestOr.unique ?_ (find_last_bit_spec ..) (find_last_bit_spec ..)
    intro i below
    rw [same i below]

end GridOS.Bits
