import Mathlib.Tactic

/-!
The bit primitives and the search for a clear bit, `source/libs/common/cpu/bit.c`
on `BITS_PER_LONG = 32`. A bit array is an unbounded sequence of words; the
search reads the words that the C code reads. The theorem at the end gives the
search in terms of single bits, and no later module looks at words again.
-/
namespace GridOS.Bits

def BITS_PER_LONG : Nat := 32

/-- An array of `unsigned long`. -/
abbrev Words := Nat → BitVec 32

/-- `test_bit`. -/
def test_bit (nr : Nat) (addr : Words) : Bool := (addr (nr / BITS_PER_LONG)).getLsbD (nr % BITS_PER_LONG)
/-- `__set_bit`. -/
def set_bit (nr : Nat) (addr : Words) : Words :=
  Function.update addr (nr / BITS_PER_LONG) (addr (nr / BITS_PER_LONG) ||| BitVec.twoPow 32 (nr % BITS_PER_LONG))
/-- `__clear_bit`. -/
def clear_bit (nr : Nat) (addr : Words) : Words :=
  Function.update addr (nr / BITS_PER_LONG) (addr (nr / BITS_PER_LONG) &&& ~~~ BitVec.twoPow 32 (nr % BITS_PER_LONG))

/-- The index of the lowest clear bit of a word that has one. -/
def ffz (word : BitVec 32) : Nat := ((List.range BITS_PER_LONG).find? (fun i => !word.getLsbD i)).getD BITS_PER_LONG

/-- The code behind the label `found_first`: the bits from `size` on do not count. -/
def found_first (tmp : BitVec 32) (result size : Nat) : Nat :=
  let tmp := tmp ||| (BitVec.allOnes 32 <<< size)
  if tmp = BitVec.allOnes 32 then result + size else result + ffz tmp

/-- The loop over whole words and the code up to `found_first`; `rounds` bounds the
    words that are left. -/
def scan (addr : Words) : Nat → Nat → Nat → Nat → Nat
  | rounds, p, result, size =>
    if size < BITS_PER_LONG then if size = 0 then result else found_first (addr p) result size else
    if addr p ≠ BitVec.allOnes 32 then result + ffz (addr p) else
    match rounds with
    | 0 => result
    | rounds+1 => scan addr rounds (p+1) (result + BITS_PER_LONG) (size - BITS_PER_LONG)

def cl_find_next_zero_bit (addr : Words) (size offset : Nat) : Nat :=
  let p := offset / BITS_PER_LONG
  let result := offset - offset % BITS_PER_LONG
  if offset ≥ size then size else
  let size := size - result
  let offset := offset % BITS_PER_LONG
  if offset ≠ 0 then
    let tmp := addr p ||| (BitVec.allOnes 32 >>> (BITS_PER_LONG - offset))
    if size < BITS_PER_LONG then found_first tmp result size else
    if tmp ≠ BitVec.allOnes 32 then result + ffz tmp else
    scan addr (size / BITS_PER_LONG) (p+1) (result + BITS_PER_LONG) (size - BITS_PER_LONG)
  else scan addr (size / BITS_PER_LONG) p result size

/-! ### Single bits -/

theorem test_bit_word (addr : Words) (p : Nat) {i : Nat} (inside : i < BITS_PER_LONG) :
    test_bit (p * BITS_PER_LONG + i) addr = (addr p).getLsbD i := by
  unfold test_bit BITS_PER_LONG at *
  have word : (p * 32 + i) / 32 = p := by omega
  have bit : (p * 32 + i) % 32 = i := by omega
  rw [word,bit]

private theorem same_bit {i nr : Nat} (word : i / BITS_PER_LONG = nr / BITS_PER_LONG) :
    nr % BITS_PER_LONG = i % BITS_PER_LONG ↔ i = nr := by
  unfold BITS_PER_LONG at *
  omega

@[simp] theorem test_bit_set_bit (addr : Words) (nr i : Nat) :
    test_bit i (set_bit nr addr) = (decide (i = nr) || test_bit i addr) := by
  unfold test_bit set_bit
  have inside : i % BITS_PER_LONG < 32 := Nat.mod_lt _ (by decide)
  have position : nr % BITS_PER_LONG < 32 := Nat.mod_lt _ (by decide)
  by_cases word : i / BITS_PER_LONG = nr / BITS_PER_LONG
  · rw [word,Function.update_self,BitVec.getLsbD_or,BitVec.getLsbD_twoPow,Bool.or_comm]
    simp [inside,position,same_bit word]
  · have differ : i ≠ nr := by rintro rfl; exact word rfl
    rw [Function.update_of_ne word]
    simp [differ]

@[simp] theorem test_bit_clear_bit (addr : Words) (nr i : Nat) :
    test_bit i (clear_bit nr addr) = (!decide (i = nr) && test_bit i addr) := by
  unfold test_bit clear_bit
  have inside : i % BITS_PER_LONG < 32 := Nat.mod_lt _ (by decide)
  have position : nr % BITS_PER_LONG < 32 := Nat.mod_lt _ (by decide)
  by_cases word : i / BITS_PER_LONG = nr / BITS_PER_LONG
  · rw [word,Function.update_self,BitVec.getLsbD_and,BitVec.getLsbD_not,BitVec.getLsbD_twoPow,Bool.and_comm]
    simp [inside,position,same_bit word]
  · have differ : i ≠ nr := by rintro rfl; exact word rfl
    rw [Function.update_of_ne word]
    simp [differ]

/-! ### Searching -/

/-- `r` is the first clear bit from `offset` on, or `size` when all bits below it are set. -/
structure NextZero (addr : Words) (size offset r : Nat) : Prop where
  bound : r ≤ size
  clear : r < size → offset ≤ r ∧ test_bit r addr = false
  filled : ∀ i, offset ≤ i → i < r → test_bit i addr = true

theorem ffz_spec {word : BitVec 32} (gap : word ≠ BitVec.allOnes 32) :
    ffz word < BITS_PER_LONG ∧ word.getLsbD (ffz word) = false ∧ ∀ i < ffz word, word.getLsbD i = true := by
  unfold ffz
  cases found : (List.range BITS_PER_LONG).find? (fun i => !word.getLsbD i) with
  | none =>
    rw [List.find?_eq_none] at found
    refine absurd (BitVec.eq_of_getLsbD_eq ?_) gap
    intro i inside
    have set := found i (List.mem_range.mpr inside)
    rw [BitVec.getLsbD_allOnes,decide_eq_true inside]
    simpa using set
  | some i =>
    obtain ⟨clear,rank,inside,same,before⟩ := List.find?_eq_some_iff_getElem.mp found
    rw [List.length_range] at inside
    rw [List.getElem_range] at same
    subst same
    refine ⟨inside,by simpa using clear,?_⟩
    intro i less
    have set := before i less
    rw [List.getElem_range] at set
    simpa using set

/-- A word with a clear bit, behind bits that are all set, decides the search. -/
theorem next_zero_of_word {addr : Words} {size offset p : Nat} {word : BitVec 32} (gap : word ≠ BitVec.allOnes 32)
    (filled : ∀ i, offset ≤ i → i < p * BITS_PER_LONG → test_bit i addr = true)
    (agree : ∀ i < BITS_PER_LONG, word.getLsbD i = true →
      p * BITS_PER_LONG + i < offset ∨ size ≤ p * BITS_PER_LONG + i ∨ (addr p).getLsbD i = true)
    (within : ∀ i < BITS_PER_LONG, word.getLsbD i = false →
      offset ≤ p * BITS_PER_LONG + i ∧ p * BITS_PER_LONG + i < size ∧ (addr p).getLsbD i = false) :
    NextZero addr size offset (p * BITS_PER_LONG + ffz word) := by
  obtain ⟨inside,clear,set⟩ := ffz_spec gap
  obtain ⟨low,high,free⟩ := within _ inside clear
  refine ⟨high.le,fun _ => ⟨low,by rw [test_bit_word addr p inside,free]⟩,?_⟩
  intro i above below
  by_cases earlier : i < p * BITS_PER_LONG
  · exact filled i above earlier
  · obtain ⟨j,rfl⟩ : ∃ j, i = p * BITS_PER_LONG + j := ⟨i - p * BITS_PER_LONG,by omega⟩
    have less : j < ffz word := by omega
    rw [test_bit_word addr p (by omega)]
    rcases agree j (by omega) (set j less) with outside | outside | set
    · omega
    · omega
    · exact set

/-- A word without a clear bit below `size` or behind `offset` carries the search on. -/
theorem filled_of_word {addr : Words} {offset p stop : Nat} (upTo : stop ≤ p * BITS_PER_LONG + BITS_PER_LONG)
    (filled : ∀ i, offset ≤ i → i < p * BITS_PER_LONG → test_bit i addr = true)
    (full : ∀ i < BITS_PER_LONG, offset ≤ p * BITS_PER_LONG + i → p * BITS_PER_LONG + i < stop →
      (addr p).getLsbD i = true) :
    ∀ i, offset ≤ i → i < stop → test_bit i addr = true := by
  intro i above below
  by_cases earlier : i < p * BITS_PER_LONG
  · exact filled i above earlier
  · obtain ⟨j,rfl⟩ : ∃ j, i = p * BITS_PER_LONG + j := ⟨i - p * BITS_PER_LONG,by omega⟩
    rw [test_bit_word addr p (by omega)]
    exact full j (by omega) above below

theorem found_first_spec {addr : Words} {size offset p : Nat} {tmp : BitVec 32} (less : p * BITS_PER_LONG < size)
    (last : size < p * BITS_PER_LONG + BITS_PER_LONG)
    (filled : ∀ i, offset ≤ i → i < p * BITS_PER_LONG → test_bit i addr = true)
    (masked : ∀ i < BITS_PER_LONG, tmp.getLsbD i = (decide (p * BITS_PER_LONG + i < offset) || (addr p).getLsbD i)) :
    NextZero addr size offset (found_first tmp (p * BITS_PER_LONG) (size - p * BITS_PER_LONG)) := by
  have bits : ∀ i < BITS_PER_LONG, (tmp ||| (BitVec.allOnes 32 <<< (size - p * BITS_PER_LONG))).getLsbD i =
      (decide (p * BITS_PER_LONG + i < offset) || (addr p).getLsbD i || decide (size ≤ p * BITS_PER_LONG + i)) := by
    intro i inside
    have word : i < 32 := inside
    have above : decide (i - (size - p * BITS_PER_LONG) < 32) = true := by simp; omega
    have order : (!decide (i < size - p * BITS_PER_LONG)) = decide (size ≤ p * BITS_PER_LONG + i) := by
      by_cases low : i < size - p * BITS_PER_LONG
      · have : ¬ size ≤ p * BITS_PER_LONG + i := by omega
        simp [low,this]
      · have : size ≤ p * BITS_PER_LONG + i := by omega
        simp [low,this]
    rw [BitVec.getLsbD_or,masked i inside,BitVec.getLsbD_shiftLeft,BitVec.getLsbD_allOnes,above,order]
    simp [word]
  unfold found_first
  dsimp only
  split
  · next full =>
    have stop : p * BITS_PER_LONG + (size - p * BITS_PER_LONG) = size := by omega
    rw [stop]
    refine ⟨le_rfl,fun less => absurd less (lt_irrefl _),filled_of_word (by omega) filled ?_⟩
    intro i inside above below
    have word : i < 32 := inside
    have set := bits i inside
    rw [full,BitVec.getLsbD_allOnes,decide_eq_true word] at set
    have notLow : ¬ p * BITS_PER_LONG + i < offset := by omega
    have notHigh : ¬ size ≤ p * BITS_PER_LONG + i := by omega
    simpa [notLow,notHigh] using set.symm
  · next gap =>
    refine next_zero_of_word gap filled ?_ ?_
    · intro i inside set
      rw [bits i inside] at set
      simp only [Bool.or_eq_true,decide_eq_true_eq] at set
      tauto
    · intro i inside clear
      rw [bits i inside] at clear
      simp only [Bool.or_eq_false_iff,decide_eq_false_iff_not] at clear
      exact ⟨by omega,by omega,clear.1.2⟩

private theorem next_word (p : Nat) : (p+1) * BITS_PER_LONG = p * BITS_PER_LONG + BITS_PER_LONG := Nat.succ_mul ..

/-- The loop keeps `result` at the word `p`, with every bit before it set. -/
theorem scan_spec {addr : Words} {size offset : Nat} {rounds p : Nat} (reach : p * BITS_PER_LONG ≤ size)
    (enough : (size - p * BITS_PER_LONG) / BITS_PER_LONG ≤ rounds) (start : offset ≤ p * BITS_PER_LONG)
    (filled : ∀ i, offset ≤ i → i < p * BITS_PER_LONG → test_bit i addr = true) :
    NextZero addr size offset (scan addr rounds p (p * BITS_PER_LONG) (size - p * BITS_PER_LONG)) := by
  have unmasked : ∀ i < BITS_PER_LONG,
      (addr p).getLsbD i = (decide (p * BITS_PER_LONG + i < offset) || (addr p).getLsbD i) := by
    intro i _
    have notLow : ¬ p * BITS_PER_LONG + i < offset := by omega
    simp [notLow]
  induction rounds generalizing p with
  | zero =>
    have positive : 0 < BITS_PER_LONG := by decide
    have short : size - p * BITS_PER_LONG < BITS_PER_LONG := by
      have := Nat.div_eq_zero_iff.mp (Nat.le_zero.mp enough)
      omega
    unfold scan
    rw [if_pos short]
    split
    · next done => exact ⟨by omega,by intro; omega,filled⟩
    · next left => exact found_first_spec (by omega) (by omega) filled unmasked
  | succ rounds ih =>
    unfold scan
    split
    · split
      · next done => exact ⟨by omega,by intro; omega,filled⟩
      · next left => exact found_first_spec (by omega) (by omega) filled unmasked
    · next long =>
      split
      · next gap =>
        refine next_zero_of_word gap filled (fun i _ set => .inr (.inr set)) ?_
        intro i inside clear
        exact ⟨by omega,by omega,clear⟩
      · next full =>
        have whole : addr p = BitVec.allOnes 32 := not_not.mp full
        dsimp only
        rw [← next_word,Nat.sub_sub,← next_word]
        have fewer : (size - (p+1) * BITS_PER_LONG) / BITS_PER_LONG ≤ rounds := by
          have := Nat.sub_mul_div (size - p * BITS_PER_LONG) BITS_PER_LONG 1
          rw [next_word,← Nat.sub_sub]
          rw [Nat.mul_one] at this
          omega
        refine ih (by rw [next_word]; omega) fewer (by rw [next_word]; omega) ?_ ?_
        · rw [next_word]
          refine filled_of_word le_rfl filled ?_
          intro i inside _ _
          have word : i < 32 := inside
          rw [whole,BitVec.getLsbD_allOnes,decide_eq_true word]
        · intro i _
          have notLow : ¬ (p+1) * BITS_PER_LONG + i < offset := by rw [next_word]; omega
          simp [notLow]

/-- The search over words is the search over bits. -/
theorem cl_find_next_zero_bit_spec (addr : Words) (size offset : Nat) :
    NextZero addr size offset (cl_find_next_zero_bit addr size offset) := by
  have sum := Nat.div_add_mod' offset BITS_PER_LONG
  have whole : offset - offset % BITS_PER_LONG = offset / BITS_PER_LONG * BITS_PER_LONG := by omega
  have split := Nat.mod_lt offset (show 0 < BITS_PER_LONG by decide)
  unfold cl_find_next_zero_bit
  dsimp only
  rw [whole]
  generalize offset / BITS_PER_LONG = p at *
  have before : ∀ i, offset ≤ i → i < p * BITS_PER_LONG → test_bit i addr = true := by intro i _ _; omega
  by_cases done : offset ≥ size
  · rw [if_pos done]
    exact ⟨le_rfl,fun less => absurd less (lt_irrefl _),by intro i _ _; omega⟩
  rw [if_neg done]
  have masked : ∀ i < BITS_PER_LONG,
      (addr p ||| (BitVec.allOnes 32 >>> (BITS_PER_LONG - offset % BITS_PER_LONG))).getLsbD i =
        (decide (p * BITS_PER_LONG + i < offset) || (addr p).getLsbD i) := by
    intro i inside
    have below : decide (BITS_PER_LONG - offset % BITS_PER_LONG + i < 32) = decide (p * BITS_PER_LONG + i < offset) := by
      have : (BITS_PER_LONG - offset % BITS_PER_LONG + i < BITS_PER_LONG) ↔ (p * BITS_PER_LONG + i < offset) := by omega
      exact decide_eq_decide.mpr this
    rw [BitVec.getLsbD_or,BitVec.getLsbD_ushiftRight,BitVec.getLsbD_allOnes,below,Bool.or_comm]
  by_cases aligned : offset % BITS_PER_LONG = 0
  · rw [if_neg (not_not.mpr aligned)]
    exact scan_spec (by omega) le_rfl (by omega) before
  rw [if_pos aligned]
  split
  · next short => exact found_first_spec (by omega) (by omega) before masked
  · next long =>
    split
    · next gap =>
      refine next_zero_of_word gap before ?_ ?_
      · intro i inside set
        rw [masked i inside,Bool.or_eq_true,decide_eq_true_eq] at set
        exact set.imp id .inr
      · intro i inside clear
        rw [masked i inside,Bool.or_eq_false_iff,decide_eq_false_iff_not] at clear
        exact ⟨by omega,by omega,clear.2⟩
    · next full =>
      rw [← next_word,Nat.sub_sub,← next_word]
      refine scan_spec (by rw [next_word]; omega) ?_ (by rw [next_word]; omega) ?_
      · exact Nat.div_le_div_right (by rw [next_word]; omega)
      · rw [next_word]
        refine filled_of_word le_rfl before ?_
        intro i inside above _
        have word : i < 32 := inside
        have set := masked i inside
        rw [not_not.mp full,BitVec.getLsbD_allOnes,decide_eq_true word] at set
        have notLow : ¬ p * BITS_PER_LONG + i < offset := by omega
        simpa [notLow] using set.symm

/-! ### The search for a set bit

It mirrors the other search, with every mask and every test the other way round: it is the search for a clear bit in
the complement of the array. -/

/-- `__ffs`, the index of the lowest set bit of a word that has one. -/
def ffs (word : BitVec 32) : Nat := ((List.range BITS_PER_LONG).find? (fun i => word.getLsbD i)).getD BITS_PER_LONG

/-- The code behind `found_first` in `cl_find_next_bit`. -/
def found_first_bit (tmp : BitVec 32) (result size : Nat) : Nat :=
  let tmp := tmp &&& (BitVec.allOnes 32 >>> (BITS_PER_LONG - size))
  if tmp = 0#32 then result + size else result + ffs tmp

def scan_bit (addr : Words) : Nat → Nat → Nat → Nat → Nat
  | rounds, p, result, size =>
    if size < BITS_PER_LONG then if size = 0 then result else found_first_bit (addr p) result size else
    if addr p ≠ 0#32 then result + ffs (addr p) else
    match rounds with
    | 0 => result
    | rounds+1 => scan_bit addr rounds (p+1) (result + BITS_PER_LONG) (size - BITS_PER_LONG)

def cl_find_next_bit (addr : Words) (size offset : Nat) : Nat :=
  let p := offset / BITS_PER_LONG
  let result := offset - offset % BITS_PER_LONG
  if offset ≥ size then size else
  let size := size - result
  let offset := offset % BITS_PER_LONG
  if offset ≠ 0 then
    let tmp := addr p &&& (BitVec.allOnes 32 <<< offset)
    if size < BITS_PER_LONG then found_first_bit tmp result size else
    if tmp ≠ 0#32 then result + ffs tmp else
    scan_bit addr (size / BITS_PER_LONG) (p+1) (result + BITS_PER_LONG) (size - BITS_PER_LONG)
  else scan_bit addr (size / BITS_PER_LONG) p result size

/-- The array with every bit the other way. -/
def complement (addr : Words) : Words := fun p => ~~~addr p

@[simp] theorem test_bit_complement (addr : Words) (i : Nat) : test_bit i (complement addr) = !test_bit i addr := by
  have inside : i % BITS_PER_LONG < 32 := Nat.mod_lt _ (by decide)
  unfold test_bit complement
  rw [BitVec.getLsbD_not,decide_eq_true inside,Bool.true_and]

theorem ffz_not (word : BitVec 32) : ffz (~~~word) = ffs word := by
  have same : (List.range BITS_PER_LONG).find? (fun i => !(~~~word).getLsbD i) =
      (List.range BITS_PER_LONG).find? (fun i => word.getLsbD i) := by
    refine List.find?_congr ?_
    intro i member
    have inside : i < 32 := List.mem_range.mp member
    rw [BitVec.getLsbD_not,decide_eq_true inside,Bool.true_and,Bool.not_not]
  unfold ffz ffs
  rw [same]

theorem not_eq_allOnes (word : BitVec 32) : ~~~word = BitVec.allOnes 32 ↔ word = 0#32 := by
  rw [← BitVec.not_zero,BitVec.not_inj]

/-- The mask of the bits below `n` is the complement of the mask of those from `n` on. -/
theorem not_low_mask {n : Nat} (within : n ≤ BITS_PER_LONG) :
    ~~~(BitVec.allOnes 32 <<< n) = BitVec.allOnes 32 >>> (BITS_PER_LONG - n) := by
  refine BitVec.eq_of_getLsbD_eq ?_
  intro i inside
  rw [BitVec.getLsbD_not,BitVec.getLsbD_shiftLeft,BitVec.getLsbD_allOnes,BitVec.getLsbD_ushiftRight,BitVec.getLsbD_allOnes]
  unfold BITS_PER_LONG at *
  by_cases low : i < n
  · have below : 32 - n + i < 32 := by omega
    simp [inside,low,below]
  · have above : ¬ 32 - n + i < 32 := by omega
    have word : i - n < 32 := by omega
    simp [inside,low,above,word]

theorem found_first_complement (tmp : BitVec 32) (result : Nat) {size : Nat} (last : size ≤ BITS_PER_LONG) :
    found_first (~~~tmp) result size = found_first_bit tmp result size := by
  have masks : ~~~tmp ||| (BitVec.allOnes 32 <<< size) = ~~~(tmp &&& (BitVec.allOnes 32 >>> (BITS_PER_LONG - size))) := by
    rw [BitVec.not_and,← not_low_mask last,BitVec.not_not]
  unfold found_first found_first_bit
  dsimp only
  rw [masks,ffz_not]
  simp only [not_eq_allOnes]

theorem scan_complement (addr : Words) (rounds p result size : Nat) :
    scan (complement addr) rounds p result size = scan_bit addr rounds p result size := by
  induction rounds generalizing p result size with
  | zero =>
    unfold scan scan_bit
    split
    · next short => rw [← found_first_complement _ _ (le_of_lt short)]; rfl
    · rw [← ffz_not]
      simp only [complement,ne_eq,not_eq_allOnes]
  | succ rounds ih =>
    unfold scan scan_bit
    split
    · next short => rw [← found_first_complement _ _ (le_of_lt short)]; rfl
    · dsimp only
      rw [← ffz_not,ih]
      simp only [complement,ne_eq,not_eq_allOnes]

theorem find_next_complement (addr : Words) (size offset : Nat) :
    cl_find_next_zero_bit (complement addr) size offset = cl_find_next_bit addr size offset := by
  have inside := Nat.mod_lt offset (show 0 < BITS_PER_LONG by decide)
  have masks : complement addr (offset / BITS_PER_LONG) ||| (BitVec.allOnes 32 >>> (BITS_PER_LONG - offset % BITS_PER_LONG)) =
      ~~~(addr (offset / BITS_PER_LONG) &&& (BitVec.allOnes 32 <<< (offset % BITS_PER_LONG))) := by
    rw [BitVec.not_and,not_low_mask inside.le]
    rfl
  unfold cl_find_next_zero_bit cl_find_next_bit
  dsimp only
  rw [masks,scan_complement,scan_complement,ffz_not]
  simp only [ne_eq,not_eq_allOnes]
  split
  · rfl
  · split
    · split
      · next short => exact found_first_complement _ _ short.le
      · rfl
    · rfl

/-- `r` is the first set bit from `offset` on, or `size` when no bit below it is set. -/
structure NextBit (addr : Words) (size offset r : Nat) : Prop where
  bound : r ≤ size
  set : r < size → offset ≤ r ∧ test_bit r addr = true
  clear : ∀ i, offset ≤ i → i < r → test_bit i addr = false

theorem cl_find_next_bit_spec (addr : Words) (size offset : Nat) :
    NextBit addr size offset (cl_find_next_bit addr size offset) := by
  have zero := cl_find_next_zero_bit_spec (complement addr) size offset
  rw [find_next_complement] at zero
  refine ⟨zero.bound,fun less => ?_,fun i above below => ?_⟩
  · obtain ⟨low,clear⟩ := zero.clear less
    rw [test_bit_complement,Bool.not_eq_false'] at clear
    exact ⟨low,clear⟩
  · have filled := zero.filled i above below
    rwa [test_bit_complement,Bool.not_eq_true'] at filled

end GridOS.Bits
