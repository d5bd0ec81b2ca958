import GridOS.Bits

/-!
The bit allocator of `source/libs/common/cpu/bitmap.c`. `last_bit` is a hint
where the next search starts. What each operation does to the bits is stated
once here; the page allocator and the handle table build on these statements
and on the number of clear bits.
-/
namespace GridOS.Bitmap
open GridOS.Bits

/-- `struct cl_bitmap`. -/
structure cl_bitmap where
  bitmap : Words
  mask_count : Nat
  last_bit : Nat

/-- `(-1UL)`. -/
def HAL_BITMAP_ALLOC_BIT_ERROR : Nat := 4294967295

/-- `cl_bitmap_calc_size`: the bytes that hold `mask_count` bits. -/
def cl_bitmap_calc_size (mask_count : Nat) : Nat :=
  if mask_count % 8 ≠ 0 then mask_count / 8 + 1 else mask_count / 8

/-- `memset(words, 0, bytes)` on little-endian words. -/
def clear_bytes (words : Words) (bytes : Nat) : Words :=
  fun p => words p &&& (BitVec.allOnes 32 <<< (8 * (bytes - 4 * p)))

/-- `last_bit` keeps the value it has. -/
def cl_bitmap_init (cur_bitmap : cl_bitmap) (bitmap : Words) (mask_count : Nat) : cl_bitmap :=
  { cur_bitmap with bitmap := clear_bytes bitmap ((mask_count + 7) / 8), mask_count }

/-- The search of `cl_bitmap_alloc_bit` from the hint and once more from 0. -/
def cl_bitmap_alloc_bit (b : cl_bitmap) : Nat × cl_bitmap :=
  let bit_offset := cl_find_next_zero_bit b.bitmap b.mask_count b.last_bit
  if bit_offset ≠ b.mask_count then
    (bit_offset,{ b with bitmap := set_bit bit_offset b.bitmap, last_bit := bit_offset + 1 })
  else
    let bit_offset := cl_find_next_zero_bit b.bitmap b.mask_count 0
    if bit_offset ≠ b.mask_count then
      (bit_offset,{ b with bitmap := set_bit bit_offset b.bitmap, last_bit := bit_offset + 1 })
    else (HAL_BITMAP_ALLOC_BIT_ERROR,{ b with last_bit := 0 })

/-- The loop that looks for `count - 1` more clear bits, `rounds = mask_count - i` of
    them at most: the values of `i` and `temp_count` behind it, or the bit
    behind a set bit that was met. -/
def extend (b : cl_bitmap) (count : Int) : Nat → Nat → Nat → Except Nat (Nat × Nat)
  | 0, i, temp_count => .ok (i,temp_count)
  | rounds+1, i, temp_count =>
    if (temp_count + 1 : Int) = count then .ok (i,temp_count) else
    if test_bit i b.bitmap then .error (i+1) else extend b count rounds (i+1) (temp_count+1)

/-- The loop that sets the bits found and moves the hint behind them. -/
def set_bits : Nat → cl_bitmap → cl_bitmap
  | 0, b => b
  | count+1, b => set_bits count { b with bitmap := set_bit b.last_bit b.bitmap, last_bit := b.last_bit + 1 }

/-- From the label `restart_scan`; `none` when the search has not ended within the fuel. -/
def restart_scan : Nat → cl_bitmap → Int → Bool → Option (Nat × cl_bitmap)
  | 0, _, _, _ => none
  | fuel+1, b, count, scan_flag =>
    let first := cl_find_next_zero_bit b.bitmap b.mask_count b.last_bit
    let bit_offset := if first = b.mask_count then cl_find_next_zero_bit b.bitmap b.mask_count 0 else first
    if bit_offset = b.mask_count then some (HAL_BITMAP_ALLOC_BIT_ERROR,{ b with last_bit := 0 }) else
    let b := { b with last_bit := bit_offset }
    match extend b count (b.mask_count - (bit_offset + 1)) (bit_offset + 1) 0 with
    | .error last_bit => restart_scan fuel { b with last_bit } count scan_flag
    | .ok (i,temp_count) =>
      if i = b.mask_count ∧ (temp_count + 1 : Int) < count then
        if scan_flag = false then restart_scan fuel { b with last_bit := 0 } count true
        else some (HAL_BITMAP_ALLOC_BIT_ERROR,b)
      else if (temp_count + 1 : Int) = count then some (b.last_bit,set_bits count.toNat b)
      else some (HAL_BITMAP_ALLOC_BIT_ERROR,b)

def cl_bitmap_alloc_consistant_bits (fuel : Nat) (b : cl_bitmap) (count : Int) : Option (Nat × cl_bitmap) :=
  restart_scan fuel b count false

def cl_bitmap_dealloc_bit (b : cl_bitmap) (bit : Nat) : Bool × cl_bitmap :=
  if test_bit bit b.bitmap = false then (false,b) else
  (true,{ b with bitmap := clear_bit bit b.bitmap, last_bit := if bit < b.last_bit then bit else b.last_bit })

/-- The number of bits given back before one was clear already. -/
def cl_bitmap_dealloc_consistent_bits (b : cl_bitmap) : Nat → Nat → Nat × cl_bitmap
  | 0, _ => (0,b)
  | count+1, bits =>
    let freed := cl_bitmap_dealloc_bit b bits
    if freed.1 = false then (0,freed.2) else
    let rest := cl_bitmap_dealloc_consistent_bits freed.2 count (bits+1)
    (rest.1+1,rest.2)

/-! ### What the operations do to the bits -/

/-- `b'` is `b` with the bits from `first` to `first + count` set. -/
structure Claimed (b b' : cl_bitmap) (first count : Nat) : Prop where
  mask : b'.mask_count = b.mask_count
  within : first + count ≤ b.mask_count
  fresh : ∀ i, first ≤ i → i < first + count → test_bit i b.bitmap = false
  bits : ∀ i, test_bit i b'.bitmap = (decide (first ≤ i ∧ i < first + count) || test_bit i b.bitmap)

/-- `b'` has the bits of `b`. -/
structure Same (b b' : cl_bitmap) : Prop where
  mask : b'.mask_count = b.mask_count
  bits : b'.bitmap = b.bitmap

theorem test_bit_clear_bytes (words : Words) (bytes : Nat) {i : Nat} (inside : i < 8 * bytes) :
    test_bit i (clear_bytes words bytes) = false := by
  unfold test_bit clear_bytes
  have offset : i % BITS_PER_LONG < 8 * (bytes - 4 * (i / BITS_PER_LONG)) := by unfold BITS_PER_LONG; omega
  rw [BitVec.getLsbD_and,BitVec.getLsbD_shiftLeft,decide_eq_true offset]
  simp

theorem cl_bitmap_init_clear (b : cl_bitmap) (words : Words) {mask_count i : Nat} (inside : i < mask_count) :
    test_bit i (cl_bitmap_init b words mask_count).bitmap = false := test_bit_clear_bytes _ _ (by omega)

theorem claimed_one {b : cl_bitmap} {bit : Nat} (last_bit : Nat) (inside : bit < b.mask_count)
    (clear : test_bit bit b.bitmap = false) : Claimed b { b with bitmap := set_bit bit b.bitmap, last_bit } bit 1 where
  mask := rfl
  within := inside
  fresh := by
    intro i low high
    have same : i = bit := by omega
    rw [same,clear]
  bits := by
    intro i
    have same : (i = bit) ↔ (bit ≤ i ∧ i < bit + 1) := by omega
    simp [same]

/-- The search returns a clear bit, which is the lowest one when every bit below the
    hint is set, or fails because there is none. -/
theorem cl_bitmap_alloc_bit_spec (b : cl_bitmap) :
    (∃ bit, cl_bitmap_alloc_bit b = (bit,{ b with bitmap := set_bit bit b.bitmap, last_bit := bit + 1 }) ∧
        bit < b.mask_count ∧ test_bit bit b.bitmap = false ∧
        ((∀ i < b.last_bit, test_bit i b.bitmap = true) → ∀ i < bit, test_bit i b.bitmap = true)) ∨
      (cl_bitmap_alloc_bit b = (HAL_BITMAP_ALLOC_BIT_ERROR,{ b with last_bit := 0 }) ∧
        ∀ i < b.mask_count, test_bit i b.bitmap = true) := by
  have hinted := cl_find_next_zero_bit_spec b.bitmap b.mask_count b.last_bit
  have again := cl_find_next_zero_bit_spec b.bitmap b.mask_count 0
  unfold cl_bitmap_alloc_bit
  dsimp only
  split
  · next found =>
    have inside := lt_of_le_of_ne hinted.bound found
    refine .inl ⟨_,rfl,inside,(hinted.clear inside).2,?_⟩
    intro below i less
    by_cases early : i < b.last_bit
    · exact below i early
    · exact hinted.filled i (by omega) less
  · split
    · next found =>
      have inside := lt_of_le_of_ne again.bound found
      exact .inl ⟨_,rfl,inside,(again.clear inside).2,fun _ i less => again.filled i (Nat.zero_le _) less⟩
    · next none =>
      refine .inr ⟨rfl,fun i inside => again.filled i (Nat.zero_le _) ?_⟩
      have all := not_not.mp none
      omega

/-- What `extend` finds behind a clear bit at `first`: every bit it passed is clear. -/
theorem extend_spec {b : cl_bitmap} {count : Int} (first : Nat) {rounds i temp_count i' temp' : Nat}
    (at_ : i = first + 1 + temp_count) (stop : i + rounds = b.mask_count)
    (clear : ∀ j, first ≤ j → j < i → test_bit j b.bitmap = false)
    (done : extend b count rounds i temp_count = .ok (i',temp')) :
    i' = first + 1 + temp' ∧ i' ≤ b.mask_count ∧ ∀ j, first ≤ j → j < i' → test_bit j b.bitmap = false := by
  induction rounds generalizing i temp_count with
  | zero =>
    cases done
    exact ⟨at_,by omega,clear⟩
  | succ rounds ih =>
    rw [extend] at done
    split at done
    · cases done
      exact ⟨at_,by omega,clear⟩
    · split at done
      · cases done
      · next free =>
        refine ih (by omega) (by omega) ?_ done
        intro j low high
        by_cases last : j = i
        · rw [last]; simpa using free
        · exact clear j low (by omega)

theorem set_bits_spec (count : Nat) (b : cl_bitmap) :
    (set_bits count b).mask_count = b.mask_count ∧
      ∀ i, test_bit i (set_bits count b).bitmap =
        (decide (b.last_bit ≤ i ∧ i < b.last_bit + count) || test_bit i b.bitmap) := by
  induction count generalizing b with
  | zero =>
    refine ⟨rfl,fun i => ?_⟩
    rw [set_bits,decide_eq_false (by omega),Bool.false_or]
  | succ count ih =>
    obtain ⟨mask,bits⟩ := ih { b with bitmap := set_bit b.last_bit b.bitmap, last_bit := b.last_bit + 1 }
    refine ⟨mask,fun i => ?_⟩
    have split : (b.last_bit ≤ i ∧ i < b.last_bit + (count + 1)) ↔
        (b.last_bit + 1 ≤ i ∧ i < b.last_bit + 1 + count) ∨ i = b.last_bit := by omega
    rw [set_bits,bits,test_bit_set_bit,← Bool.or_assoc,← Bool.decide_or,decide_eq_decide.mpr split]

/-- A search that ends has claimed `count` bits that were clear, or changed no bit. -/
theorem restart_scan_spec {fuel : Nat} {b b' : cl_bitmap} {count : Int} {scan_flag : Bool} {r : Nat}
    (done : restart_scan fuel b count scan_flag = some (r,b')) :
    (0 < count ∧ Claimed b b' r count.toNat) ∨ (r = HAL_BITMAP_ALLOC_BIT_ERROR ∧ Same b b') := by
  induction fuel generalizing b scan_flag with
  | zero => cases done
  | succ fuel ih =>
    have hinted := cl_find_next_zero_bit_spec b.bitmap b.mask_count b.last_bit
    have again := cl_find_next_zero_bit_spec b.bitmap b.mask_count 0
    rw [restart_scan] at done
    generalize start : (if cl_find_next_zero_bit b.bitmap b.mask_count b.last_bit = b.mask_count then
      cl_find_next_zero_bit b.bitmap b.mask_count 0 else
      cl_find_next_zero_bit b.bitmap b.mask_count b.last_bit) = bit_offset at done
    have free : bit_offset ≠ b.mask_count → bit_offset < b.mask_count ∧ test_bit bit_offset b.bitmap = false := by
      intro found
      split at start
      · subst start
        have inside := lt_of_le_of_ne again.bound found
        exact ⟨inside,(again.clear inside).2⟩
      · subst start
        have inside := lt_of_le_of_ne hinted.bound found
        exact ⟨inside,(hinted.clear inside).2⟩
    dsimp only at done
    split at done
    · cases done
      exact .inr ⟨rfl,rfl,rfl⟩
    · next found =>
      obtain ⟨inside,clear⟩ := free found
      -- `last_bit` is the only field that changed so far, so a restart is a search in the same bits
      have restarted : ∀ last_bit flag, restart_scan fuel { b with last_bit } count flag = some (r,b') →
          (0 < count ∧ Claimed b b' r count.toNat) ∨ (r = HAL_BITMAP_ALLOC_BIT_ERROR ∧ Same b b') := by
        intro last_bit flag later
        rcases ih later with ⟨positive,claim⟩ | ⟨error,same⟩
        · exact .inl ⟨positive,claim.mask,claim.within,claim.fresh,claim.bits⟩
        · exact .inr ⟨error,same.mask,same.bits⟩
      split at done
      · exact restarted _ _ done
      · next i temp_count passed =>
        obtain ⟨position,bound,run⟩ := extend_spec bit_offset (by omega) (by dsimp only; omega)
          (fun j low high => by rw [show j = bit_offset by omega]; exact clear) passed
        split at done
        · split at done
          · exact restarted _ _ done
          · cases done; exact .inr ⟨rfl,rfl,rfl⟩
        · split at done
          · next all =>
            dsimp only at bound
            simp only [Option.some.injEq,Prod.mk.injEq] at done
            obtain ⟨rfl,rfl⟩ := done
            have length : count.toNat = temp_count + 1 := by omega
            obtain ⟨mask,bits⟩ := set_bits_spec count.toNat { b with last_bit := bit_offset }
            refine .inl ⟨by omega,mask,?_,?_,bits⟩
            · omega
            · intro j low high; exact run j low (by omega)
          · cases done; exact .inr ⟨rfl,rfl,rfl⟩

/-- `b'` is `b` with the bits from `first` to `first + count` cleared. -/
structure Released (b b' : cl_bitmap) (first count : Nat) : Prop where
  mask : b'.mask_count = b.mask_count
  bits : ∀ i, test_bit i b'.bitmap = (!decide (first ≤ i ∧ i < first + count) && test_bit i b.bitmap)

/-- The bits behind a bit that has been cleared. -/
theorem Released.next {b b' b'' : cl_bitmap} {first count : Nat} (one : Released b b' first 1)
    (rest : Released b' b'' (first+1) count) : Released b b'' first (count+1) := by
  refine ⟨rest.mask.trans one.mask,fun i => ?_⟩
  have split : (first ≤ i ∧ i < first + (count + 1)) ↔ (first + 1 ≤ i ∧ i < first + 1 + count) ∨ (first ≤ i ∧ i < first + 1) := by
    omega
  rw [rest.bits,one.bits,← Bool.and_assoc,← Bool.not_or,← Bool.decide_or,decide_eq_decide.mpr split]

theorem cl_bitmap_dealloc_bit_spec {b : cl_bitmap} {bit : Nat} (set : test_bit bit b.bitmap = true) :
    (cl_bitmap_dealloc_bit b bit).1 = true ∧ Released b (cl_bitmap_dealloc_bit b bit).2 bit 1 := by
  unfold cl_bitmap_dealloc_bit
  rw [if_neg (by simp [set])]
  refine ⟨rfl,rfl,fun i => ?_⟩
  have same : (i = bit) ↔ (bit ≤ i ∧ i < bit + 1) := by omega
  simp [same]

theorem cl_bitmap_dealloc_consistent_bits_spec {b : cl_bitmap} {count bits : Nat}
    (set : ∀ i, bits ≤ i → i < bits + count → test_bit i b.bitmap = true) :
    Released b (cl_bitmap_dealloc_consistent_bits b count bits).2 bits count := by
  induction count generalizing b bits with
  | zero =>
    refine ⟨rfl,fun i => ?_⟩
    rw [cl_bitmap_dealloc_consistent_bits,decide_eq_false (by omega),Bool.not_false,Bool.true_and]
  | succ count ih =>
    obtain ⟨freed,one⟩ := cl_bitmap_dealloc_bit_spec (set bits le_rfl (by omega))
    have later : ∀ i, bits + 1 ≤ i → i < bits + 1 + count →
        test_bit i (cl_bitmap_dealloc_bit b bits).2.bitmap = true := by
      intro i low high
      rw [one.bits i,set i (by omega) (by omega),decide_eq_false (by omega)]
      rfl
    have rest := ih later
    rw [cl_bitmap_dealloc_consistent_bits]
    dsimp only
    rw [freed,if_neg (by simp)]
    exact one.next rest

/-- The bits that a free of several gives back: up to the first one that is clear already. -/
theorem dealloc_bits_prefix (b : cl_bitmap) (count bits : Nat) : ∃ k ≤ count,
    (∀ i, bits ≤ i → i < bits + k → test_bit i b.bitmap = true) ∧
    Released b (cl_bitmap_dealloc_consistent_bits b count bits).2 bits k ∧ (k < count → test_bit (bits + k) b.bitmap = false) := by
  induction count generalizing b bits with
  | zero =>
    refine ⟨0,le_rfl,fun i low high => by omega,⟨rfl,fun i => ?_⟩,fun less => by omega⟩
    rw [cl_bitmap_dealloc_consistent_bits,decide_eq_false (by omega),Bool.not_false,Bool.true_and]
  | succ count ih =>
    rw [cl_bitmap_dealloc_consistent_bits]
    dsimp only
    cases first : test_bit bits b.bitmap with
    | false =>
      have refused : cl_bitmap_dealloc_bit b bits = (false,b) := if_pos first
      rw [refused,if_pos rfl]
      refine ⟨0,Nat.zero_le _,fun i low high => by omega,⟨rfl,fun i => ?_⟩,fun _ => first⟩
      rw [decide_eq_false (by omega),Bool.not_false,Bool.true_and]
    | true =>
      obtain ⟨freed,one⟩ := cl_bitmap_dealloc_bit_spec first
      rw [freed,if_neg (by simp)]
      obtain ⟨k,few,set,rest,stop⟩ := ih (cl_bitmap_dealloc_bit b bits).2 (bits+1)
      have before (i : Nat) (behind : bits < i) : test_bit i (cl_bitmap_dealloc_bit b bits).2.bitmap = test_bit i b.bitmap := by
        rw [one.bits,decide_eq_false (by omega),Bool.not_false,Bool.true_and]
      refine ⟨k+1,by omega,fun i low high => ?_,one.next rest,fun less => ?_⟩
      · rcases Nat.eq_or_lt_of_le low with rfl | behind
        · exact first
        · rw [← before i behind]
          exact set i (by omega) (by omega)
      · rw [← before _ (by omega),show bits + (k + 1) = bits + 1 + k by omega]
        exact stop (by omega)

/-! ### Counting clear bits -/

/-- The clear bits among the `mask_count` bits of the map. -/
def clearBits (b : cl_bitmap) : Finset Nat := (Finset.range b.mask_count).filter (fun i => test_bit i b.bitmap = false)

theorem clearBits_card_le (b : cl_bitmap) : (clearBits b).card ≤ b.mask_count :=
  (Finset.card_filter_le ..).trans (Finset.card_range _).le

theorem clearBits_claimed {b b' : cl_bitmap} {first count : Nat} (claimed : Claimed b b' first count) :
    (clearBits b').card + count = (clearBits b).card := by
  have parts : clearBits b = clearBits b' ∪ Finset.Ico first (first + count) := by
    ext i
    have within := claimed.within
    simp only [clearBits,Finset.mem_union,Finset.mem_filter,Finset.mem_range,Finset.mem_Ico,claimed.mask,claimed.bits,
      Bool.or_eq_false_iff,decide_eq_false_iff_not]
    constructor
    · rintro ⟨inside,clear⟩
      by_cases taken : first ≤ i ∧ i < first + count
      · exact .inr taken
      · exact .inl ⟨inside,taken,clear⟩
    · rintro (⟨inside,_,clear⟩ | taken)
      · exact ⟨inside,clear⟩
      · exact ⟨by omega,claimed.fresh i taken.1 taken.2⟩
  have apart : Disjoint (clearBits b') (Finset.Ico first (first + count)) := by
    rw [Finset.disjoint_left]
    intro i clear taken
    simp only [clearBits,Finset.mem_filter,Finset.mem_Ico] at clear taken
    have set := claimed.bits i
    rw [decide_eq_true taken,clear.2] at set
    cases set
  rw [parts,Finset.card_union_of_disjoint apart,Nat.card_Ico]
  omega

/-- The clear bits that come with a range that was set, as far as it lies in the map. -/
theorem clearBits_released {b b' : cl_bitmap} {first k : Nat} (released : Released b b' first k)
    (set : ∀ i, first ≤ i → i < first + k → test_bit i b.bitmap = true) :
    (clearBits b').card = (clearBits b).card + (min (first + k) b.mask_count - first) := by
  have parts : clearBits b' = clearBits b ∪ Finset.Ico first (min (first + k) b.mask_count) := by
    ext i
    simp only [clearBits,Finset.mem_union,Finset.mem_filter,Finset.mem_range,Finset.mem_Ico,released.mask,released.bits,
      Bool.and_eq_false_iff,Bool.not_eq_false',decide_eq_true_eq,lt_min_iff]
    constructor
    · rintro ⟨inside,given | clear⟩
      · exact .inr ⟨given.1,given.2,inside⟩
      · exact .inl ⟨inside,clear⟩
    · rintro (⟨inside,clear⟩ | ⟨low,high,inside⟩)
      · exact ⟨inside,.inr clear⟩
      · exact ⟨inside,.inl ⟨low,high⟩⟩
  have apart : Disjoint (clearBits b) (Finset.Ico first (min (first + k) b.mask_count)) := by
    rw [Finset.disjoint_left]
    intro i clear given
    simp only [clearBits,Finset.mem_filter,Finset.mem_Ico,lt_min_iff] at clear given
    rw [set i given.1 given.2.1] at clear
    cases clear.2
  rw [parts,Finset.card_union_of_disjoint apart,Nat.card_Ico]

/-- Releasing bits that are all set is claiming them read backwards. -/
theorem claimed_of_released {b b' : cl_bitmap} {first count : Nat} (released : Released b b' first count)
    (within : first + count ≤ b.mask_count) (set : ∀ i, first ≤ i → i < first + count → test_bit i b.bitmap = true) :
    Claimed b' b first count where
  mask := released.mask.symm
  within := by rw [released.mask]; exact within
  fresh := by
    intro i low high
    rw [released.bits i,decide_eq_true ⟨low,high⟩]
    rfl
  bits := by
    intro i
    rw [released.bits i]
    by_cases taken : first ≤ i ∧ i < first + count
    · rw [set i taken.1 taken.2]; simp [taken]
    · simp [taken]

end GridOS.Bitmap
