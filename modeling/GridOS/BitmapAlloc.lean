import GridOS.BitmapScan
import GridOS.Words

/-!
What the allocations of a bitmap find. The hint may point into the middle of a run of clear bits, and the
search may come to the end of the map before it has seen the bits in front of the hint; it gives up only
when it comes to the end for the second time, after a pass that began at 0.
-/
namespace GridOS.BitmapAlloc
open GridOS.Words GridOS.Bits GridOS.Bitmap GridOS.BitmapScan

/-- The maps made by `cl_bitmap_init` and the operations on bits of the map. The initialization leaves
    the hint as it is: the callers clear the structure before. -/
inductive Reached : cl_bitmap → Prop
  | init (cur_bitmap : cl_bitmap) (bitmap : Words) {mask_count : Nat} (word : mask_count < modulus)
      (hint : cur_bitmap.last_bit ≤ mask_count) : Reached (cl_bitmap_init cur_bitmap bitmap mask_count)
  | alloc_bit {b : cl_bitmap} (reached : Reached b) : Reached (cl_bitmap_alloc_bit b).2
  | alloc_bits {b b' : cl_bitmap} {fuel r : Nat} {count : Int} (reached : Reached b) (positive : 1 ≤ count)
      (done : cl_bitmap_alloc_consistant_bits fuel b count = some (r,b')) : Reached b'
  | dealloc_bit {b : cl_bitmap} {bit : Nat} (reached : Reached b) (inside : bit < b.mask_count) :
      Reached (cl_bitmap_dealloc_bit b bit).2
  | dealloc_bits {b : cl_bitmap} {count bits : Nat} (reached : Reached b) (inside : bits + count ≤ b.mask_count) :
      Reached (cl_bitmap_dealloc_consistent_bits b count bits).2

/-! ### The search -/

/-- How a search ends: with a run that it has claimed, or without one and with none in the map. -/
inductive Outcome (b b' : cl_bitmap) (count r : Nat) : Prop
  | found (claimed : Claimed b b' r count) (hint : b'.last_bit = r + count)
  | refused (error : r = HAL_BITMAP_ALLOC_BIT_ERROR) (same : Same b b') (hint : b'.last_bit ≤ b.mask_count)
      (none : ∀ first, ¬Free b first count)

/-- No run begins in front of `stop`. -/
def Passed (b : cl_bitmap) (count stop : Nat) : Prop := ∀ first < stop, ¬Free b first count

/-- The error is no bit of a map whose length is a word. -/
theorem bit_valid {n i : Nat} (word : n < modulus) (inside : i < n) : i ≠ HAL_BITMAP_ALLOC_BIT_ERROR := by
  unfold HAL_BITMAP_ALLOC_BIT_ERROR
  unfold modulus at word
  omega

/-- A set bit that a run would have to take keeps it from beginning there. -/
theorem not_free {b : cl_bitmap} {first count i : Nat} (low : first ≤ i) (high : i < first + count)
    (set : test_bit i b.bitmap = true) : ¬Free b first count := by
  rintro ⟨_,clear⟩
  rw [clear i low high] at set
  cases set

/-- The bits between the hint and the start of a round are set; and when a round has gone back to 0, all
    bits in front of its start are. -/
theorem passed_start {b : cl_bitmap} {at_ count : Nat} (start : Start b at_) (positive : 0 < count)
    (passed : Passed b count b.last_bit) : Passed b count at_ := by
  intro first before
  rcases start.from_hint with ⟨_,filled⟩ | ⟨_,filled⟩
  · by_cases early : first < b.last_bit
    · exact passed first early
    · exact not_free le_rfl (by omega) (filled first (by omega) before)
  · exact not_free le_rfl (by omega) (filled first before)

/-- Behind the start of a round no run begins up to the set bit that it has met. -/
theorem passed_met {b : cl_bitmap} {at_ last_bit count : Nat} (passed : Passed b count at_)
    (set : test_bit (last_bit - 1) b.bitmap = true) (few : last_bit ≤ at_ + count) : Passed b count last_bit := by
  intro first before
  by_cases early : first < at_
  · exact passed first early
  · exact not_free (i := last_bit - 1) (by omega) (by omega) set

/-- At the end of the map nothing is left. -/
theorem passed_all {b : cl_bitmap} {at_ count : Nat} (passed : Passed b count at_) (few : b.mask_count < at_ + count)
    (first : Nat) : ¬Free b first count := by
  by_cases early : first < at_
  · exact passed first early
  · rintro ⟨room,_⟩
    omega

/-- A full map has no run. -/
theorem full_not_free {b : cl_bitmap} {count : Nat} (positive : 0 < count) (full : ∀ i < b.mask_count, test_bit i b.bitmap = true)
    (first : Nat) : ¬Free b first count := by
  intro free
  have room := free.1
  exact not_free le_rfl (by omega) (full first (by omega)) free

/-- Where the hint stood does not matter for what comes of a search. -/
theorem Outcome.moved {b b' : cl_bitmap} {last_bit count r : Nat} (outcome : Outcome { b with last_bit } b' count r) :
    Outcome b b' count r := by
  cases outcome with
  | found claimed hint => exact .found ⟨claimed.mask,claimed.within,claimed.fresh,claimed.bits⟩ hint
  | refused error same hint none => exact .refused error ⟨same.mask,same.bits⟩ hint none

theorem set_bits_last_bit (count : Nat) (b : cl_bitmap) : (set_bits count b).last_bit = b.last_bit + count := by
  induction count generalizing b with
  | zero => rfl
  | succ count ih =>
    rw [set_bits,ih]
    dsimp only
    omega

/-- The bits that a round has found are claimed. -/
theorem set_bits_claimed {b : cl_bitmap} {first count : Nat} (free : Free b first count) :
    Claimed b (set_bits count { b with last_bit := first }) first count := by
  obtain ⟨mask,bits⟩ := set_bits_spec count { b with last_bit := first }
  exact ⟨mask,free.1,free.2,bits⟩

/-- The rounds of a search: from the moment when `scan_flag` is set, every bit from 0 on has been looked at. -/
theorem restart_scan_outcome {fuel : Nat} {b b' : cl_bitmap} {count : Int} {scan_flag : Bool} {r : Nat}
    (positive : 1 ≤ count) (passed : scan_flag = true → Passed b count.toNat b.last_bit)
    (done : restart_scan fuel b count scan_flag = some (r,b')) : Outcome b b' count.toNat r := by
  induction fuel generalizing b scan_flag with
  | zero => cases done
  | succ fuel ih =>
    have again : ∀ {last_bit : Nat} {flag : Bool}, (flag = true → Passed b count.toNat last_bit) →
        restart_scan fuel { b with last_bit } count flag = some (r,b') → Outcome b b' count.toNat r :=
      fun passed done => (ih passed done).moved
    obtain ⟨full,start⟩ := search_spec b
    by_cases none : search b = b.mask_count
    · rw [restart_scan_full none] at done
      cases done
      exact .refused rfl ⟨rfl,rfl⟩ (Nat.zero_le _) (full_not_free (by omega) (full none))
    have start := start none
    have inside := start.inside
    have stop : search b + 1 + (b.mask_count - (search b + 1)) = b.mask_count := by omega
    have one : ((0 : Nat) + 1 : Int) ≤ count := by omega
    have before : scan_flag = true → Passed b count.toNat (search b) := fun flag => passed_start start (by omega) (passed flag)
    cases extended : extend { b with last_bit := search b } count (b.mask_count - (search b + 1)) (search b + 1) 0 with
    | error last_bit =>
      rw [restart_scan_met none extended] at done
      obtain ⟨_,_,set,_,less⟩ := extend_meets (b := { b with last_bit := search b }) stop one extended
      exact again (fun flag => passed_met (before flag) set (by omega)) done
    | ok reached =>
      obtain ⟨i,temp_count⟩ := reached
      have first_clear : ∀ j, search b ≤ j → j < search b + 1 → test_bit j b.bitmap = false := by
        intro j low high
        rw [show j = search b by omega]
        exact start.clear
      have position : search b + 1 = search b + 1 + 0 := rfl
      obtain ⟨at_i,bound,run⟩ := extend_spec (b := { b with last_bit := search b }) _ position stop first_clear extended
      dsimp only at bound run
      rw [restart_scan_reached none extended] at done
      rcases extend_ends (b := { b with last_bit := search b }) stop one extended with enough | ⟨at_end,few⟩
      · rw [if_neg (by omega),if_pos enough] at done
        simp only [Option.some.injEq,Prod.mk.injEq] at done
        obtain ⟨rfl,rfl⟩ := done
        have free : Free b (search b) count.toNat := ⟨by omega,fun j low high => run j low (by omega)⟩
        exact .found (set_bits_claimed free) (set_bits_last_bit ..)
      · dsimp only at at_end
        rw [if_pos ⟨at_end,few⟩] at done
        cases flag : scan_flag with
        | false =>
          rw [if_pos flag] at done
          exact again (fun _ first less => absurd less (Nat.not_lt_zero _)) done
        | true =>
          rw [if_neg (by simp [flag])] at done
          simp only [Option.some.injEq,Prod.mk.injEq] at done
          obtain ⟨rfl,rfl⟩ := done
          exact .refused rfl ⟨rfl,rfl⟩ inside.le (passed_all (before flag) (by omega))

/-! ### The states -/

theorem dealloc_bit_hint (b : cl_bitmap) (bit : Nat) : (cl_bitmap_dealloc_bit b bit).2.mask_count = b.mask_count ∧
    (cl_bitmap_dealloc_bit b bit).2.last_bit ≤ b.last_bit := by
  unfold cl_bitmap_dealloc_bit
  split
  · exact ⟨rfl,le_rfl⟩
  · refine ⟨rfl,?_⟩
    dsimp only
    split <;> omega

theorem dealloc_bits_hint (b : cl_bitmap) (count bits : Nat) :
    (cl_bitmap_dealloc_consistent_bits b count bits).2.mask_count = b.mask_count ∧
      (cl_bitmap_dealloc_consistent_bits b count bits).2.last_bit ≤ b.last_bit := by
  induction count generalizing b bits with
  | zero => exact ⟨rfl,le_rfl⟩
  | succ count ih =>
    obtain ⟨mask,hint⟩ := dealloc_bit_hint b bits
    rw [cl_bitmap_dealloc_consistent_bits]
    dsimp only
    split
    · exact ⟨mask,hint⟩
    · obtain ⟨mask',hint'⟩ := ih (cl_bitmap_dealloc_bit b bits).2 (bits+1)
      exact ⟨mask'.trans mask,hint'.trans hint⟩

/-- The hint stays in the map, or at its end. -/
theorem Reached.hint {b : cl_bitmap} (reached : Reached b) : b.mask_count < modulus ∧ b.last_bit ≤ b.mask_count := by
  induction reached with
  | init cur_bitmap bitmap word hint => exact ⟨word,hint⟩
  | alloc_bit _ ih =>
    rename_i b _
    rcases cl_bitmap_alloc_bit_spec b with ⟨bit,got,inside,_⟩ | ⟨got,_⟩
    · rw [got]
      exact ⟨ih.1,inside⟩
    · rw [got]
      exact ⟨ih.1,Nat.zero_le _⟩
  | alloc_bits _ positive done ih =>
    cases restart_scan_outcome positive (fun flag => by cases flag) done with
    | found claimed hint => exact ⟨by rw [claimed.mask]; exact ih.1,by rw [hint,claimed.mask]; exact claimed.within⟩
    | refused _ same hint _ => exact ⟨by rw [same.mask]; exact ih.1,by rw [same.mask]; exact hint⟩
  | dealloc_bit _ _ ih =>
    rename_i b bit _ _
    obtain ⟨mask,hint⟩ := dealloc_bit_hint b bit
    exact ⟨by rw [mask]; exact ih.1,by rw [mask]; exact hint.trans ih.2⟩
  | dealloc_bits _ _ ih =>
    rename_i b count bits _ _
    obtain ⟨mask,hint⟩ := dealloc_bits_hint b count bits
    exact ⟨by rw [mask]; exact ih.1,by rw [mask]; exact hint.trans ih.2⟩

end GridOS.BitmapAlloc
