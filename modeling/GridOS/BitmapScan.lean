import GridOS.Bitmap

/-!
When the search of `cl_bitmap_alloc_consistant_bits` ends. A run that is too short sends it back to
`restart_scan`, and at the end of the map it starts once more from 0. Only one of the two ways to get there
is remembered in `scan_flag`: when the last bit of the map is set, it is the other one every time.
-/
namespace GridOS.BitmapScan
open GridOS.Bits
open GridOS.Bitmap

/-- `count` clear bits of the map from `first` on. -/
def Free (b : cl_bitmap) (first count : Nat) : Prop :=
  first + count ≤ b.mask_count ∧ ∀ i, first ≤ i → i < first + count → test_bit i b.bitmap = false

/-- The call returns. -/
def Returns (b : cl_bitmap) (count : Int) : Prop := ∃ fuel, (cl_bitmap_alloc_consistant_bits fuel b count).isSome

/-- There is nothing to find, or something, or the map ends in a clear bit. -/
def Ends (b : cl_bitmap) (count : Int) : Prop :=
  (∀ i < b.mask_count, test_bit i b.bitmap = true) ∨ (∃ first, Free b first count.toNat) ∨
    test_bit (b.mask_count - 1) b.bitmap = false

/-! ### One round -/

/-- Where a round starts: at the first clear bit from the hint on, or at the first one of all when there is none. -/
structure Start (b : cl_bitmap) (first : Nat) : Prop where
  inside : first < b.mask_count
  clear : test_bit first b.bitmap = false
  from_hint : (b.last_bit ≤ first ∧ ∀ i, b.last_bit ≤ i → i < first → test_bit i b.bitmap = true) ∨
    ((∀ i, b.last_bit ≤ i → i < b.mask_count → test_bit i b.bitmap = true) ∧ ∀ i < first, test_bit i b.bitmap = true)

/-- What a round from the label `restart_scan` does: it ends the search, or goes on from another hint. -/
inductive Round (b : cl_bitmap) (count : Int) (scan_flag : Bool) : Prop
  | full (set : ∀ i < b.mask_count, test_bit i b.bitmap = true)
      (done : ∀ fuel, (restart_scan (fuel+1) b count scan_flag).isSome)
  | found (first : Nat) (start : Start b first) (free : Free b first count.toNat)
      (done : ∀ fuel, (restart_scan (fuel+1) b count scan_flag).isSome)
  | tail (first : Nat) (start : Start b first) (clear : ∀ i, first ≤ i → i < b.mask_count → test_bit i b.bitmap = false)
      (few : b.mask_count < first + count.toNat)
      (again : scan_flag = false → ∀ fuel,
        restart_scan (fuel+1) b count scan_flag = restart_scan fuel { b with last_bit := 0 } count true)
      (done : scan_flag = true → ∀ fuel, (restart_scan (fuel+1) b count scan_flag).isSome)
  | short (first last_bit : Nat) (start : Start b first) (later : first < last_bit) (inside : last_bit ≤ b.mask_count)
      (clear : ∀ i, first ≤ i → i + 1 < last_bit → test_bit i b.bitmap = false)
      (set : test_bit (last_bit - 1) b.bitmap = true) (few : last_bit ≤ first + count.toNat)
      (again : ∀ fuel,
        restart_scan (fuel+1) b count scan_flag = restart_scan fuel { b with last_bit } count scan_flag)

/-- The search of a round. -/
def search (b : cl_bitmap) : Nat :=
  if cl_find_next_zero_bit b.bitmap b.mask_count b.last_bit = b.mask_count then
    cl_find_next_zero_bit b.bitmap b.mask_count 0 else
    cl_find_next_zero_bit b.bitmap b.mask_count b.last_bit

theorem restart_scan_full {b : cl_bitmap} (none : search b = b.mask_count) (count : Int) (scan_flag : Bool) (fuel : Nat) :
    restart_scan (fuel+1) b count scan_flag = some (HAL_BITMAP_ALLOC_BIT_ERROR,{ b with last_bit := 0 }) := by
  rw [restart_scan]
  dsimp only
  rw [← search,if_pos none]

/-- A round that meets a set bit behind the clear one starts another one there. -/
theorem restart_scan_met {b : cl_bitmap} {count : Int} {last_bit : Nat} (found : search b ≠ b.mask_count)
    (met : extend { b with last_bit := search b } count (b.mask_count - (search b + 1)) (search b + 1) 0 = .error last_bit)
    (scan_flag : Bool) (fuel : Nat) :
    restart_scan (fuel+1) b count scan_flag = restart_scan fuel { b with last_bit } count scan_flag := by
  rw [restart_scan]
  dsimp only
  rw [← search,if_neg found,met]

theorem restart_scan_reached {b : cl_bitmap} {count : Int} {i temp_count : Nat} (found : search b ≠ b.mask_count)
    (reached : extend { b with last_bit := search b } count (b.mask_count - (search b + 1)) (search b + 1) 0 =
      .ok (i,temp_count)) (scan_flag : Bool) (fuel : Nat) :
    restart_scan (fuel+1) b count scan_flag =
      if i = b.mask_count ∧ (temp_count + 1 : Int) < count then
        if scan_flag = false then restart_scan fuel { b with last_bit := 0 } count true
        else some (HAL_BITMAP_ALLOC_BIT_ERROR,{ b with last_bit := search b })
      else if (temp_count + 1 : Int) = count then some (search b,set_bits count.toNat { b with last_bit := search b })
      else some (HAL_BITMAP_ALLOC_BIT_ERROR,{ b with last_bit := search b }) := by
  rw [restart_scan]
  dsimp only
  rw [← search,if_neg found,reached]

theorem search_spec (b : cl_bitmap) :
    (search b = b.mask_count → ∀ i < b.mask_count, test_bit i b.bitmap = true) ∧
      (search b ≠ b.mask_count → Start b (search b)) := by
  have hinted := cl_find_next_zero_bit_spec b.bitmap b.mask_count b.last_bit
  have again := cl_find_next_zero_bit_spec b.bitmap b.mask_count 0
  unfold search
  split
  · next none =>
    rw [none] at hinted
    constructor
    · intro all i inside
      rw [all] at again
      exact again.filled i (Nat.zero_le _) inside
    · intro found
      have inside := lt_of_le_of_ne again.bound found
      exact ⟨inside,(again.clear inside).2,.inr ⟨hinted.filled,fun i less => again.filled i (Nat.zero_le _) less⟩⟩
  · next found =>
    constructor
    · intro all
      exact absurd all found
    · intro _
      have inside := lt_of_le_of_ne hinted.bound found
      have clear := hinted.clear inside
      exact ⟨inside,clear.2,.inl ⟨clear.1,hinted.filled⟩⟩

/-- A loop that ends has enough bits, or has come to the end of the map with too few. -/
theorem extend_ends {b : cl_bitmap} {count : Int} {rounds i temp_count i' temp' : Nat}
    (stop : i + rounds = b.mask_count) (few : (temp_count + 1 : Int) ≤ count)
    (done : extend b count rounds i temp_count = .ok (i',temp')) :
    (temp' + 1 : Int) = count ∨ i' = b.mask_count ∧ (temp' + 1 : Int) < count := by
  induction rounds generalizing i temp_count with
  | zero =>
    cases done
    omega
  | succ rounds ih =>
    rw [extend] at done
    split at done
    · next enough =>
      cases done
      exact .inl enough
    · next more =>
      split at done
      · cases done
      · exact ih (by omega) (by omega) done

/-- A loop that meets a set bit has passed too few clear ones. -/
theorem extend_meets {b : cl_bitmap} {count : Int} {rounds i temp_count last_bit : Nat}
    (stop : i + rounds = b.mask_count) (few : (temp_count + 1 : Int) ≤ count)
    (met : extend b count rounds i temp_count = .error last_bit) :
    i < last_bit ∧ last_bit ≤ b.mask_count ∧ test_bit (last_bit - 1) b.bitmap = true ∧
      (∀ j, i ≤ j → j + 1 < last_bit → test_bit j b.bitmap = false) ∧ (last_bit + temp_count : Int) < i + count := by
  induction rounds generalizing i temp_count with
  | zero => cases met
  | succ rounds ih =>
    rw [extend] at met
    split at met
    · cases met
    · next more =>
      split at met
      · next set =>
        cases met
        exact ⟨by omega,by omega,set,by intro j low high; omega,by omega⟩
      · next free =>
        obtain ⟨later,inside,set,clear,less⟩ := ih (by omega) (by omega) met
        refine ⟨by omega,inside,set,?_,by omega⟩
        intro j low high
        by_cases first : j = i
        · rw [first]; simpa using free
        · exact clear j (by omega) high

theorem round (b : cl_bitmap) {count : Int} (positive : 1 ≤ count) (scan_flag : Bool) : Round b count scan_flag := by
  obtain ⟨full,start⟩ := search_spec b
  by_cases none : search b = b.mask_count
  · exact .full (full none) (fun fuel => by rw [restart_scan_full none]; rfl)
  have start := start none
  have inside := start.inside
  have first_clear : ∀ j, search b ≤ j → j < search b + 1 → test_bit j b.bitmap = false := by
    intro j low high
    rw [show j = search b by omega]
    exact start.clear
  have stop : search b + 1 + (b.mask_count - (search b + 1)) = b.mask_count := by omega
  have few : ((0 : Nat) + 1 : Int) ≤ count := by omega
  cases extended : extend { b with last_bit := search b } count (b.mask_count - (search b + 1)) (search b + 1) 0 with
  | error last_bit =>
    have next_round := restart_scan_met none extended scan_flag
    obtain ⟨later,within,set,clear,less⟩ := extend_meets (b := { b with last_bit := search b }) stop few extended
    refine .short (search b) last_bit start (by omega) within ?_ set (by omega) next_round
    intro i low high
    by_cases first : i = search b
    · rw [first]; exact start.clear
    · exact clear i (by omega) high
  | ok reached =>
    obtain ⟨i,temp_count⟩ := reached
    have next_round := restart_scan_reached none extended scan_flag
    have start_at : search b + 1 = search b + 1 + 0 := rfl
    obtain ⟨position,bound,run⟩ := extend_spec (b := { b with last_bit := search b }) _ start_at stop first_clear extended
    dsimp only at next_round bound run
    have ends := extend_ends (b := { b with last_bit := search b }) stop few extended
    dsimp only at ends
    rcases ends with enough | short
    · have not_short : ¬(i = b.mask_count ∧ (temp_count + 1 : Int) < count) := by omega
      refine .found (search b) start ⟨by omega,fun j low high => run j low (by omega)⟩ ?_
      intro fuel
      rw [next_round,if_neg not_short,if_pos enough]
      rfl
    · obtain ⟨at_end,too_few⟩ := short
      refine .tail (search b) start (fun j low high => run j low (by rw [at_end]; exact high)) (by omega) ?_ ?_
      · intro first fuel
        rw [next_round,if_pos ⟨at_end,too_few⟩,if_pos first]
      · intro second fuel
        rw [next_round,if_pos ⟨at_end,too_few⟩,if_neg (by simp [second])]
        rfl

/-- More rounds do not change what a search comes to. -/
theorem restart_scan_mono {b : cl_bitmap} {count : Int} {scan_flag : Bool} {fuel more : Nat} {result : Nat × cl_bitmap}
    (less : fuel ≤ more) (done : restart_scan fuel b count scan_flag = some result) :
    restart_scan more b count scan_flag = some result := by
  induction fuel generalizing b scan_flag more with
  | zero => cases done
  | succ fuel ih =>
    obtain ⟨more,rfl⟩ := Nat.exists_eq_add_of_le' less
    have less' : fuel ≤ more + fuel := Nat.le_add_left ..
    rw [← Nat.add_assoc]
    by_cases none : search b = b.mask_count
    · rw [restart_scan_full none] at done ⊢
      exact done
    · cases extended : extend { b with last_bit := search b } count (b.mask_count - (search b + 1)) (search b + 1) 0 with
      | error last_bit =>
        rw [restart_scan_met none extended] at done ⊢
        exact ih less' done
      | ok reached =>
        rw [restart_scan_reached none extended] at done ⊢
        by_cases short : reached.1 = b.mask_count ∧ (reached.2 + 1 : Int) < count
        · rw [if_pos short] at done ⊢
          cases scan_flag with
          | false => exact ih less' done
          | true => exact done
        · rw [if_neg short] at done ⊢
          exact done

/-! ### Rounds that end -/

/-- The search returns from this hint on. -/
def ReturnsFrom (b : cl_bitmap) (count : Int) (last_bit : Nat) (scan_flag : Bool) : Prop :=
  ∃ fuel, (restart_scan fuel { b with last_bit } count scan_flag).isSome

section Ending
variable {b : cl_bitmap} {count : Int} {last_bit : Nat} {scan_flag : Bool}

/-- One more round. -/
theorem returns_again {last_bit' : Nat} {scan_flag' : Bool} (later : ReturnsFrom b count last_bit' scan_flag')
    (again : ∀ fuel, restart_scan (fuel+1) { b with last_bit } count scan_flag =
      restart_scan fuel { b with last_bit := last_bit' } count scan_flag') : ReturnsFrom b count last_bit scan_flag := by
  obtain ⟨fuel,done⟩ := later
  exact ⟨fuel+1,by rw [again]; exact done⟩

theorem returns_full (positive : 1 ≤ count) (set : ∀ i < b.mask_count, test_bit i b.bitmap = true) :
    ReturnsFrom b count last_bit scan_flag := by
  refine ⟨1,?_⟩
  cases round { b with last_bit } positive scan_flag with
  | full _ done => exact done 0
  | found _ _ _ done => exact done 0
  | tail first start => exact absurd start.clear (by rw [set first start.inside]; decide)
  | short first _ start => exact absurd start.clear (by rw [set first start.inside]; decide)

/-- A run that was too short ended at a set bit, so not at the end of a map that ends in a clear one. -/
theorem hint_before_end {last_bit' : Nat} (last_clear : test_bit (b.mask_count - 1) b.bitmap = false)
    (set : test_bit (last_bit' - 1) b.bitmap = true) : last_bit' ≠ b.mask_count := by
  rintro rfl
  rw [last_clear] at set
  cases set

/-- A map that ends in a clear bit: every round is nearer to its end, where the search remembers that it was there. -/
theorem returns_tail (positive : 1 ≤ count) (last_clear : test_bit (b.mask_count - 1) b.bitmap = false)
    (inside : last_bit < b.mask_count) (wrapped : scan_flag = false → ReturnsFrom b count 0 true) :
    ReturnsFrom b count last_bit scan_flag := by
  induction distance : b.mask_count - last_bit using Nat.strong_induction_on generalizing last_bit with
  | h distance ih =>
    cases round { b with last_bit } positive scan_flag with
    | full _ done => exact ⟨1,done 0⟩
    | found _ _ _ done => exact ⟨1,done 0⟩
    | tail _ _ _ _ again done =>
      cases scan_flag with
      | false => exact returns_again (wrapped rfl) (again rfl)
      | true => exact ⟨1,done rfl 0⟩
    | short first last_bit' start later within _ set _ again =>
      dsimp only at within set
      have before_end := hint_before_end last_clear set
      have forward : last_bit ≤ first := by
        rcases start.from_hint with ⟨low,_⟩ | ⟨filled,_⟩
        · exact low
        · have set := filled (b.mask_count - 1) (by dsimp only; omega) (by dsimp only; omega)
          dsimp only at set
          rw [last_clear] at set
          cases set
      exact returns_again (ih (b.mask_count - last_bit') (by omega) (by omega) rfl) again

/-- The same from any hint, also from the end. -/
theorem returns_clear_end (positive : 1 ≤ count) (last_clear : test_bit (b.mask_count - 1) b.bitmap = false) :
    ReturnsFrom b count last_bit false := by
  by_cases empty : b.mask_count = 0
  · exact returns_full positive (by omega)
  have wrapped : ReturnsFrom b count 0 true := returns_tail positive last_clear (by omega) (fun first => by cases first)
  cases round { b with last_bit } positive false with
  | full _ done => exact ⟨1,done 0⟩
  | found _ _ _ done => exact ⟨1,done 0⟩
  | tail _ _ _ _ again done => exact returns_again wrapped (again rfl)
  | short first last_bit' start later within _ set _ again =>
    dsimp only at within set
    have before_end := hint_before_end last_clear set
    exact returns_again (returns_tail positive last_clear (by omega) (fun _ => wrapped)) again

/-- Without a run, and with a set bit at the end of a map that is not full, every round is followed by another one. -/
theorem never_returns (positive : 1 ≤ count) (some_clear : ∃ i < b.mask_count, test_bit i b.bitmap = false)
    (none_free : ∀ first, ¬Free b first count.toNat) (last_set : test_bit (b.mask_count - 1) b.bitmap = true)
    (fuel : Nat) : restart_scan fuel { b with last_bit } count scan_flag = none := by
  induction fuel generalizing last_bit scan_flag with
  | zero => rfl
  | succ fuel ih =>
    cases round { b with last_bit } positive scan_flag with
    | full set =>
      obtain ⟨i,inside,clear⟩ := some_clear
      have set := set i inside
      dsimp only at set
      rw [clear] at set
      cases set
    | found first _ free => exact absurd free (none_free first)
    | tail first start clear =>
      have inside := start.inside
      dsimp only at clear inside
      rw [clear (b.mask_count - 1) (by omega) (by omega)] at last_set
      cases last_set
    | short _ _ _ _ _ _ _ _ again =>
      rw [again]
      exact ih

end Ending

end GridOS.BitmapScan
