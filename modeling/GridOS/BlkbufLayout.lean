import GridOS.Blkbuf
import Mathlib.Order.Bounds.Basic

/-!
How many blocks fit into a memory together with what manages them. `cl_bkb_extend` counts down from an estimate in
unsigned arithmetic, `cl_bitmap_adaption` of `source/libs/common/cpu/bitmap.c` counts up from 1 in signed arithmetic.
-/
namespace GridOS.Bitmap
open GridOS.Words GridOS.Bits GridOS.Blkbuf

/-- `cl_bitmap_calc_size` of an `int`. -/
def calc_size_int (mask_count : Int) : Int :=
  if mask_count % 8 ≠ 0 then mask_count.tdiv 8 + 1 else mask_count.tdiv 8

/-- The loop of `cl_bitmap_adaption`: the count behind it; `none` when it has not ended within the fuel. -/
def adaption_rounds (buffer_size block_size : Int) : Nat → Int → Option Int
  | 0, _ => none
  | fuel+1, cur_count =>
    if signed (calc_size_int cur_count + signed (cur_count * block_size)) > buffer_size then some (signed (cur_count - 1))
    else adaption_rounds buffer_size block_size fuel (signed (cur_count + 1))

/-- What is returned, and the bitmap; `content` is what the memory of its bits holds. -/
def cl_bitmap_adaption (fuel : Nat) (content : Nat → Words) (bitmap : cl_bitmap) (buffer : Nat)
    (buffer_size block_size : Int) : Option (Bool × cl_bitmap) :=
  if unsigned block_size % 4 ≠ 0 then some (false,bitmap) else
  if buffer % 4 ≠ 0 then some (false,bitmap) else
  (adaption_rounds buffer_size block_size fuel 1).map (fun cur_count =>
    if cur_count = 0 then (false,bitmap) else
      (true,{ bitmap with
        bitmap := clear_bytes (content (add buffer (unsigned (cur_count * block_size)))) (unsigned (calc_size_int cur_count))
        mask_count := unsigned cur_count }))

theorem calc_size_mono {a b : Nat} (le : a ≤ b) : cl_bitmap_calc_size a ≤ cl_bitmap_calc_size b := by
  unfold cl_bitmap_calc_size
  split <;> split <;> omega

theorem calc_size_succ (a : Nat) : cl_bitmap_calc_size (a+1) ≤ cl_bitmap_calc_size a + 1 := by
  unfold cl_bitmap_calc_size
  split <;> split <;> omega

theorem calc_size_int_nat (count : Nat) : calc_size_int count = cl_bitmap_calc_size count := by
  have quotient : Int.tdiv (count : Int) 8 = ((count / 8 : Nat) : Int) := Int.ofNat_tdiv count 8
  unfold calc_size_int cl_bitmap_calc_size
  rw [quotient]
  split <;> split <;> omega

end GridOS.Bitmap

namespace GridOS.Blkbuf
open GridOS.Words GridOS.Bits GridOS.Bitmap

/-! ### Counting down -/

/-- The bytes that `count` blocks take with their manager and their bitmap, as a number. -/
def need (node_size count : Nat) : Nat := count * node_size + sizeof_instance + cl_bitmap_calc_size count

theorem need_zero (node_size : Nat) : need node_size 0 = sizeof_instance := by
  simp [need,cl_bitmap_calc_size]

theorem need_mono (node_size : Nat) {a b : Nat} (le : a ≤ b) : need node_size a ≤ need node_size b := by
  have blocks := Nat.mul_le_mul_right node_size le
  have bits := calc_size_mono le
  unfold need
  omega

theorem total_size_need (node_size count : Nat) : total_size node_size count = need node_size count % modulus := by
  unfold total_size need add modulus
  omega

/-- What fits is not more than the estimate. -/
theorem le_estimate {node_size size count : Nat} (positive : 0 < node_size) (fits : need node_size count ≤ size) :
    count ≤ size / node_size := by
  rw [Nat.le_div_iff_mul_le positive]
  unfold need at fits
  omega

/-- The loop ends at the largest count that fits, from any count that does not wrap on. -/
theorem fit_rounds_largest {node_size size : Nat} (room : sizeof_instance ≤ size) {count : Nat}
    (word : count < modulus) (whole : need node_size count < modulus) : ∃ best,
      fit_rounds node_size size (count + 1) count = some best ∧ IsGreatest {c | c ≤ count ∧ need node_size c ≤ size} best := by
  induction count with
  | zero =>
    rw [fit_rounds,total_size_need,Nat.mod_eq_of_lt whole,need_zero,if_neg (by omega)]
    exact ⟨0,rfl,⟨le_rfl,(need_zero node_size).trans_le room⟩,fun c fits => fits.1⟩
  | succ count ih =>
    rw [fit_rounds,total_size_need,Nat.mod_eq_of_lt whole]
    by_cases large : need node_size (count+1) > size
    · obtain ⟨best,done,⟨below,fits⟩,most⟩ := ih (Nat.lt_of_succ_lt word)
        ((need_mono node_size (Nat.le_succ count)).trans_lt whole)
      have step : sub (count+1) 1 = count := sub_exact (Nat.le_add_left ..) word
      rw [if_pos large,step,done]
      refine ⟨best,rfl,⟨by omega,fits⟩,fun c fits => most ⟨?_,fits.2⟩⟩
      rcases Nat.lt_or_eq_of_le fits.1 with less | rfl
      · exact Nat.le_of_lt_succ less
      · exact absurd fits.2 (by omega)
    · rw [if_neg large]
      exact ⟨count+1,rfl,⟨le_rfl,by omega⟩,fun c fits => fits.1⟩

/-- The loop has ended at the largest count that fits. -/
theorem fit_rounds_fits {node_size size fuel count best : Nat} (room : sizeof_instance ≤ size) (word : count < modulus)
    (whole : need node_size count < modulus) (done : fit_rounds node_size size fuel count = some best) :
    need node_size best ≤ size ∧ ∀ c ≤ count, need node_size c ≤ size → c ≤ best := by
  induction fuel generalizing count with
  | zero => cases done
  | succ fuel ih =>
    rw [fit_rounds,total_size_need,Nat.mod_eq_of_lt whole] at done
    split at done
    · next large =>
      have some_left : 1 ≤ count := by
        by_contra none_left
        rw [show count = 0 by omega,need_zero] at large
        omega
      rw [sub_exact some_left word] at done
      obtain ⟨fits,most⟩ := ih (by omega) ((need_mono node_size (Nat.sub_le ..)).trans_lt whole) done
      refine ⟨fits,fun c below other => most c ?_ other⟩
      rcases Nat.lt_or_eq_of_le below with less | rfl
      · exact Nat.le_sub_one_of_lt less
      · exact absurd other (by omega)
    · next fits =>
      rw [← Option.some.inj done]
      exact ⟨not_lt.mp fits,fun c below _ => below⟩

/-- An estimate that wraps looks as if it fitted. -/
theorem total_size_wrapped {node_size size count : Nat} (word : size < modulus) (estimate : count * node_size ≤ size)
    (few : count ≤ size) (wraps : modulus ≤ need node_size count) : total_size node_size count ≤ size := by
  rw [total_size_need]
  unfold need cl_bitmap_calc_size sizeof_instance modulus at *
  split at wraps <;> split <;> omega

theorem fit_rounds_wrapped {node_size size count fuel : Nat} (word : size < modulus) (estimate : count * node_size ≤ size)
    (few : count ≤ size) (wraps : modulus ≤ need node_size count) {best : Nat}
    (done : fit_rounds node_size size fuel count = some best) : best = count := by
  have small := total_size_wrapped word estimate few wraps
  cases fuel with
  | zero => cases done
  | succ fuel =>
    rw [fit_rounds,if_neg (by omega)] at done
    exact (Option.some.inj done).symm

/-- The memory gets the largest number of blocks that fits with what manages them, and is left alone when not even the
    manager fits. -/
def Extends (content : Nat → Words) (bkb : cl_bkb) (base size : Nat) : Prop :=
  ∃ fuel bkb', cl_bkb_extend fuel content bkb base size = some bkb' ∧
    if sizeof_instance ≤ size then ∃ count, IsGreatest {c | need bkb.node_size c ≤ size} count ∧
      bkb' = insert_instance bkb (new_instance bkb.node_size content base size count)
    else bkb' = bkb

theorem insert_instance_ne (bkb : cl_bkb) (buf : block_instance) : insert_instance bkb buf ≠ bkb := by
  intro same
  have longer : (insert_instance bkb buf).nexts.length = bkb.nexts.length + 1 := by
    unfold insert_instance
    split <;> simp [*]
  rw [same] at longer
  omega

theorem insert_instance_inj {bkb : cl_bkb} {buf buf' : block_instance}
    (same : insert_instance bkb buf = insert_instance bkb buf') : buf = buf' := by
  have lists := congrArg cl_bkb.nexts same
  unfold insert_instance at lists
  split at lists
  · exact (List.cons.inj lists).1
  · exact (List.cons.inj (List.cons.inj lists).2).1

theorem extends_iff (content : Nat → Words) (bkb : cl_bkb) (base : Nat) {size : Nat} (positive : 0 < bkb.node_size)
    (word : size < modulus) :
    Extends content bkb base size ↔ sizeof_instance ≤ size ∧ need bkb.node_size (size / bkb.node_size) < modulus := by
  constructor
  · rintro ⟨fuel,bkb',done,outcome⟩
    obtain ⟨best,fitted,rfl⟩ := Option.map_eq_some_iff.mp done
    by_cases room : sizeof_instance ≤ size
    · refine ⟨room,?_⟩
      rw [if_pos room] at outcome
      obtain ⟨count,⟨fits,_⟩,same⟩ := outcome
      have chosen : best = count := congrArg (fun buf => buf.bitmap.mask_count) (insert_instance_inj same)
      by_contra wraps
      have estimate := fit_rounds_wrapped word (Nat.div_mul_le_self ..) (Nat.div_le_self ..) (not_lt.mp wraps) fitted
      rw [← estimate,chosen] at wraps
      exact wraps (lt_of_le_of_lt fits word)
    · rw [if_neg room] at outcome
      exact absurd outcome (insert_instance_ne bkb _)
  · rintro ⟨room,whole⟩
    obtain ⟨best,done,⟨_,fits⟩,most⟩ := fit_rounds_largest room (lt_of_le_of_lt (Nat.div_le_self ..) word) whole
    refine ⟨size / bkb.node_size + 1,insert_instance bkb (new_instance bkb.node_size content base size best),?_,?_⟩
    · rw [cl_bkb_extend,done,Option.map_some]
    · rw [if_pos room]
      exact ⟨best,⟨fits,fun c other => most ⟨le_estimate positive other,other⟩⟩,rfl⟩

end GridOS.Blkbuf

namespace GridOS.Bitmap
open GridOS.Words GridOS.Bits GridOS.Blkbuf

/-! ### Counting up -/

/-- The bytes that `count` blocks take with their bitmap, as a number. -/
def taken (block_size : Int) (count : Nat) : Int := count * block_size + cl_bitmap_calc_size count

variable {buffer_size block_size : Int}

theorem taken_mono (positive : 0 < block_size) {a b : Nat} (le : a ≤ b) : taken block_size a ≤ taken block_size b := by
  have blocks : (a : Int) * block_size ≤ b * block_size := Int.mul_le_mul_of_nonneg_right (by omega) positive.le
  have bits := calc_size_mono le
  unfold taken
  omega

theorem taken_succ (block_size : Int) (count : Nat) : taken block_size (count+1) ≤ taken block_size count + block_size + 1 := by
  have blocks : ((count + 1 : Nat) : Int) * block_size = count * block_size + block_size := by push_cast; ring
  have bits := calc_size_succ count
  unfold taken
  omega

theorem le_taken (positive : 0 < block_size) (count : Nat) :
    (count : Int) + cl_bitmap_calc_size count ≤ taken block_size count := by
  have blocks : (count : Int) * 1 ≤ count * block_size := Int.mul_le_mul_of_nonneg_left (by omega) (by omega)
  unfold taken
  omega

/-- What the loop compares, for a count that is not negative. -/
theorem compared (block_size : Int) (count : Nat) :
    signed (calc_size_int count + signed (count * block_size)) = signed (taken block_size count) := by
  rw [calc_size_int_nat]
  unfold taken signed
  omega

theorem signed_exact {n : Int} (low : -2147483648 ≤ n) (high : n ≤ 2147483647) : signed n = n := by
  unfold signed
  omega

/-- With a count that does not fit and can be told, the loop ends one below the first such count. -/
theorem adaption_rounds_ends (positive : 0 < block_size) {count : Nat} (large : buffer_size < taken block_size count)
    (told : taken block_size count ≤ 2147483647) (before : ∀ c < count, 0 < c → taken block_size c ≤ buffer_size)
    {c : Nat} (start : 0 < c) (below : c ≤ count) : ∃ fuel, adaption_rounds buffer_size block_size fuel c = some ((count : Int) - 1) := by
  have small := le_taken positive count
  obtain ⟨more,rfl⟩ : ∃ more, count = c + more := ⟨count - c,by omega⟩
  induction more generalizing c with
  | zero =>
    refine ⟨1,?_⟩
    rw [Nat.add_zero] at *
    rw [adaption_rounds,compared,signed_exact (by omega) told,if_pos large,signed_exact (by omega) (by omega)]
  | succ more ih =>
    obtain ⟨fuel,done⟩ := @ih (c+1) (Nat.succ_pos c) (by rwa [Nat.add_right_comm]) (by rwa [Nat.add_right_comm])
      (by rwa [Nat.add_right_comm]) (by omega) (by rwa [Nat.add_right_comm])
    refine ⟨fuel+1,?_⟩
    have fits := before c (by omega) start
    have low := le_taken positive c
    have word := (taken_mono positive (show c ≤ c + (more+1) by omega)).trans told
    rw [adaption_rounds,compared,signed_exact (by omega) word,if_neg (by omega),signed_exact (by omega) (by omega)]
    rw [Nat.cast_add,Nat.cast_one,Nat.add_right_comm] at done
    exact done

/-- The count behind a loop that has ended. -/
theorem adaption_rounds_ended {fuel : Nat} {c count : Int} (done : adaption_rounds buffer_size block_size fuel c = some count)
    (low : -2147483648 ≤ c) (high : c ≤ 2147483647) : ∃ last, -2147483648 ≤ last ∧ last ≤ 2147483647 ∧
      count = signed (last - 1) ∧ buffer_size < signed (calc_size_int last + signed (last * block_size)) := by
  induction fuel generalizing c with
  | zero => cases done
  | succ fuel ih =>
    rw [adaption_rounds] at done
    split at done
    · next large => exact ⟨c,low,high,(Option.some.inj done).symm,large⟩
    · exact ih done (by unfold signed; omega) (by unfold signed; omega)

/-- The largest number of blocks that fits with its bitmap is chosen, false is returned when none fits, and a buffer that
    is not aligned is refused. -/
def Adapts (content : Nat → Words) (bitmap : cl_bitmap) (buffer : Nat) (buffer_size block_size : Int) : Prop :=
  ∃ fuel r, cl_bitmap_adaption fuel content bitmap buffer buffer_size block_size = some r ∧
    if buffer % 4 ≠ 0 then r = (false,bitmap) else
      (r = (false,bitmap) ∧ ∀ c : Nat, 0 < c → buffer_size < taken block_size c) ∨
      (r.1 = true ∧ IsGreatest {c : Nat | taken block_size c ≤ buffer_size} r.2.mask_count)

/-- The first count from 1 on that does not fit can be told when any such count can. -/
theorem first_large (positive : 0 < block_size) (word : block_size ≤ 2147483646) {count : Nat}
    (large : buffer_size < taken block_size count) (told : taken block_size count ≤ 2147483647) :
    ∃ first, 0 < first ∧ buffer_size < taken block_size first ∧ taken block_size first ≤ 2147483647 ∧
      ∀ c < first, 0 < c → taken block_size c ≤ buffer_size := by
  have one : taken block_size 1 = block_size + 1 := by simp [taken,cl_bitmap_calc_size]
  rcases Nat.eq_zero_or_pos count with rfl | some_
  · have behind := taken_mono positive (Nat.zero_le 1)
    exact ⟨1,Nat.one_pos,by omega,by omega,fun c less positive => by omega⟩
  · have exists_large : ∃ c, 0 < c ∧ buffer_size < taken block_size c := ⟨count,some_,large⟩
    have found := Nat.find_spec exists_large
    have least := Nat.find_min' exists_large ⟨some_,large⟩
    refine ⟨Nat.find exists_large,found.1,found.2,(taken_mono positive least).trans told,?_⟩
    intro c less positive
    exact not_lt.mp (fun other => Nat.find_min exists_large less ⟨positive,other⟩)

theorem adapts_of_told {content : Nat → Words} {bitmap : cl_bitmap} {buffer : Nat} (positive : 0 < block_size)
    (word : block_size ≤ 2147483647) (words : block_size % 4 = 0) (aligned : buffer % 4 = 0) {count : Nat}
    (large : buffer_size < taken block_size count) (told : taken block_size count ≤ 2147483647) :
    Adapts content bitmap buffer buffer_size block_size := by
  obtain ⟨first,start,large,told,before⟩ := first_large positive (by omega) large told
  obtain ⟨fuel,done⟩ := adaption_rounds_ends positive large told before Nat.one_pos start
  have small := le_taken positive first
  have word_multiple : unsigned block_size % 4 = 0 := by unfold unsigned; omega
  rw [Nat.cast_one] at done
  unfold Adapts cl_bitmap_adaption
  refine ⟨fuel,?_⟩
  rw [if_neg (by omega),if_neg (by omega),done]
  refine ⟨_,rfl,?_⟩
  rw [if_neg (by omega)]
  dsimp only
  by_cases none_fits : (first : Int) - 1 = 0
  · rw [if_pos none_fits]
    refine .inl ⟨rfl,fun c some_ => large.trans_le (taken_mono positive ?_)⟩
    omega
  · rw [if_neg none_fits]
    have chosen : unsigned ((first : Int) - 1) = first - 1 := by unfold unsigned; omega
    refine .inr ⟨rfl,?_⟩
    dsimp only
    rw [chosen]
    refine ⟨before _ (by omega) (by omega),fun c fits => ?_⟩
    by_contra more
    have behind := taken_mono positive (show first ≤ c by omega)
    have fits : taken block_size c ≤ buffer_size := fits
    omega

theorem told_of_adapts {content : Nat → Words} {bitmap : cl_bitmap} {buffer : Nat} (positive : 0 < block_size)
    (word : block_size ≤ 2147483647) (words : block_size % 4 = 0) (high : buffer_size ≤ 2147483647) (aligned : buffer % 4 = 0)
    (adapts : Adapts content bitmap buffer buffer_size block_size) :
    ∃ count : Nat, buffer_size < taken block_size count ∧ taken block_size count ≤ 2147483647 := by
  obtain ⟨fuel,r,done,outcome⟩ := adapts
  have word_multiple : unsigned block_size % 4 = 0 := by unfold unsigned; omega
  rw [if_neg (by omega)] at outcome
  rw [cl_bitmap_adaption,if_neg (by omega),if_neg (by omega)] at done
  obtain ⟨count,ended,rfl⟩ := Option.map_eq_some_iff.mp done
  obtain ⟨last,low,high',rfl,large⟩ := adaption_rounds_ended ended (by omega) (by omega)
  by_contra never
  have untold (c : Nat) (behind : buffer_size < taken block_size c) : 2147483647 < taken block_size c :=
    not_le.mp (fun told => never ⟨c,behind,told⟩)
  have nonnegative : 0 ≤ buffer_size := by
    by_contra negative
    have zero : taken block_size 0 = 0 := by simp [taken,cl_bitmap_calc_size]
    have large := untold 0 (by omega)
    omega
  -- the loop has ended behind a count that fits, and what comes next wraps to a negative number
  have ended_behind (m : Nat) (fits : taken block_size m ≤ buffer_size) (at_ : last = (m : Int) + 1) : False := by
    have next := taken_succ block_size m
    rw [at_,← Nat.cast_one,← Nat.cast_add,compared] at large
    by_cases behind : buffer_size < taken block_size (m+1)
    · have above := untold (m+1) behind
      unfold signed at large
      omega
    · have low := le_taken positive (m+1)
      rw [signed_exact (by omega) (by omega)] at large
      exact behind large
  rcases outcome with ⟨refused,_⟩ | ⟨chosen,greatest⟩
  · have none_left : signed (last - 1) = 0 := by
      by_contra some_left
      rw [if_neg some_left] at refused
      cases refused
    refine ended_behind 0 (by simpa [taken,cl_bitmap_calc_size] using nonnegative) ?_
    unfold signed at none_left
    omega
  · by_cases none_left : signed (last - 1) = 0
    · rw [if_pos none_left] at chosen
      cases chosen
    rw [if_neg none_left] at greatest
    have fits : taken block_size (unsigned (signed (last - 1))) ≤ buffer_size := greatest.1
    have small := le_taken positive (unsigned (signed (last - 1)))
    refine ended_behind _ fits ?_
    have bits : 0 < unsigned (signed (last - 1)) → 0 < cl_bitmap_calc_size (unsigned (signed (last - 1))) := by
      unfold cl_bitmap_calc_size
      split <;> omega
    unfold unsigned signed at *
    omega

end GridOS.Bitmap

namespace GridOS.Blkbuf
open GridOS.Words GridOS.Bits GridOS.Bitmap

/-- The two loops find the largest count exactly when there is room for the manager and the estimate does not wrap, and
    when a count that does not fit can be told before the sum overflows. -/
theorem layout_iff (content : Nat → Words) (bkb : cl_bkb) (base size : Nat) (bitmap : cl_bitmap) (buffer : Nat)
    (buffer_size block_size : Int) (positive : 0 < bkb.node_size) (word : size < modulus) (some_block : 0 < block_size)
    (block_int : block_size ≤ 2147483647) (words : block_size % 4 = 0) (buffer_int : buffer_size ≤ 2147483647) :
    (Extends content bkb base size ↔ sizeof_instance ≤ size ∧ need bkb.node_size (size / bkb.node_size) < modulus) ∧
    (Adapts content bitmap buffer buffer_size block_size ↔ buffer % 4 ≠ 0 ∨
      ∃ count : Nat, buffer_size < taken block_size count ∧ taken block_size count ≤ 2147483647) := by
  refine ⟨extends_iff content bkb base positive word,?_⟩
  by_cases aligned : buffer % 4 = 0
  · rw [or_iff_right (not_not.mpr aligned)]
    exact ⟨told_of_adapts some_block block_int words buffer_int aligned,
      fun ⟨count,large,told⟩ => adapts_of_told some_block block_int words aligned large told⟩
  · have word_multiple : unsigned block_size % 4 = 0 := by unfold unsigned; omega
    refine iff_of_true ⟨0,(false,bitmap),?_,?_⟩ (.inl aligned)
    · rw [cl_bitmap_adaption,if_neg (by omega),if_pos aligned]
    · rw [if_pos aligned]

/-- A page of blocks of 64 bytes, and a buffer of 1000 bytes for blocks of 8. -/
theorem layout_iff_page : Extends (fun _ _ => 0) (cl_bkb_init 64) 4096 4096 ∧
    Adapts (fun _ _ => 0) ⟨fun _ => 0,0,0⟩ 4096 1000 8 := by
  have both := layout_iff (fun _ _ => 0) (cl_bkb_init 64) 4096 4096 ⟨fun _ => 0,0,0⟩ 4096 1000 8 (by decide) (by decide)
    (by decide) (by decide) (by decide) (by decide)
  exact ⟨both.1.mpr (by decide),both.2.mpr (.inr ⟨1000,by decide,by decide⟩)⟩

/-- Memory of 39 bytes has no room for the manager; the count wraps below 0 and an instance is made nevertheless. -/
theorem short_memory_extended : ¬Extends (fun _ _ => 0) (cl_bkb_init 8) 4096 39 := by
  rw [extends_iff _ _ _ (by decide) (by decide)]
  decide

end GridOS.Blkbuf
