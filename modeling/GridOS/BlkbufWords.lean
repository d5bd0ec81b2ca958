import GridOS.BlkbufLayout

/-!
Where the bit primitives reach. The layouts count the bytes of a bitmap, and the primitives read and write its words:
the last one sticks out of the memory when the blocks leave less behind the bytes of the bitmap than a word needs.
-/
namespace GridOS.Bits

/-- The words that `scan` reads. -/
def scan_reads (addr : Words) : Nat → Nat → Nat → List Nat
  | rounds, p, size =>
    if size < BITS_PER_LONG then if size = 0 then [] else [p] else
    if addr p ≠ BitVec.allOnes 32 then [p] else
    match rounds with
    | 0 => [p]
    | rounds+1 => p :: scan_reads addr rounds (p+1) (size - BITS_PER_LONG)

/-- The words that `cl_find_next_zero_bit` reads. -/
def find_next_zero_bit_reads (addr : Words) (size offset : Nat) : List Nat :=
  let p := offset / BITS_PER_LONG
  let result := offset - offset % BITS_PER_LONG
  if offset ≥ size then [] else
  let size := size - result
  let offset := offset % BITS_PER_LONG
  if offset ≠ 0 then
    let tmp := addr p ||| (BitVec.allOnes 32 >>> (BITS_PER_LONG - offset))
    if size < BITS_PER_LONG then [p] else
    if tmp ≠ BitVec.allOnes 32 then [p] else
    p :: scan_reads addr (size / BITS_PER_LONG) (p+1) (size - BITS_PER_LONG)
  else scan_reads addr (size / BITS_PER_LONG) p size

/-- The words of an array of `mask_count` bits that a primitive reads or writes. -/
inductive Accessed (mask_count : Nat) : Nat → Prop
  | bit {nr : Nat} (inside : nr < mask_count) : Accessed mask_count (nr / BITS_PER_LONG)
  | scan {addr : Words} {offset w : Nat} (read : w ∈ find_next_zero_bit_reads addr mask_count offset) :
      Accessed mask_count w

theorem read_inside {p size w : Nat} (some_left : 0 < size) (member : w ∈ [p]) :
    w * BITS_PER_LONG < p * BITS_PER_LONG + size := by
  rw [List.mem_singleton.mp member]
  exact Nat.lt_add_of_pos_right some_left

theorem scan_reads_inside {addr : Words} {rounds p size w : Nat} (read : w ∈ scan_reads addr rounds p size) :
    w * BITS_PER_LONG < p * BITS_PER_LONG + size := by
  have positive : 0 < BITS_PER_LONG := by decide
  induction rounds generalizing p size with
  | zero =>
    unfold scan_reads at read
    split at read
    · split at read
      · cases read
      · exact read_inside (by omega) read
    · split at read <;> exact read_inside (by omega) read
  | succ rounds ih =>
    unfold scan_reads at read
    split at read
    · split at read
      · cases read
      · exact read_inside (by omega) read
    · split at read
      · exact read_inside (by omega) read
      · rcases List.mem_cons.mp read with rfl | later
        · omega
        · have behind := ih later
          rw [Nat.succ_mul] at behind
          omega

/-- The accessed words are those that hold a bit of the array. -/
theorem accessed_iff (mask_count w : Nat) : Accessed mask_count w ↔ w * BITS_PER_LONG < mask_count := by
  constructor
  · rintro (⟨inside⟩ | ⟨read⟩)
    · unfold BITS_PER_LONG
      omega
    · rename_i addr offset
      unfold find_next_zero_bit_reads at read
      have front : offset / BITS_PER_LONG * BITS_PER_LONG = offset - offset % BITS_PER_LONG := by
        have := Nat.div_add_mod' offset BITS_PER_LONG
        omega
      dsimp only at read
      split at read
      · cases read
      next less =>
      have first : offset / BITS_PER_LONG * BITS_PER_LONG < mask_count := by omega
      split at read
      · split at read
        · rwa [List.mem_singleton.mp read]
        · split at read
          · rwa [List.mem_singleton.mp read]
          · rcases List.mem_cons.mp read with rfl | later
            · exact first
            · have behind := scan_reads_inside later
              rw [Nat.succ_mul] at behind
              omega
      · have behind := scan_reads_inside read
        omega
  · intro inside
    have first := Accessed.bit inside
    rwa [Nat.mul_div_cancel w (by decide)] at first

end GridOS.Bits

namespace GridOS.Blkbuf
open GridOS.Words GridOS.Bits GridOS.Bitmap

/-- The bytes of the words that hold `mask_count` bits. -/
def word_bytes (mask_count : Nat) : Nat := 4 * ((mask_count + 31) / 32)

/-- Every accessed word of the bitmap at `addr` lies in the memory of `size` bytes at `base`. -/
def WordsInside (base : Nat) (size : Int) (addr mask_count : Nat) : Prop :=
  ∀ w, Accessed mask_count w → base ≤ add addr (4 * w) ∧ (add addr (4 * w) : Int) + 4 ≤ base + size

theorem word_bytes_mono {a b : Nat} (le : a ≤ b) : word_bytes a ≤ word_bytes b := by
  unfold word_bytes
  omega

/-- A bitmap whose bytes are in the memory has its words there when these are counted in full. -/
theorem words_inside_iff {base off count : Nat} {size : Int} (block : base + size ≤ modulus)
    (fits : (off + cl_bitmap_calc_size count : Nat) ≤ size) :
    WordsInside base size (base + off) count ↔ ((off + word_bytes count : Nat) : Int) ≤ size := by
  have bytes : ∀ {w}, w * 32 < count → 4 * w < cl_bitmap_calc_size count := by
    intro w inside
    unfold cl_bitmap_calc_size
    split <;> omega
  have exact_ : ∀ {w}, w * 32 < count → add (base + off) (4 * w) = base + off + 4 * w := by
    intro w inside
    have := bytes inside
    exact add_exact (by omega)
  constructor
  · intro inside
    rcases Nat.eq_zero_or_pos count with rfl | some_bits
    · have : cl_bitmap_calc_size 0 = word_bytes 0 := rfl
      omega
    · have last : (count - 1) / 32 * 32 < count := by omega
      have bound := (inside _ ((accessed_iff count _).mpr last)).2
      rw [exact_ last] at bound
      unfold word_bytes
      omega
  · intro whole w accessed
    have inside : w * 32 < count := (accessed_iff count w).mp accessed
    rw [exact_ inside]
    unfold word_bytes at whole
    omega

/-! ### The allocator of blocks -/

/-- The instance that `cl_bkb_extend` adds has its bitmap's words in the memory. -/
def ExtendInside (content : Nat → Words) (bkb : cl_bkb) (base size : Nat) : Prop :=
  ∀ fuel bkb', cl_bkb_extend fuel content bkb base size = some bkb' → ∃ buf, bkb' = insert_instance bkb buf ∧
    WordsInside base size (add buf.addr sizeof_instance) buf.bitmap.mask_count

/-- There is room for the manager, the estimate does not wrap, and every number of blocks that fits with the bytes of its
    bitmap fits with the words. -/
structure ExtendRoom (node_size size : Nat) : Prop where
  room : sizeof_instance ≤ size
  whole : need node_size (size / node_size) < modulus
  words : ∀ count, need node_size count ≤ size → count * node_size + sizeof_instance + word_bytes count ≤ size

theorem words_inside_none (base : Nat) (size : Int) (addr : Nat) : WordsInside base size addr 0 :=
  fun w accessed => absurd ((accessed_iff 0 w).mp accessed) (Nat.not_lt_zero _)

theorem calc_size_pos {count : Nat} (some_bits : 0 < count) : 0 < cl_bitmap_calc_size count := by
  unfold cl_bitmap_calc_size
  split <;> omega

section Extend
variable {content : Nat → Words} {bkb : cl_bkb} {base size : Nat}

/-- Where the bitmap is behind blocks that fit. -/
theorem bitmap_place {node_size count : Nat} (block : base + size ≤ modulus) (some_blocks : 0 < count)
    (fits : need node_size count ≤ size) :
    add (add base (count * node_size)) sizeof_instance = base + (count * node_size + sizeof_instance) := by
  have bytes := calc_size_pos some_blocks
  unfold need at fits
  rw [add_exact (show base + count * node_size < modulus by omega),add_exact (by omega),Nat.add_assoc]

theorem extend_inside (word : size < modulus) (block : base + size ≤ modulus) (room : ExtendRoom bkb.node_size size) :
    ExtendInside content bkb base size := by
  intro fuel bkb' done
  obtain ⟨best,fitted,rfl⟩ := Option.map_eq_some_iff.mp done
  have fits := (fit_rounds_fits room.room ((Nat.div_le_self ..).trans_lt word) room.whole fitted).1
  refine ⟨_,rfl,?_⟩
  show WordsInside base size (add (add base (best * bkb.node_size)) sizeof_instance) best
  rcases Nat.eq_zero_or_pos best with rfl | some_blocks
  · exact words_inside_none base size _
  · rw [bitmap_place block some_blocks fits,words_inside_iff (by exact_mod_cast block) (by exact_mod_cast fits)]
    exact_mod_cast room.words best fits

/-- Behind an estimate that wraps the bitmap wraps with it, to the first bytes of all memory. -/
theorem wrapped_outside {node_size count : Nat} (place : sizeof_instance < base) (block : base + size ≤ modulus)
    (estimate : count * node_size ≤ size) (wraps : modulus ≤ need node_size count) :
    ¬WordsInside base size (add (add base (count * node_size)) sizeof_instance) count := by
  intro inside
  have low : ∀ w, w * 32 < count → base ≤ add (add (add base (count * node_size)) sizeof_instance) (4 * w) :=
    fun w below => (inside w ((accessed_iff count w).mpr below)).1
  have bits : 8 * cl_bitmap_calc_size count ≤ count + 7 := by
    unfold cl_bitmap_calc_size
    split <;> omega
  unfold need at wraps
  generalize count * node_size = blocks at *
  unfold add sizeof_instance modulus at *
  by_cases behind : base + blocks + 40 < 4294967296
  · have first := low ((4294967296 - (base + blocks + 40) + 3) / 4) (by omega)
    omega
  · have first := low 0 (by omega)
    omega

theorem extend_room (word : size < modulus) (block : base + size ≤ modulus) (positive : 0 < bkb.node_size)
    (place : sizeof_instance < base) (room : sizeof_instance ≤ size) (inside : ExtendInside content bkb base size) :
    ExtendRoom bkb.node_size size := by
  have chosen : ∀ {fuel count}, fit_rounds bkb.node_size size fuel (size / bkb.node_size) = some count →
      WordsInside base size (add (add base (count * bkb.node_size)) sizeof_instance) count := by
    intro fuel count fitted
    obtain ⟨buf,same,words⟩ := inside fuel _ (by rw [cl_bkb_extend,fitted,Option.map_some])
    rwa [← insert_instance_inj same] at words
  have whole : need bkb.node_size (size / bkb.node_size) < modulus := by
    by_contra wraps
    have estimate : size / bkb.node_size * bkb.node_size ≤ size := Nat.div_mul_le_self ..
    have small := total_size_wrapped word estimate (Nat.div_le_self ..) (not_lt.mp wraps)
    have fitted : fit_rounds bkb.node_size size 1 (size / bkb.node_size) = some (size / bkb.node_size) := by
      rw [fit_rounds,if_neg (by omega)]
    exact wrapped_outside place block estimate (not_lt.mp wraps) (chosen fitted)
  refine ⟨room,whole,?_⟩
  intro count fits
  obtain ⟨best,fitted,⟨_,best_fits⟩,most⟩ := fit_rounds_largest room ((Nat.div_le_self ..).trans_lt word) whole
  have le : count ≤ best := most ⟨le_estimate positive fits,fits⟩
  rcases Nat.eq_zero_or_pos best with rfl | some_blocks
  · obtain rfl := Nat.le_zero.mp le
    simpa [word_bytes] using room
  · have words := chosen fitted
    rw [bitmap_place block some_blocks best_fits,
      words_inside_iff (by exact_mod_cast block) (by exact_mod_cast best_fits)] at words
    have blocks := Nat.mul_le_mul_right bkb.node_size le
    have bits := word_bytes_mono le
    omega

end Extend

end GridOS.Blkbuf

namespace GridOS.Bitmap
open GridOS.Words GridOS.Bits GridOS.Blkbuf

/-! ### The bitmap behind a buffer -/

/-- The bitmap that `cl_bitmap_adaption` puts behind the blocks has its words in the buffer. -/
def AdaptInside (content : Nat → Words) (bitmap : cl_bitmap) (buffer : Nat) (buffer_size block_size : Int) : Prop :=
  ∀ fuel r, cl_bitmap_adaption fuel content bitmap buffer buffer_size block_size = some r → r.1 = true →
    WordsInside buffer buffer_size (add buffer (unsigned (r.2.mask_count * block_size))) r.2.mask_count

/-- Some count of blocks that does not fit can be told before the sum overflows. -/
def Told (buffer_size block_size : Int) : Prop :=
  ∃ count : Nat, buffer_size < taken block_size count ∧ taken block_size count ≤ 2147483647

/-- Every number of blocks that fits with the bytes of its bitmap fits with the words. -/
def AdaptRoom (buffer_size block_size : Int) : Prop :=
  ∀ count : Nat, taken block_size count ≤ buffer_size → count * block_size + word_bytes count ≤ buffer_size

/-- The loop ends with one count at most, however much fuel it has. -/
theorem adaption_rounds_once {buffer_size block_size : Int} {fuel fuel' : Nat} {c a b : Int}
    (done : adaption_rounds buffer_size block_size fuel c = some a)
    (done' : adaption_rounds buffer_size block_size fuel' c = some b) : a = b := by
  induction fuel generalizing fuel' c with
  | zero => cases done
  | succ fuel ih =>
    cases fuel' with
    | zero => cases done'
    | succ fuel' =>
      rw [adaption_rounds] at done done'
      split at done
      · next large =>
        rw [if_pos large] at done'
        exact (Option.some.inj done).symm.trans (Option.some.inj done')
      · next small =>
        rw [if_neg small] at done'
        exact ih done done'

section Adapt
variable {content : Nat → Words} {bitmap : cl_bitmap} {buffer : Nat} {buffer_size block_size : Int}

/-- The layout of a buffer that is aligned: none, or that of the largest count, with the bitmap behind the blocks. -/
theorem adapt_outcome (content : Nat → Words) (bitmap : cl_bitmap) (positive : 0 < block_size) (word : block_size ≤ 2147483647) (words : block_size % 4 = 0)
    (aligned : buffer % 4 = 0) (told : Told buffer_size block_size) : ∃ best : Nat,
      (0 < best → taken block_size best ≤ buffer_size) ∧ (∀ c : Nat, taken block_size c ≤ buffer_size → c ≤ best) ∧
      (∃ fuel, (cl_bitmap_adaption fuel content bitmap buffer buffer_size block_size).isSome) ∧
      ∀ fuel r, cl_bitmap_adaption fuel content bitmap buffer buffer_size block_size = some r →
        (r.1 = true ↔ 0 < best) ∧ (r.1 = true → r.2.mask_count = best) := by
  obtain ⟨count,large,below⟩ := told
  obtain ⟨first,start,large,below,before⟩ := first_large positive (by omega) large below
  obtain ⟨enough,ended⟩ := adaption_rounds_ends positive large below before Nat.one_pos start
  have small := le_taken positive first
  have word_multiple : unsigned block_size % 4 = 0 := by unfold unsigned; omega
  refine ⟨first - 1,fun some_blocks => before _ (by omega) some_blocks,?_,?_,?_⟩
  · intro c fits
    by_contra more
    have behind := taken_mono positive (show first ≤ c by omega)
    omega
  · refine ⟨enough,?_⟩
    rw [cl_bitmap_adaption,if_neg (by omega),if_neg (by omega),← Nat.cast_one,ended]
    rfl
  · intro fuel r done
    rw [cl_bitmap_adaption,if_neg (by omega),if_neg (by omega)] at done
    obtain ⟨chosen,rounds,rfl⟩ := Option.map_eq_some_iff.mp done
    obtain rfl := adaption_rounds_once rounds ended
    by_cases none_fits : (first : Int) - 1 = 0
    · rw [if_pos none_fits]
      exact ⟨iff_of_false Bool.false_ne_true (by omega),fun fitted => absurd fitted Bool.false_ne_true⟩
    · rw [if_neg none_fits]
      refine ⟨iff_of_true rfl (by omega),fun _ => ?_⟩
      dsimp only
      unfold unsigned
      omega

/-- The words of the bitmap behind the largest number of blocks. -/
theorem adapt_words {best : Nat} (positive : 0 < block_size) (block : buffer + buffer_size ≤ modulus)
    (some_blocks : 0 < best) (fits : taken block_size best ≤ buffer_size) :
    WordsInside buffer buffer_size (add buffer (unsigned (best * block_size))) best ↔
      best * block_size + word_bytes best ≤ buffer_size := by
  have bytes := calc_size_pos some_blocks
  have blocks : 0 ≤ (best : Int) * block_size := Int.mul_nonneg (by omega) positive.le
  unfold taken at fits
  obtain ⟨off,place⟩ := Int.eq_ofNat_of_zero_le blocks
  rw [place] at fits ⊢
  have exact_ : unsigned off = off := by unfold unsigned modulus at *; omega
  rw [exact_,add_exact (by omega),words_inside_iff block (by exact_mod_cast fits)]
  push_cast
  rfl

theorem adapt_inside_iff (positive : 0 < block_size) (word : block_size ≤ 2147483647) (words : block_size % 4 = 0)
    (aligned : buffer % 4 = 0) (block : buffer + buffer_size ≤ modulus) (told : Told buffer_size block_size) :
    AdaptInside content bitmap buffer buffer_size block_size ↔ AdaptRoom buffer_size block_size := by
  obtain ⟨best,fits,most,⟨fuel,ends⟩,outcome⟩ := adapt_outcome content bitmap positive word words aligned told
  constructor
  · intro inside count count_fits
    have le := most count count_fits
    rcases Nat.eq_zero_or_pos best with rfl | some_blocks
    · obtain rfl := Nat.le_zero.mp le
      simpa [taken,word_bytes,cl_bitmap_calc_size] using count_fits
    · obtain ⟨r,done⟩ := Option.isSome_iff_exists.mp ends
      obtain ⟨chosen,mask_count⟩ := outcome fuel r done
      have bits := inside fuel r done (chosen.mpr some_blocks)
      rw [mask_count (chosen.mpr some_blocks),adapt_words positive block some_blocks (fits some_blocks)] at bits
      have blocks : (count : Int) * block_size ≤ best * block_size := Int.mul_le_mul_of_nonneg_right (by omega) positive.le
      have more := word_bytes_mono le
      omega
  · intro room fuel r done chosen
    obtain ⟨some_blocks,mask_count⟩ := outcome fuel r done
    have some_blocks := some_blocks.mp chosen
    rw [mask_count chosen,adapt_words positive block some_blocks (fits some_blocks)]
    exact room best (fits some_blocks)

end Adapt

end GridOS.Bitmap

namespace GridOS.Blkbuf
open GridOS.Words GridOS.Bits GridOS.Bitmap

/-- The buffer is refused, or some count that does not fit can be told and what fits in bytes fits in words. -/
def AdaptFits (buffer : Nat) (buffer_size block_size : Int) : Prop :=
  buffer % 4 ≠ 0 ∨ block_size % 4 ≠ 0 ∨ (Told buffer_size block_size ∧ AdaptRoom buffer_size block_size)

/-- Both layouts keep the words of their bitmap in the memory that they got exactly when there is room for whole words.
    For memory without room for the manager and for a sum that overflows this is not decided. -/
theorem bitmap_words_inside (content : Nat → Words) (bkb : cl_bkb) (base size : Nat) (bitmap : cl_bitmap) (buffer : Nat)
    (buffer_size block_size : Int) (positive : 0 < bkb.node_size) (word : size < modulus) (block : base + size ≤ modulus)
    (some_block : 0 < block_size) (block_int : block_size ≤ 2147483647) (buffer_block : buffer + buffer_size ≤ modulus) :
    (ExtendRoom bkb.node_size size → ExtendInside content bkb base size) ∧
    (sizeof_instance < base → sizeof_instance ≤ size →
      ExtendInside content bkb base size → ExtendRoom bkb.node_size size) ∧
    (AdaptFits buffer buffer_size block_size → AdaptInside content bitmap buffer buffer_size block_size) ∧
    (Told buffer_size block_size →
      AdaptInside content bitmap buffer buffer_size block_size → AdaptFits buffer buffer_size block_size) := by
  have word_multiple : unsigned block_size % 4 = 0 ↔ block_size % 4 = 0 := by unfold unsigned; omega
  refine ⟨extend_inside word block,extend_room word block positive,?_,?_⟩
  · rintro fits fuel r done chosen
    rw [cl_bitmap_adaption] at done
    by_cases words : block_size % 4 = 0
    · by_cases aligned : buffer % 4 = 0
      · obtain ⟨told,room⟩ := (fits.resolve_left (not_not.mpr aligned)).resolve_left (not_not.mpr words)
        exact (adapt_inside_iff some_block block_int words aligned buffer_block told).mpr room fuel r done chosen
      · rw [if_neg (not_not.mpr (word_multiple.mpr words)),if_pos aligned] at done
        obtain rfl := Option.some.inj done
        cases chosen
    · rw [if_pos (mt word_multiple.mp words)] at done
      obtain rfl := Option.some.inj done
      cases chosen
  · intro told inside
    by_cases words : block_size % 4 = 0
    · by_cases aligned : buffer % 4 = 0
      · exact .inr (.inr ⟨told,(adapt_inside_iff some_block block_int words aligned buffer_block told).mp inside⟩)
      · exact .inl aligned
    · exact .inr (.inl words)

/-- In front of a memory of whole words, blocks of whole words leave whole words. -/
theorem whole_words {off size : Int} (front : off % 4 = 0) (end_ : size % 4 = 0) {count : Nat}
    (fits : off + cl_bitmap_calc_size count ≤ size) : off + word_bytes count ≤ size := by
  unfold cl_bitmap_calc_size word_bytes at *
  split at fits <;> omega

/-- A page of blocks of 64 bytes, and a buffer of 1000 bytes for blocks of 8. -/
theorem bitmap_words_inside_page : ExtendInside (fun _ _ => 0) (cl_bkb_init 64) 4096 4096 ∧
    AdaptInside (fun _ _ => 0) ⟨fun _ => 0,0,0⟩ 4096 1000 8 := by
  have both := bitmap_words_inside (fun _ _ => 0) (cl_bkb_init 64) 4096 4096 ⟨fun _ => 0,0,0⟩ 4096 1000 8 (by decide)
    (by decide) (by decide) (by decide) (by decide) (by decide)
  refine ⟨both.1 ⟨by decide,by decide,fun count fits => ?_⟩,both.2.2.1 (.inr (.inr ⟨⟨1000,by decide,by decide⟩,?_⟩))⟩
  · have fits : count * 64 + 40 + cl_bitmap_calc_size count ≤ 4096 := fits
    have words : (count * 64 + 40 : Int) + word_bytes count ≤ 4096 :=
      whole_words (by omega) (by decide) (by exact_mod_cast fits)
    exact_mod_cast words
  · intro count fits
    exact whole_words (by omega) (by decide) fits

/-- One block fits with the byte of its bitmap, and not with the word. -/
theorem word_behind_memory : ¬ExtendInside (fun _ _ => 0) (cl_bkb_init 8) 4096 49 ∧
    ¬AdaptInside (fun _ _ => 0) ⟨fun _ => 0,0,0⟩ 4096 5 4 := by
  constructor
  · intro inside
    have room := extend_room (by decide) (by decide) (by decide) (by decide) (by decide) inside
    exact absurd (room.words 1 (by decide)) (by decide)
  · intro inside
    have room := (adapt_inside_iff (by decide) (by decide) (by decide) (by decide) (by decide) ⟨2,by decide,by decide⟩).mp inside
    exact absurd (room 1 (by decide)) (by decide)

end GridOS.Blkbuf
