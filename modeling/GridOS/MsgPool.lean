import GridOS.Bitmap

/-!
The pool that the message rings are taken from, `source/kernel/process/msg.c`: `get_thread_msg` claims
a bit of `slots_bitmap` for a thread that wants to loop, and `put_thread_msg` finds the bit again from
the address of the ring. A thread that never had a ring has the address NULL, and its bit is far behind
the map, in memory of somebody else.
-/
namespace GridOS.MsgPool
open GridOS.Bits
open GridOS.Bitmap

def PAGE_SIZE : Nat := 4096
def KE_MESSAGE_SLOTS_BUFFER_SIZE : Nat := PAGE_SIZE * 16
def KE_MESSAGE_SLOTS_SIZE_PER_THREAD : Nat := PAGE_SIZE

/-- `ke_msg_pool.pool`. -/
structure Pool where
  base : Nat
  some_memory : 0 < base
  fits : base + KE_MESSAGE_SLOTS_BUFFER_SIZE ≤ 4294967296

/-- What the threads have, and the words from the map on: behind the bits of the map is other memory. -/
structure State (τ : Type) where
  map : τ → Bool
  slots : τ → Nat
  slots_bitmap : cl_bitmap

/-! ### The code -/

/-- The loop of `cl_bitmap_adaption`. -/
def adapt (buffer_size block_size : Nat) : Nat → Nat → Nat
  | 0, cur_count => cur_count
  | rounds+1, cur_count =>
    if cl_bitmap_calc_size cur_count + cur_count * block_size > buffer_size then cur_count - 1
    else adapt buffer_size block_size rounds (cur_count + 1)

/-- `cl_bitmap_adaption`; the map is behind the blocks, in memory that holds whatever it holds, and `last_bit` is that of
    a static variable. -/
def cl_bitmap_adaption (words : Words) (buffer_size block_size : Nat) : cl_bitmap :=
  let cur_count := adapt buffer_size block_size buffer_size 1
  ⟨clear_bytes words (cl_bitmap_calc_size cur_count),cur_count,0⟩

section Code
variable {τ : Type} [DecidableEq τ] (pool : Pool)

def ktm_init (words : Words) : State τ where
  map := fun _ => false
  slots := fun _ => 0
  slots_bitmap := cl_bitmap_adaption words KE_MESSAGE_SLOTS_BUFFER_SIZE KE_MESSAGE_SLOTS_SIZE_PER_THREAD

/-- `ke_msg_pool.pool + r * KE_MESSAGE_SLOTS_SIZE_PER_THREAD`. -/
def region (r : Nat) : Nat := pool.base + r * KE_MESSAGE_SLOTS_SIZE_PER_THREAD

/-- `get_thread_msg` with `try_create`, when `ks_create` has made a section or not. -/
def get_thread_msg (who : τ) (created : Bool) (s : State τ) : State τ :=
  if s.map who then s else
  if ¬created then s else
  let r := cl_bitmap_alloc_bit s.slots_bitmap
  -- without a bit the section is closed again
  if r.1 = HAL_BITMAP_ALLOC_BIT_ERROR then { s with slots_bitmap := r.2 } else
  { map := Function.update s.map who true
    slots := Function.update s.slots who (region pool r.1)
    slots_bitmap := r.2 }

def ktm_prepare_loop (who : τ) (created : Bool) (s : State τ) : State τ := get_thread_msg pool who created s

/-- The bit that `put_thread_msg` computes from an address, in 32 bits. -/
def bit_of (slots_base : Nat) : Nat :=
  (slots_base + 4294967296 - pool.base) % 4294967296 / KE_MESSAGE_SLOTS_SIZE_PER_THREAD

def put_thread_msg (who : τ) (s : State τ) : State τ where
  map := Function.update s.map who false
  slots := Function.update s.slots who 0
  slots_bitmap := (cl_bitmap_dealloc_bit s.slots_bitmap (bit_of pool (s.slots who))).2

def ktm_delete (who : τ) (s : State τ) : State τ := put_thread_msg pool who s

/-! ### Runs -/

inductive Op (τ : Type)
  | prepare (who : τ) (created : Bool)
  | delete (who : τ)
  /-- Somebody writes the memory behind the map. -/
  | elsewhere (words : Words)

/-- The words have the same bits in the map. -/
def agrees (b : cl_bitmap) (words : Words) : Bool :=
  (List.range b.mask_count).all (fun i => test_bit i words == test_bit i b.bitmap)

def step (s : State τ) : Op τ → State τ
  | .prepare who created => ktm_prepare_loop pool who created s
  | .delete who => ktm_delete pool who s
  | .elsewhere words =>
    if agrees s.slots_bitmap words then { s with slots_bitmap := { s.slots_bitmap with bitmap := words } } else s

def run (words : Words) (ops : List (Op τ)) : State τ := ops.foldl (step pool) (ktm_init words)

/-- A bit is set when exactly one thread has its ring there, and no two threads have the same ring. -/
structure Owned (s : State τ) : Prop where
  bits : ∀ i < s.slots_bitmap.mask_count,
    (test_bit i s.slots_bitmap.bitmap = true ↔ ∃! t, s.slots t = region pool i)
  apart : ∀ t t', s.slots t ≠ 0 → s.slots t = s.slots t' → t = t'

/-- The thread that deletes its ring changes no bit but its own. -/
def Careful (s : State τ) : Op τ → Prop
  | .delete who => ∀ i, test_bit i (ktm_delete pool who s).slots_bitmap.bitmap ≠ test_bit i s.slots_bitmap.bitmap →
      i < s.slots_bitmap.mask_count ∧ s.slots who = region pool i
  | _ => True

/-- The thread has a ring, or the memory where the bit of NULL lies has a clear bit there. -/
def Harmless (s : State τ) : Op τ → Prop
  | .delete who => s.slots who ≠ 0 ∨ test_bit (bit_of pool 0) s.slots_bitmap.bitmap = false
  | _ => True

/-! ### Addresses -/

/-- One block of the buffer is lost to the map. -/
theorem adapted : adapt KE_MESSAGE_SLOTS_BUFFER_SIZE KE_MESSAGE_SLOTS_SIZE_PER_THREAD
    KE_MESSAGE_SLOTS_BUFFER_SIZE 1 = 15 := by decide +kernel

theorem region_ne_null (i : Nat) : region pool i ≠ 0 := by
  have positive := pool.some_memory
  unfold region
  omega

theorem region_injective {i j : Nat} (same : region pool i = region pool j) : i = j := by
  unfold region KE_MESSAGE_SLOTS_SIZE_PER_THREAD PAGE_SIZE at same
  omega

/-- The bit of a ring is found again. -/
theorem bit_of_region {i : Nat} (inside : i < 15) : bit_of pool (region pool i) = i := by
  have fits := pool.fits
  unfold KE_MESSAGE_SLOTS_BUFFER_SIZE PAGE_SIZE at fits
  unfold bit_of region KE_MESSAGE_SLOTS_SIZE_PER_THREAD PAGE_SIZE
  omega

/-- The bit of NULL is behind the map. -/
theorem bit_of_null : 15 < bit_of pool 0 := by
  have fits := pool.fits
  have positive := pool.some_memory
  unfold KE_MESSAGE_SLOTS_BUFFER_SIZE PAGE_SIZE at fits
  unfold bit_of KE_MESSAGE_SLOTS_SIZE_PER_THREAD PAGE_SIZE
  omega

/-! ### The threads and their bits -/

/-- A thread has no ring and no section, or the ring of a bit that is set; each bit that is set belongs to one thread. -/
structure Inv (s : State τ) : Prop where
  mask : s.slots_bitmap.mask_count = 15
  thread : ∀ t, (s.slots t = 0 ∧ s.map t = false) ∨
    ∃ i < 15, s.slots t = region pool i ∧ s.map t = true ∧ test_bit i s.slots_bitmap.bitmap = true
  owner : ∀ i < 15, test_bit i s.slots_bitmap.bitmap = true → ∃ t, s.slots t = region pool i
  apart : ∀ t t', s.slots t ≠ 0 → s.slots t = s.slots t' → t = t'

variable {pool}

omit [DecidableEq τ] in
theorem Inv.owned {s : State τ} (inv : Inv pool s) : Owned pool s where
  apart := inv.apart
  bits := by
    intro i inside
    rw [inv.mask] at inside
    constructor
    · intro set
      obtain ⟨t,ring⟩ := inv.owner i inside set
      refine ⟨t,ring,?_⟩
      intro other same
      exact inv.apart other t (by rw [same]; exact region_ne_null pool i) (same.trans ring.symm)
    · rintro ⟨t,ring,-⟩
      rcases inv.thread t with ⟨null,-⟩ | ⟨j,_,ring',_,set⟩
      · exact absurd (ring.symm.trans null) (region_ne_null pool i)
      · rwa [region_injective pool (ring.symm.trans ring')]

omit [DecidableEq τ] in
theorem init_inv (words : Words) : Inv pool (ktm_init words : State τ) where
  mask := adapted
  thread := fun _ => .inl ⟨rfl,rfl⟩
  owner := by
    intro i inside set
    have clear : test_bit i (ktm_init words : State τ).slots_bitmap.bitmap = false := by
      apply test_bit_clear_bytes
      rw [adapted]
      have bytes : cl_bitmap_calc_size 15 = 2 := by decide
      omega
    rw [clear] at set
    cases set
  apart := fun _ _ some_ring _ => absurd rfl some_ring

omit [DecidableEq τ] in
/-- The invariant only reads the bits of the map. -/
theorem Inv.with_bits {s : State τ} (inv : Inv pool s) {b : cl_bitmap} (mask : b.mask_count = s.slots_bitmap.mask_count)
    (bits : ∀ i < 15, test_bit i b.bitmap = test_bit i s.slots_bitmap.bitmap) :
    Inv pool { s with slots_bitmap := b } where
  mask := mask.trans inv.mask
  thread := by
    intro t
    rcases inv.thread t with null | ⟨i,inside,ring,mapped,set⟩
    · exact .inl null
    · exact .inr ⟨i,inside,ring,mapped,by rw [bits i inside]; exact set⟩
  owner := fun i inside set => inv.owner i inside (by rwa [bits i inside] at set)
  apart := inv.apart

/-- A thread without a ring takes the one of a clear bit. -/
theorem Inv.claim {s : State τ} (inv : Inv pool s) {who : τ} {bit : Nat} (last_bit : Nat) (none : s.map who = false)
    (inside : bit < 15) (clear : test_bit bit s.slots_bitmap.bitmap = false) :
    Inv pool ⟨Function.update s.map who true,Function.update s.slots who (region pool bit),
      { s.slots_bitmap with bitmap := set_bit bit s.slots_bitmap.bitmap, last_bit }⟩ := by
  -- nobody else has the ring, as its bit would be set
  have fresh : ∀ t, s.slots t ≠ region pool bit := by
    intro t ring
    rcases inv.thread t with ⟨null,-⟩ | ⟨j,_,ring',_,set⟩
    · exact region_ne_null pool bit (ring.symm.trans null)
    · rw [region_injective pool (ring.symm.trans ring'),set] at clear
      cases clear
  have null : s.slots who = 0 := by
    rcases inv.thread who with ⟨null,-⟩ | ⟨_,_,_,mapped,_⟩
    · exact null
    · rw [none] at mapped; cases mapped
  refine ⟨inv.mask,?_,?_,?_⟩
  · intro t
    dsimp only
    by_cases self : t = who
    · subst self
      exact .inr ⟨bit,inside,by simp,by simp,by simp⟩
    · rw [Function.update_of_ne self,Function.update_of_ne self]
      rcases inv.thread t with without | ⟨i,inside',ring,mapped,set⟩
      · exact .inl without
      · exact .inr ⟨i,inside',ring,mapped,by rw [test_bit_set_bit,set,Bool.or_true]⟩
  · intro i inside' set
    dsimp only at set ⊢
    by_cases same : i = bit
    · exact ⟨who,by rw [Function.update_self,same]⟩
    · rw [test_bit_set_bit,decide_eq_false same,Bool.false_or] at set
      obtain ⟨t,ring⟩ := inv.owner i inside' set
      have other : t ≠ who := by
        rintro rfl
        exact region_ne_null pool i (ring.symm.trans null)
      exact ⟨t,by rw [Function.update_of_ne other]; exact ring⟩
  · intro t t'
    dsimp only
    by_cases self : t = who
    · by_cases self' : t' = who
      · exact fun _ _ => self.trans self'.symm
      · rw [self,Function.update_self,Function.update_of_ne self']
        exact fun _ same => absurd same.symm (fresh t')
    · by_cases self' : t' = who
      · rw [self',Function.update_self,Function.update_of_ne self]
        exact fun _ same => absurd same (fresh t)
      · rw [Function.update_of_ne self,Function.update_of_ne self']
        exact inv.apart t t'

theorem get_thread_msg_inv {s : State τ} (inv : Inv pool s) (who : τ) (created : Bool) :
    Inv pool (get_thread_msg pool who created s) := by
  unfold get_thread_msg
  split
  · exact inv
  · next none =>
    split
    · exact inv
    · rcases cl_bitmap_alloc_bit_spec s.slots_bitmap with ⟨bit,found,inside,clear,-⟩ | ⟨full,-⟩
      · rw [inv.mask] at inside
        rw [found]
        dsimp only
        rw [if_neg (by unfold HAL_BITMAP_ALLOC_BIT_ERROR; omega)]
        exact inv.claim _ (by simpa using none) inside clear
      · rw [full]
        dsimp only
        rw [if_pos rfl]
        exact inv.with_bits rfl (fun _ _ => rfl)

/-! ### Giving a bit back -/

theorem dealloc_mask (b : cl_bitmap) (bit : Nat) : (cl_bitmap_dealloc_bit b bit).2.mask_count = b.mask_count := by
  unfold cl_bitmap_dealloc_bit
  split
  · rfl
  · rfl

/-- There is no check that the bit is one of the map. -/
theorem test_bit_dealloc (b : cl_bitmap) (bit i : Nat) :
    test_bit i (cl_bitmap_dealloc_bit b bit).2.bitmap = (!decide (i = bit) && test_bit i b.bitmap) := by
  unfold cl_bitmap_dealloc_bit
  split
  · next clear =>
    by_cases same : i = bit
    · rw [same,clear,Bool.and_false]
    · rw [decide_eq_false same]
      rfl
  · exact test_bit_clear_bit _ _ _

/-- What a deletion leaves, over what is known of the bit that was given back; the address is not to be computed with. -/
theorem delete_effect (s : State τ) (who : τ) {freed : Bool × cl_bitmap}
    (done : cl_bitmap_dealloc_bit s.slots_bitmap (bit_of pool (s.slots who)) = freed) :
    ktm_delete pool who s = ⟨Function.update s.map who false,Function.update s.slots who 0,freed.2⟩ := by
  unfold ktm_delete put_thread_msg
  rw [done]

theorem delete_bitmap (s : State τ) (who : τ) {freed : Bool × cl_bitmap}
    (done : cl_bitmap_dealloc_bit s.slots_bitmap (bit_of pool (s.slots who)) = freed) :
    (ktm_delete pool who s).slots_bitmap = freed.2 := by rw [delete_effect s who done]

/-- The bits after a thread was deleted. -/
theorem test_bit_delete (s : State τ) (who : τ) (i : Nat) :
    test_bit i (ktm_delete pool who s).slots_bitmap.bitmap =
      (!decide (i = bit_of pool (s.slots who)) && test_bit i s.slots_bitmap.bitmap) := by
  rw [delete_bitmap s who rfl,test_bit_dealloc]

theorem delete_mask (s : State τ) (who : τ) :
    (ktm_delete pool who s).slots_bitmap.mask_count = s.slots_bitmap.mask_count := by
  rw [delete_bitmap s who rfl,dealloc_mask]

theorem delete_self (s : State τ) (who : τ) :
    (ktm_delete pool who s).slots who = 0 ∧ (ktm_delete pool who s).map who = false := by
  rw [delete_effect s who rfl]
  exact ⟨Function.update_self who 0 s.slots,Function.update_self who false s.map⟩

theorem delete_other (s : State τ) {who t : τ} (other : t ≠ who) :
    (ktm_delete pool who s).slots t = s.slots t ∧ (ktm_delete pool who s).map t = s.map t := by
  rw [delete_effect s who rfl]
  exact ⟨Function.update_of_ne other 0 s.slots,Function.update_of_ne other false s.map⟩

omit [DecidableEq τ] in
/-- The bit of the ring of another thread is not the one that is given back. -/
theorem Inv.bit_ne {s : State τ} (inv : Inv pool s) {who t : τ} (other : t ≠ who) {i : Nat} (inside : i < 15)
    (ring : s.slots t = region pool i) : i ≠ bit_of pool (s.slots who) := by
  rcases inv.thread who with ⟨null,-⟩ | ⟨j,inside',ring',-,-⟩
  · have behind := bit_of_null pool
    rw [null]
    omega
  · rw [ring',bit_of_region pool inside']
    rintro rfl
    exact other (inv.apart t who (by rw [ring]; exact region_ne_null pool i) (ring.trans ring'.symm))

theorem ktm_delete_inv {s : State τ} (inv : Inv pool s) (who : τ) : Inv pool (ktm_delete pool who s) := by
  refine ⟨(delete_mask s who).trans inv.mask,?_,?_,?_⟩
  · intro t
    by_cases self : t = who
    · rw [self]
      exact .inl (delete_self s who)
    · obtain ⟨slots,map⟩ := @delete_other _ _ pool s _ _ self
      rw [slots,map]
      rcases inv.thread t with without | ⟨i,inside,ring,mapped,set⟩
      · exact .inl without
      · refine .inr ⟨i,inside,ring,mapped,?_⟩
        rw [test_bit_delete,decide_eq_false (inv.bit_ne self inside ring),set]
        rfl
  · intro i inside set
    rw [test_bit_delete,Bool.and_eq_true,Bool.not_eq_true',decide_eq_false_iff_not] at set
    obtain ⟨differ,set⟩ := set
    obtain ⟨t,ring⟩ := inv.owner i inside set
    have other : t ≠ who := by
      rintro rfl
      rw [ring,bit_of_region pool inside] at differ
      exact differ rfl
    exact ⟨t,(delete_other s other).1.trans ring⟩
  · intro t t' some_ring same
    have self : t ≠ who := by
      rintro rfl
      exact some_ring (delete_self s t).1
    have self' : t' ≠ who := by
      rintro rfl
      exact some_ring (same.trans (delete_self s t').1)
    rw [(delete_other s self).1] at some_ring same
    rw [(delete_other s self').1] at same
    exact inv.apart t t' some_ring same

theorem step_inv {s : State τ} (inv : Inv pool s) (op : Op τ) : Inv pool (step pool s op) := by
  cases op with
  | prepare who created => exact get_thread_msg_inv inv who created
  | delete who => exact ktm_delete_inv inv who
  | elsewhere words =>
    unfold step
    dsimp only
    split
    · next same =>
      refine inv.with_bits rfl ?_
      intro i inside
      unfold agrees at same
      rw [List.all_eq_true] at same
      exact eq_of_beq (same i (List.mem_range.mpr (by rw [inv.mask]; exact inside)))
    · exact inv

theorem step_careful_iff {s : State τ} (inv : Inv pool s) (op : Op τ) : Careful pool s op ↔ Harmless pool s op := by
  cases op with
  | prepare who created => exact Iff.rfl
  | elsewhere words => exact Iff.rfl
  | delete who =>
    have behind := bit_of_null pool
    unfold Careful Harmless
    dsimp only
    constructor
    · intro careful
      rw [or_iff_not_imp_left,not_not]
      intro null
      by_contra set
      rw [Bool.not_eq_false] at set
      have changed := careful (bit_of pool 0) (by rw [test_bit_delete,null]; simp [set])
      rw [inv.mask] at changed
      omega
    · intro harmless i changed
      have bit : i = bit_of pool (s.slots who) := by
        by_contra other
        rw [test_bit_delete,decide_eq_false other] at changed
        exact changed rfl
      rcases inv.thread who with ⟨null,-⟩ | ⟨j,inside,ring,-,-⟩
      · have clear := harmless.resolve_left (not_not.mpr null)
        rw [test_bit_delete,bit,null,clear,Bool.and_false] at changed
        exact absurd rfl changed
      · rw [ring,bit_of_region pool inside] at bit
        subst bit
        exact ⟨by rw [inv.mask]; exact inside,ring⟩

/-! ### Whole runs -/

theorem run_concat (words : Words) (before : List (Op τ)) (op : Op τ) :
    run pool words (before ++ [op]) = step pool (run pool words before) op := by simp [run]

theorem run_inv (words : Words) (ops : List (Op τ)) : Inv pool (run pool words ops) := by
  induction ops using List.reverseRecOn with
  | nil => exact init_inv words
  | append_singleton before op ih =>
    rw [run_concat]
    exact step_inv ih op

/-- Every state of a run has each ring at one thread, and the deletions of a run touch only the bit of the thread exactly
    when none of them, made without a ring, finds the bit of NULL set in the memory behind the map. -/
theorem rings_owned_iff (words : Words) (ops : List (Op τ)) :
    ((∀ before, before <+: ops → Owned pool (run pool words before)) ∧
      ∀ before op, before ++ [op] <+: ops → Careful pool (run pool words before) op) ↔
      ∀ before op, before ++ [op] <+: ops → Harmless pool (run pool words before) op := by
  constructor
  · rintro ⟨-,careful⟩ before op starts
    exact (step_careful_iff (run_inv words before) op).mp (careful before op starts)
  · intro harmless
    constructor
    · intro before _
      exact (run_inv words before).owned
    · intro before op starts
      exact (step_careful_iff (run_inv words before) op).mpr (harmless before op starts)

end Code

/-- Behind the bytes that are cleared the memory keeps its bits. -/
theorem test_bit_behind (words : Words) {bytes i : Nat} (behind : 8 * bytes ≤ i) :
    test_bit i (clear_bytes words bytes) = test_bit i words := by
  unfold test_bit clear_bytes
  have offset : 8 * (bytes - 4 * (i / BITS_PER_LONG)) ≤ i % BITS_PER_LONG := by unfold BITS_PER_LONG; omega
  have inside : i % BITS_PER_LONG < 32 := Nat.mod_lt _ (by decide)
  rw [BitVec.getLsbD_and,BitVec.getLsbD_shiftLeft,BitVec.getLsbD_allOnes]
  simp [inside,Nat.not_lt.mpr offset]
  omega

/-- The pool at 3 GiB. -/
def high_pool : Pool := ⟨0xC0000000,by decide,by decide⟩

/-- A thread that never prepared its loop is deleted: the bit 262144 behind a map of 15 is cleared. -/
theorem null_ring_deleted :
    ∃ (words : Words) (before : List (Op Nat)) (who : Nat),
      (run high_pool words before).slots_bitmap.mask_count = 15 ∧
      test_bit 262144 (run high_pool words before).slots_bitmap.bitmap = true ∧
      test_bit 262144 (ktm_delete high_pool who (run high_pool words before)).slots_bitmap.bitmap = false ∧
      ¬Careful high_pool (run high_pool words before) (.delete who) := by
  obtain ⟨s,same,null,set⟩ : ∃ s : State Nat, run high_pool (fun _ => BitVec.allOnes 32) [] = s ∧
      s.slots 0 = 0 ∧ test_bit 262144 s.slots_bitmap.bitmap = true := by
    refine ⟨_,rfl,rfl,?_⟩
    exact (test_bit_behind _ (by rw [adapted]; decide)).trans (by decide +kernel)
  have inv : Inv high_pool s := same ▸ run_inv _ _
  have bit : bit_of high_pool 0 = 262144 := by decide +kernel
  refine ⟨fun _ => BitVec.allOnes 32,[],0,?_⟩
  rw [same]
  refine ⟨inv.mask,set,?_,?_⟩
  · rw [test_bit_delete,null,bit,decide_eq_true rfl]
    rfl
  · rw [step_careful_iff inv]
    unfold Harmless
    dsimp only
    rw [null,bit,set]
    simp

end GridOS.MsgPool
