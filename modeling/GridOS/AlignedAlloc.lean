import GridOS.Words

/-!
`aligned_malloc` and `aligned_free` of `source/subsystem/fs/mltt.c`, over the bytes of memory. The two bytes below the
address that is returned say how far behind the allocation it is; they hold numbers up to 65535.
-/
namespace GridOS.AlignedAlloc
open GridOS.Words

/-- The bytes of memory. -/
abbrev Memory := Nat → Nat

/-- The `unsigned short` at `p`. -/
def load16 (m : Memory) (p : Nat) : Nat := m p + 256 * m (add p 1)

def store16 (m : Memory) (p value : Nat) : Memory :=
  Function.update (Function.update m p (value % 256)) (add p 1) (value / 256 % 256)

/-- The address that is returned, and the memory; `km_valloc` gives 0 when there is none. -/
def aligned_malloc (km_valloc : Nat → Nat) (size alignment : Nat) (m : Memory) : Nat × Memory :=
  let alignment := if alignment = 0 then 4 else alignment
  let tmp := km_valloc (add size alignment)
  if tmp = 0 then (0,m) else
  let mem_ptr := add tmp (alignment - 1) &&& (modulus - 1 - (alignment - 1))
  let mem_ptr := if mem_ptr = tmp then add mem_ptr alignment else mem_ptr
  (mem_ptr,store16 m (sub mem_ptr 2) (sub mem_ptr tmp))

/-- The address that goes to `km_vfree`, if one does. -/
def aligned_free (m : Memory) (mem_ptr : Nat) : Option Nat :=
  if mem_ptr = 0 then none else some (sub mem_ptr (load16 m (sub mem_ptr 2)))

/-- The address is aligned, the tag and the bytes behind it are in the allocation at `base`, and while nobody writes to the
    tag the address is freed as `base`. -/
structure RoundTrip (size alignment base : Nat) (result : Nat × Memory) : Prop where
  aligned : alignment ∣ result.1
  tag : base + 2 ≤ result.1
  inside : result.1 + size ≤ base + (size + alignment)
  freed : ∀ m, m (sub result.1 2) = result.2 (sub result.1 2) →
    m (add (sub result.1 2) 1) = result.2 (add (sub result.1 2) 1) → aligned_free m result.1 = some base

/-- The way from the allocation to the aligned address behind it. -/
def way (alignment base : Nat) : Nat := alignment - base % alignment

section Place
variable {km_valloc : Nat → Nat} {size alignment base k : Nat} {m : Memory}

theorem load16_store16 {p : Nat} (value : Nat) (before : p + 1 < modulus) : load16 (store16 m p value) p = value % 65536 := by
  have next : add p 1 = p + 1 := add_exact before
  have other : p ≠ p + 1 := by omega
  rw [load16,store16,next,Function.update_self,Function.update_of_ne other,Function.update_self]
  omega

theorem round_up (base : Nat) (positive : 0 < alignment) : (base + (alignment - 1)) / alignment * alignment =
    if base % alignment = 0 then base else base + way alignment base := by
  have rest := Nat.mod_lt base positive
  have split := Nat.div_add_mod base alignment
  unfold way
  generalize base / alignment = q at *
  generalize base % alignment = r at *
  subst split
  split
  · next exact_ =>
    rw [exact_,Nat.add_zero,Nat.mul_add_div positive,Nat.div_eq_of_lt (by omega),Nat.add_zero,Nat.mul_comm]
  · next behind =>
    have carry : alignment * q + r + (alignment - 1) = alignment * (q + 1) + (r - 1) := by
      rw [Nat.mul_succ]
      omega
    rw [carry,Nat.mul_add_div positive,Nat.div_eq_of_lt (by omega),Nat.add_zero,Nat.mul_comm,Nat.mul_succ]
    omega

/-- The address is the first aligned one behind the base, be the base aligned or not. -/
theorem aligned_malloc_eq (power : alignment = 2 ^ k) (some_memory : base ≠ 0) (given : km_valloc (size + alignment) = base)
    (room : base + (size + alignment) < modulus) :
    aligned_malloc km_valloc size alignment m =
      (base + way alignment base,store16 m (sub (base + way alignment base) 2) (way alignment base)) := by
  have positive : 0 < alignment := power ▸ Nat.two_pow_pos k
  have small : k ≤ 32 := by
    by_contra large
    have big : 2 ^ 32 ≤ 2 ^ k := Nat.pow_le_pow_right (by decide) (by omega)
    unfold modulus at room
    omega
  have rest := Nat.mod_lt base positive
  have sum : add base (alignment - 1) = base + (alignment - 1) := add_exact (by omega)
  have rounded : add base (alignment - 1) &&& (modulus - 1 - (alignment - 1)) =
      (base + (alignment - 1)) / alignment * alignment := by
    rw [sum,power]
    exact and_mask small (by rw [← power]; omega)
  have place : (if (base + (alignment - 1)) / alignment * alignment = base then
      add ((base + (alignment - 1)) / alignment * alignment) alignment
      else (base + (alignment - 1)) / alignment * alignment) = base + way alignment base := by
    rw [round_up base positive]
    by_cases exact_ : base % alignment = 0
    · rw [if_pos exact_,if_pos rfl,add_exact (by omega),way,exact_,Nat.sub_zero]
    · rw [if_neg exact_,if_neg (by unfold way; omega)]
  have back : sub (base + way alignment base) base = way alignment base := by
    rw [sub_exact (by omega) (by unfold way; omega),Nat.add_sub_cancel_left]
  rw [aligned_malloc]
  dsimp only
  rw [if_neg (Nat.ne_of_gt positive),add_exact (show size + alignment < modulus by omega),given,if_neg some_memory,
    rounded,place,back]

theorem way_aligned (positive : 0 < alignment) (base : Nat) : alignment ∣ base + way alignment base := by
  have rest := Nat.mod_lt base positive
  have split := Nat.div_add_mod base alignment
  refine ⟨base / alignment + 1,?_⟩
  unfold way
  rw [Nat.mul_succ]
  omega

/-- Behind a base of whole words the way is 1 only when every address is aligned. -/
theorem two_le_way (power : alignment = 2 ^ k) (word : base % 4 = 0) : 2 ≤ way alignment base ↔ 2 ≤ alignment := by
  have rest := Nat.mod_lt base (power ▸ Nat.two_pow_pos k : 0 < alignment)
  unfold way
  constructor
  · omega
  · intro two
    rcases k with _ | _ | k
    · rw [power] at two
      omega
    · rw [power]
      omega
    · have words : 4 ∣ alignment := ⟨2 ^ k,by rw [power,Nat.pow_add]; omega⟩
      have left : base % alignment % 4 = 0 := by rw [Nat.mod_mod_of_dvd base words,word]
      omega

/-- The round trip succeeds exactly when the tag has room below the address, and the way to the address fits into it. -/
theorem aligned_round_trip_iff (size : Nat) (m : Memory) (power : alignment = 2 ^ k) (word : base % 4 = 0)
    (some_memory : base ≠ 0) (given : km_valloc (size + alignment) = base) (room : base + (size + alignment) < modulus) :
    RoundTrip size alignment base (aligned_malloc km_valloc size alignment m) ↔
      2 ≤ alignment ∧ alignment - base % alignment < 65536 := by
  have positive : 0 < alignment := power ▸ Nat.two_pow_pos k
  have far : way alignment base ≤ alignment := Nat.sub_le ..
  rw [aligned_malloc_eq power some_memory given room]
  have below : sub (base + way alignment base) 2 = base + way alignment base - 2 := sub_exact (by omega) (by omega)
  have tag_next : add (base + way alignment base - 2) 1 = base + way alignment base - 2 + 1 := add_exact (by omega)
  have told : load16 (store16 m (base + way alignment base - 2) (way alignment base)) (base + way alignment base - 2) =
      way alignment base % 65536 := load16_store16 _ (by omega)
  constructor
  · rintro ⟨_,tag,_,freed⟩
    refine ⟨(two_le_way power word).mp (by dsimp only at tag; omega),?_⟩
    have same := freed _ rfl rfl
    dsimp only at same
    rw [aligned_free,if_neg (by omega),below,told] at same
    by_contra large
    have back : sub (base + way alignment base) (way alignment base % 65536) =
        base + way alignment base - way alignment base % 65536 := sub_exact (by omega) (by omega)
    rw [back] at same
    have shorter : way alignment base % 65536 < 65536 := Nat.mod_lt _ (by decide)
    have large : 65536 ≤ way alignment base := not_lt.mp large
    have same := Option.some.inj same
    omega
  · rintro ⟨two,short⟩
    have two := (two_le_way power word).mpr two
    refine ⟨way_aligned positive base,by dsimp only; omega,by dsimp only; omega,?_⟩
    intro m' low high
    dsimp only at low high ⊢
    rw [below] at low high
    rw [tag_next] at high
    have kept : load16 m' (base + way alignment base - 2) = way alignment base := by
      rw [load16,tag_next,low,high]
      rw [load16,tag_next] at told
      rw [told]
      exact Nat.mod_eq_of_lt short
    rw [aligned_free,if_neg (by omega),below,kept,sub_exact (by omega) (by omega),Nat.add_sub_cancel]

end Place

/-- A table of the cache in memory at 4096. -/
theorem aligned_round_trip_iff_table :
    RoundTrip 16384 16384 4096 (aligned_malloc (fun _ => 4096) 16384 16384 (fun _ => 0)) := by
  refine (aligned_round_trip_iff (k := 14) 16384 (fun _ => 0) ?_ ?_ ?_ ?_ ?_).mpr ?_ <;> decide

/-- Behind a base that is aligned to 65536 the tag says 0. -/
theorem tag_too_small : ∃ m, 65536 = 2 ^ 16 ∧ 65536 % 4 = 0 ∧ 65536 + (8 + 65536) < modulus ∧
    aligned_malloc (fun _ => 65536) 8 65536 (fun _ => 0) = (131072,m) ∧ aligned_free m 131072 = some 131072 ∧
    ¬RoundTrip 8 65536 65536 (131072,m) := by
  refine ⟨_,by decide,by decide,by decide,rfl,rfl,fun trip => ?_⟩
  exact absurd (trip.freed _ rfl rfl) (by decide)

end GridOS.AlignedAlloc
