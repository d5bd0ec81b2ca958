import GridOS.Words

/-!
The ring buffer of `source/libs/common/ring_buff.c`, which carries packages between the network
driver and the protocol stack, on a 32-bit target. Memory holds one word at each word-aligned
address, counted from the cache, so that pointers into the buffer are the offsets the code
keeps. The headers live in that memory: a header write may hit whatever lies at the address.
-/
namespace GridOS.RingBuff
open GridOS.Words

/-- The words of a `struct ring_buff_cache`, in memory order. -/
inductive CacheField
  | cache_buff_length | curr_read_pos | curr_write_pos | is_init
  deriving DecidableEq

def CacheField.offset : CacheField → Nat
  | .cache_buff_length => 0
  | .curr_read_pos => 4
  | .curr_write_pos => 8
  | .is_init => 12

/-- The words of a `struct ring_package`, in memory order. -/
inductive Field
  | valid_flag | next_head | prev_head | package_offset | package_size
  deriving DecidableEq

def Field.offset : Field → Nat
  | .valid_flag => 0
  | .next_head => 4
  | .prev_head => 8
  | .package_offset => 12
  | .package_size => 16

/-- `sizeof(struct ring_buff_cache)`. -/
def sizeofCache : Nat := 16
/-- `sizeof(struct ring_package)`. -/
def sizeofPackage : Nat := 20
/-- `sizeof(long)`. -/
def sizeofLong : Nat := 4
def INVALID_FLAG : Nat := 0
def VALID_FLAG : Nat := 1
def BUSY_FLAG : Nat := 2

abbrev Memory := Nat → Nat

/-- A word of the cache. -/
def get (m : Memory) (f : CacheField) : Nat := m f.offset
def set (m : Memory) (f : CacheField) (value : Nat) : Memory := Function.update m f.offset value

/-- A word of the package at `p`. -/
def load (m : Memory) (p : Nat) (f : Field) : Nat := m (p + f.offset)
def store (m : Memory) (p : Nat) (f : Field) (value : Nat) : Memory := Function.update m (p + f.offset) value

def ALIGN (x a : Nat) : Nat := add x (a - 1) &&& (modulus - 1 - (a - 1))

def cache_head_ring_package : Nat := sizeofCache

def cache_read_pos (m : Memory) : Nat := get m .curr_read_pos
def cache_write_pos (m : Memory) : Nat := get m .curr_write_pos

def cache_is_full (m : Memory) : Bool :=
  cache_write_pos m = cache_read_pos m ∧ load m (cache_write_pos m) .valid_flag ≠ 0

/-- `length` is what the caller says the memory has. -/
def ring_buff_head_init (m : Memory) (length : Nat) : Memory :=
  let m := set m .is_init 1
  let m := set m .cache_buff_length length
  let m := set m .curr_read_pos sizeofCache
  let m := set m .curr_write_pos sizeofCache
  let first_head := cache_head_ring_package
  let m := store m first_head .valid_flag 0
  let m := store m first_head .next_head sizeofCache
  let m := store m first_head .prev_head sizeofCache
  let m := store m first_head .package_offset (sizeofCache + sizeofPackage)
  store m first_head .package_size (sub (sub length sizeofPackage) sizeofCache)

def handle_small_free_package_at_tail (m : Memory) (obj : Nat) : Memory :=
  if cache_read_pos m = cache_write_pos m then set m .curr_read_pos obj else m

def add_to_prev_head (m : Memory) (head new : Nat) : Memory :=
  let m := store m (load m head .next_head) .prev_head new
  let m := store m new .next_head (load m head .next_head)
  let m := store m new .prev_head head
  store m head .next_head new

/-- The part of `slice_buff` that writes the headers. -/
def slice_heads (m : Memory) (slice_head length : Nat) : Memory :=
  let new_head := add (add slice_head length) sizeofPackage
  let m := store m new_head .valid_flag INVALID_FLAG
  let m := store m new_head .package_size (sub (sub (load m slice_head .package_size) length) sizeofPackage)
  let m := store m new_head .package_offset (add (add slice_head length) (2 * sizeofPackage))
  let m := store m slice_head .package_size length
  let m := store m slice_head .package_offset (add slice_head sizeofPackage)
  let m := store m slice_head .valid_flag VALID_FLAG
  add_to_prev_head m slice_head new_head

/-- The end of an allocation: `curr` has been taken, and the next write starts behind it. -/
def move_positions (m : Memory) (curr : Nat) (small : Bool) : Memory :=
  let m := if small then handle_small_free_package_at_tail m curr else m
  set m .curr_write_pos (load m curr .next_head)

/-- The pointer to the body, and the memory. -/
def slice_buff (m : Memory) (slice_head length : Nat) (small : Bool) : Nat × Memory :=
  let m := move_positions (slice_heads m slice_head length) slice_head small
  (load m slice_head .package_offset,m)

/-- How the loop of `ring_buff_alloc` ends, with `curr` and `small`. -/
inductive Search
  | fits (curr : Nat) (small : Bool)
  | found (curr : Nat) (small : Bool)
  | missing
  deriving DecidableEq

/-- The loop of `ring_buff_alloc`; `none` when it has not ended within the fuel. -/
def search (m : Memory) (length : Nat) : Nat → Nat → Bool → Option Search
  | 0, _, _ => none
  | fuel+1, curr, small =>
    let next := load m curr .next_head
    if load m curr .valid_flag ≠ 0 then
      if next ≠ cache_read_pos m then search m length fuel next small else some .missing
    else if load m curr .package_size = length then some (.fits curr small)
    else if ¬load m curr .package_size < add length sizeofPackage then some (.found curr small)
    else if next ≠ cache_read_pos m then search m length fuel next true else some .missing

/-- The pointer to the body, if there is one, and the memory. The loop changes nothing, so that
    it never ends if it has not done so after as many rounds as there are addresses. -/
def ring_buff_alloc (m : Memory) (length : Nat) : Option (Option Nat × Memory) :=
  let length := ALIGN length sizeofLong
  if cache_is_full m then some (none,m) else
  match search m length modulus (cache_write_pos m) false with
  | none => none
  | some .missing => some (none,m)
  | some (.fits curr small) =>
    let m := move_positions (store m curr .valid_flag VALID_FLAG) curr small
    some (some (load m curr .package_offset),m)
  | some (.found curr small) =>
    let sliced := slice_buff m curr length small
    some (some sliced.1,sliced.2)

/-- The package `a` takes over `b`, the one behind it: the headers. -/
def merge_heads (m : Memory) (a b : Nat) : Memory :=
  let m := store m a .next_head (load m b .next_head)
  let m := store m (load m b .next_head) .prev_head a
  store m a .package_size (add (load m a .package_size) (add (load m b .package_size) sizeofPackage))

/-- The package `a` takes over `b`, and the positions with it. -/
def merge (m : Memory) (a b : Nat) : Memory :=
  let m := merge_heads m a b
  let m := if b = cache_write_pos m then set m .curr_write_pos a else m
  if b = cache_read_pos m then set m .curr_read_pos a else m

/-- The code behind `mereg_next`. -/
def merge_next (m : Memory) (package next : Nat) : Memory :=
  if load m next .valid_flag = 0 then merge m package next else m

/-- The part of `ring_buff_free` behind the flag. -/
def merge_neighbours (m : Memory) (package : Nat) : Memory :=
  let prev := load m package .prev_head
  let next := load m package .next_head
  let only_merge_prev := next = cache_head_ring_package
  if package = cache_head_ring_package then merge_next m package next else
  let prev_free := load m prev .valid_flag = 0
  let m := if prev_free then merge m prev package else m
  let package := if prev_free then prev else package
  if only_merge_prev then m else merge_next m package next

def ring_buff_free (m : Memory) (buff : Nat) : Memory :=
  let package := sub buff sizeofPackage
  if load m package .valid_flag = 0 then m else merge_neighbours (store m package .valid_flag INVALID_FLAG) package

/-- Where a package says that the cache begins. -/
def get_cache_head_by_ring_pkt (m : Memory) (pkt : Nat) : Nat :=
  add (sub pkt (load m pkt .package_offset)) sizeofPackage

/-- `none` when the package is taken for one of another cache. -/
def ring_buff_free_package (m : Memory) (obj : Nat) : Option Memory :=
  if get_cache_head_by_ring_pkt m obj = 0 then some (ring_buff_free m (add obj sizeofPackage)) else none

/-- The loop of `ring_cache_read_package`: the package it stops at, if it does before the write
    position; `none` when it has not ended within the fuel. -/
def scan (m : Memory) : Nat → Nat → Option (Option Nat)
  | 0, _ => none
  | fuel+1, next_package =>
    if next_package ≠ cache_write_pos m then
      if load m next_package .valid_flag = VALID_FLAG then some (some next_package)
      else scan m fuel (load m next_package .next_head)
    else some none

/-- The package, if one can be read, and the memory. -/
def ring_cache_read_package (m : Memory) : Option (Option Nat × Memory) :=
  let curr_read := cache_read_pos m
  match scan m modulus (load m curr_read .next_head) with
  | none => none
  | some next_package =>
    let m := set m .curr_read_pos (next_package.getD (cache_write_pos m))
    if load m curr_read .valid_flag = VALID_FLAG then some (some curr_read,store m curr_read .valid_flag BUSY_FLAG)
    else some (none,m)

end GridOS.RingBuff
