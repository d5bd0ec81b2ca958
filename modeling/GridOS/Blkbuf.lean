import GridOS.Words
import GridOS.Bitmap

/-!
The allocator of blocks of one size, `source/libs/common/blkbuf.c`. Each memory that it is given becomes an instance: the
blocks first, the manager behind them and the bitmap behind the manager. The instances are in a list through `next`
with the preferred one at its head; those before the preferred one are a second list, through `pre`.
-/
namespace GridOS.Blkbuf
open GridOS.Words GridOS.Bits GridOS.Bitmap

/-- The `int` that a number is converted to. -/
def signed (n : Int) : Int := (n + 2147483648) % 4294967296 - 2147483648

/-- The `unsigned long` that an `int` is converted to. -/
def unsigned (n : Int) : Nat := (n % 4294967296).toNat

/-- `sizeof(struct block_instance)`. -/
def sizeof_instance : Nat := 40

/-- A `struct block_instance` at the address `addr`, without its links and without what `free_handler` is called with. -/
structure block_instance where
  addr : Nat
  bitmap : cl_bitmap
  this_size : Int
  node_count : Int
  free_count : Int

/-- A `struct cl_bkb`: the preferred instance with those behind it, and those before it. -/
structure cl_bkb where
  node_size : Nat
  nexts : List block_instance
  pres : List block_instance

def cl_bkb_init (node_size : Nat) : cl_bkb := ⟨node_size,[],[]⟩

/-- `GET_DATA_AREA`. -/
def data_area (node_size : Nat) (where_ : block_instance) : Nat :=
  sub where_.addr (unsigned (where_.node_count * node_size))

/-! ### Memory for the allocator -/

/-- The bytes that `count` blocks take with their manager and their bitmap. -/
def total_size (node_size count : Nat) : Nat :=
  add (add (cl_bitmap_calc_size count) (count * node_size)) sizeof_instance

/-- The loop of `cl_bkb_extend` that looks for the count; `none` when it has not ended within the fuel. -/
def fit_rounds (node_size size : Nat) : Nat → Nat → Option Nat
  | 0, _ => none
  | fuel+1, cur_count =>
    if total_size node_size cur_count > size then fit_rounds node_size size fuel (sub cur_count 1) else some cur_count

/-- The instance in memory at `base`; `content` is what the memory of the bitmap holds. -/
def new_instance (node_size : Nat) (content : Nat → Words) (base size cur_count : Nat) : block_instance where
  addr := add base (cur_count * node_size)
  bitmap := cl_bitmap_init ⟨fun _ => 0,0,0⟩ (content (add (add base (cur_count * node_size)) sizeof_instance)) cur_count
  this_size := signed size
  node_count := signed cur_count
  free_count := signed cur_count

/-- The instance becomes the preferred one or stands behind it. -/
def insert_instance (bkb : cl_bkb) (buf : block_instance) : cl_bkb :=
  match bkb.nexts with
  | [] => { bkb with nexts := [buf] }
  | prefer :: rest => { bkb with nexts := prefer :: buf :: rest }

def cl_bkb_extend (fuel : Nat) (content : Nat → Words) (bkb : cl_bkb) (base size : Nat) : Option cl_bkb :=
  (fit_rounds bkb.node_size size fuel (size / bkb.node_size)).map (fun cur_count =>
    insert_instance bkb (new_instance bkb.node_size content base size cur_count))

/-! ### Blocks -/

/-- `BLKBUF_ALLOCATE` and the code behind `got`: the address of a block, and the instances. -/
def allocate (node_size : Nat) : List block_instance → Option Nat × List block_instance
  | [] => (none,[])
  | where_ :: rest =>
    let got := cl_bitmap_alloc_bit where_.bitmap
    if got.1 ≠ HAL_BITMAP_ALLOC_BIT_ERROR then
      (some (add (got.1 * node_size) (data_area node_size where_)),
        { where_ with bitmap := got.2, free_count := where_.free_count - 1 } :: rest)
    else
      let later := allocate node_size rest
      (later.1,{ where_ with bitmap := got.2 } :: later.2)

/-- 0 is the null pointer. -/
def cl_bkb_alloc (bkb : cl_bkb) : Nat × cl_bkb :=
  match allocate bkb.node_size bkb.nexts with
  | (some p,nexts) => (p,{ bkb with nexts })
  | (none,nexts) =>
    match allocate bkb.node_size bkb.pres with
    | (some p,pres) => (p,{ bkb with nexts, pres })
    | (none,pres) => (0,{ bkb with nexts, pres })

/-- What the code looks for: `p` lies between the first block and the manager. -/
def InArea (node_size : Nat) (where_ : block_instance) (p : Nat) : Prop := data_area node_size where_ ≤ p ∧ p < where_.addr

instance (node_size : Nat) (where_ : block_instance) (p : Nat) : Decidable (InArea node_size where_ p) :=
  inferInstanceAs (Decidable (_ ∧ _))

/-- What the bitmap says to the free is not looked at. -/
def dealloc (node_size : Nat) (node : block_instance) (p : Nat) : block_instance :=
  { node with
    bitmap := (cl_bitmap_dealloc_bit node.bitmap (sub p (data_area node_size node) / node_size)).2
    free_count := node.free_count + 1 }

/-- `BLKBUF_DEALLOCATE`; `none` when `p` is in no instance. -/
def deallocate (node_size p : Nat) : List block_instance → Option (List block_instance)
  | [] => none
  | where_ :: rest =>
    if InArea node_size where_ p then some (dealloc node_size where_ p :: rest)
    else (deallocate node_size p rest).map (where_ :: ·)

def cl_bkb_dealloc (bkb : cl_bkb) (p : Nat) : Nat × cl_bkb :=
  match deallocate bkb.node_size p bkb.nexts with
  | some nexts => (p,{ bkb with nexts })
  | none =>
    match deallocate bkb.node_size p bkb.pres with
    | some pres => (p,{ bkb with pres })
    | none => (0,bkb)

end GridOS.Blkbuf
