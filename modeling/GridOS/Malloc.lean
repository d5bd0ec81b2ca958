import GridOS.Words
import GridOS.DoublyLinked

/-!
The small-block allocator of `source/libs/common/malloc.c`, which serves the
kernel, the user library and the file system, on a 32-bit target. Memory holds
one word at each word-aligned byte address. Node headers live in that memory, so
a header write may hit whatever lies at the address; that it never hits another
header is a theorem and not built into the model. The block manager in front of
the data area is a record. Its links to other blocks are left out: they are
zeroed by `memalloc_init_allocation` and never assigned, so the walk over blocks
in `_free` looks at one block.
-/
namespace GridOS.Malloc
open GridOS.Words GridOS.DoublyLinked

/-- The words of a `node_t` header, in memory order. -/
inductive Field
  | p_magic | pre | next | hash_pre | hash_next | attribute | size | n_magic
  deriving DecidableEq, Repr

def Field.offset : Field → Nat
  | .p_magic => 0
  | .pre => 4
  | .next => 8
  | .hash_pre => 12
  | .hash_next => 16
  | .attribute => 20
  | .size => 24
  | .n_magic => 28

/-- `sizeof(node_t)`. -/
def sizeofNode : Nat := 32
/-- `sizeof(struct linear_memory_block)`: five words, ten buckets, `fisrt_node`. -/
def sizeofBlock : Nat := 64
def FREE_NODE : Nat := 1
def P_MAGIC : Nat := 0x12332101
def N_MAGIC : Nat := 0x12332102
def MAX_HASH_ENTRY : Nat := 10

/-- A block manager at `base` together with the memory it manages. -/
structure Heap where
  mem : Nat → Nat
  base : Nat
  used : Nat
  inited : Nat
  size : Nat
  free_table : Nat → Nat
  fisrt_node : Nat

def Heap.load (h : Heap) (nod : Nat) (f : Field) : Nat := h.mem (nod + f.offset)
def Heap.store (h : Heap) (nod : Nat) (f : Field) (value : Nat) : Heap :=
  { h with mem := fun a => if a = nod + f.offset then value else h.mem a }
def Heap.setBucket (h : Heap) (k nod : Nat) : Heap :=
  { h with free_table := Function.update h.free_table k nod }

/-- `IS_FREE_NODE`. -/
def is_free_node (h : Heap) (nod : Nat) : Bool := h.load nod .attribute &&& FREE_NODE != 0
/-- `MAKE_FREE`. -/
def make_free (h : Heap) (nod : Nat) : Heap := h.store nod .attribute (h.load nod .attribute ||| FREE_NODE)
/-- `MAKE_OCCUPIED`. -/
def make_occupied (h : Heap) (nod : Nat) : Heap :=
  let h := h.store nod .attribute (h.load nod .attribute &&& (modulus - 1 - FREE_NODE))
  let h := h.store nod .p_magic P_MAGIC
  h.store nod .n_magic N_MAGIC
/-- `HASH_APPEND` on the bucket `k`. -/
def hash_append (h : Heap) (i k : Nat) : Heap :=
  let l := h.free_table k
  let h := h.store i .hash_next l
  let h := h.store i .hash_pre 0
  let h := if l ≠ 0 then h.store l .hash_pre i else h
  h.setBucket k i
/-- `HASH_DELETE` on the bucket `k`. -/
def hash_delete (h : Heap) (i k : Nat) : Heap :=
  let h :=
    if h.load i .hash_pre ≠ 0 then h.store (h.load i .hash_pre) .hash_next (h.load i .hash_next)
    else h.setBucket k (h.load i .hash_next)
  if h.load i .hash_next ≠ 0 then h.store (h.load i .hash_next) .hash_pre (h.load i .hash_pre) else h

/-- The `while (k > 1)` loop of `calc_hash_index`; a 32-bit `k` leaves it within
    32 rounds. -/
def halve : Nat → Nat → Nat → Nat
  | 0, _, i => i
  | rounds+1, k, i => if k > 1 then halve rounds (k >>> 1) (i+1) else i
def calc_hash_index (k : Nat) : Nat :=
  let i := halve 32 (k >>> 5) 0
  if i ≥ MAX_HASH_ENTRY then MAX_HASH_ENTRY - 1 else i

/-- The `while (nod && nod->size < m)` loop of `alloc` along one bucket; `none`
    when it has not ended within the fuel. -/
def fit (h : Heap) (m : Nat) : Nat → Nat → Option Nat
  | 0, _ => none
  | fuel+1, nod =>
    if nod ≠ 0 ∧ h.load nod .size < m then fit h m fuel (h.load nod .hash_next) else some nod

/-- The part of `alloc` that makes the rest of `nod` a node `nod2` of its own and
    links it behind `nod`. -/
def split (h : Heap) (nod nod2 siz siz2 : Nat) : Heap :=
  let h := h.store nod2 .size siz2
  let h := h.store nod .size siz
  let h := h.store nod2 .next (h.load nod .next)
  let h := if h.load nod2 .next ≠ 0 then h.store (h.load nod2 .next) .pre nod2 else h
  let h := h.store nod .next nod2
  h.store nod2 .pre nod

/-- The part of `alloc` behind the search: `nod` was found in bucket `j`. -/
def take (h : Heap) (siz nod j : Nat) : Nat × Heap :=
  let m := add siz sizeofNode
  let rest := sub (add (h.load nod .size) sizeofNode) m
  let h := hash_delete h nod j
  let h := make_occupied h nod
  let h :=
    if rest ≥ sizeofNode then
      let nod2 := add nod m
      let h := split h nod nod2 siz (sub rest sizeofNode)
      let h := hash_append h nod2 (calc_hash_index rest)
      make_free h nod2
    else h
  (add nod sizeofNode,h)

/-- The loop of `alloc` over the buckets from `j` on, `count` of them. -/
def search (fuel : Nat) (h : Heap) (siz : Nat) : Nat → Nat → Option (Nat × Heap)
  | 0, _ => some (0,h)
  | count+1, j =>
    match fit h (add siz sizeofNode) fuel (h.free_table j) with
    | none => none
    | some nod => if nod ≠ 0 then some (take h siz nod j) else search fuel h siz count (j+1)

def alloc (fuel : Nat) (h : Heap) (siz : Nat) : Option (Nat × Heap) :=
  let i := calc_hash_index (add siz sizeofNode)
  search fuel h siz (MAX_HASH_ENTRY - i) i

/-- The part of `merge` behind the bucket: `a` takes over `b` and its successor. -/
def join (h : Heap) (a b : Nat) : Heap :=
  let h := h.store a .size (add (h.load a .size) (add (h.load b .size) sizeofNode))
  let h := h.store a .next (h.load b .next)
  if h.load a .next ≠ 0 then h.store (h.load a .next) .pre a else h

/-- Merges `a` and `b`; `c` is the one of them that is not being freed. -/
def merge (h : Heap) (a b c : Nat) : Heap :=
  join (hash_delete h c (calc_hash_index (add (h.load c .size) sizeofNode))) a b

/-- The part of `dealloc` that merges a free predecessor. -/
def merge_pre (h : Heap) (nod : Nat) : Nat × Heap :=
  let pre := h.load nod .pre
  if pre ≠ 0 ∧ is_free_node h pre then (pre,merge h pre nod pre) else (nod,h)
/-- The part of `dealloc` that merges a free successor. -/
def merge_next (h : Heap) (nod : Nat) : Heap :=
  let next := h.load nod .next
  if next ≠ 0 ∧ is_free_node h next then merge h nod next next else h

/-- The size given back and the heap; 0 when the node is free or damaged. -/
def dealloc (h : Heap) (p : Nat) : Nat × Heap :=
  let nod := sub p sizeofNode
  if is_free_node h nod then (0,h) else
  if h.load nod .p_magic ≠ P_MAGIC then (0,h) else
  if h.load nod .n_magic ≠ N_MAGIC then (0,h) else
  let this_size := h.load nod .size
  let h := make_free h nod
  let left := merge_pre h nod
  let nod := left.1
  let h := merge_next left.2 nod
  (this_size,hash_append h nod (calc_hash_index (add (h.load nod .size) sizeofNode)))

/-- `_malloc`; the request is the word that holds the `int` argument. -/
def memalloc (fuel : Nat) (h : Heap) (size : Nat) : Option (Nat × Heap) :=
  if size = 0 then some (0,h) else
  let size := if size &&& 3 ≠ 0 then add (size ||| 3) 1 else size
  match alloc fuel h size with
  | none => none
  | some (p,h) => if p = 0 then some (0,h) else some (p,{ h with used := add h.used size })

/-- `_free`: the pointer on success, 0 when it lies outside the block. -/
def memfree (h : Heap) (p : Nat) : Nat × Heap :=
  if p = 0 then (0,h) else
  if h.base < p ∧ p < add (add h.base sizeofBlock) h.size then
    let released := dealloc h p
    (p,{ released.2 with used := sub h.used released.1 })
  else (0,h)

def init_block (h : Heap) : Heap :=
  let nod := add h.base sizeofBlock
  let h := h.store nod .next 0
  let h := h.store nod .pre 0
  let h := h.store nod .size (sub h.size sizeofNode)
  let h := hash_append h nod (MAX_HASH_ENTRY - 1)
  let h := make_free h nod
  { h with fisrt_node := nod }

/-- The block manager after its `memset`. -/
def zeroed (mem : Nat → Nat) (big : Nat) : Heap :=
  { mem, base := big, used := 0, inited := 0, size := 0, free_table := fun _ => 0, fisrt_node := 0 }

/-- The comparison with 0 is unsigned, so only an exactly full buffer is refused. -/
def memalloc_init_allocation (mem : Nat → Nat) (big size : Nat) : Bool × Heap :=
  if sub (sub size sizeofBlock) sizeofNode ≤ 0 then (false,zeroed mem big) else
  (true,{ init_block { zeroed mem big with size := sub size sizeofBlock } with inited := 1 })

end GridOS.Malloc
