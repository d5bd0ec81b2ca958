import GridOS.Words
import GridOS.Bitmap

/-!
The handle table of `source/libs/common/i2p.c`, which turns handles into pointers
for the kernel objects of a process. The chain of `i2p_node`s is a list, `first`
at its head and `last` at its end; the answer of the `malloc` callback is an
argument of the operations that may call it. An operation is `none` when the
code follows a null `next` pointer.
-/
namespace GridOS.I2p
open GridOS.Words GridOS.Bits GridOS.Bitmap

def MAX_COUNT_PER_ARRAY : Nat := 1024
/-- `(-1UL)`. -/
def COMMON_I2P_ALLOC_ERROR : Nat := 4294967295
/-- `sizeof(struct i2p_node)`, `MAX_ARRAY_SIZE` and the bitmap behind them. -/
def node_size : Nat := 40 + MAX_COUNT_PER_ARRAY * 4 + (MAX_COUNT_PER_ARRAY / 8 + 1)

/-- A `struct i2p_node` at the address `addr`. -/
structure Node where
  addr : Nat
  count : Nat
  start_index : Nat
  end_index : Nat
  arr_bitmap : cl_bitmap
  array : Nat → Nat

/-- A `struct i2p`. -/
structure Table where
  nodes : List Node
  node_num : Nat
  used_index : Nat
  total_index : Nat
  max_index_per_node : Nat
  next_index : Nat

/-- The node that `memset` leaves, with its index range behind that of `pre`. -/
def fresh_node (max_index_per_node : Nat) (pre : Option Node) (addr : Nat) : Node where
  addr := addr
  count := 0
  start_index := match pre with
    | some pre => add pre.end_index 1
    | none => 0
  end_index := match pre with
    | some pre => add pre.end_index max_index_per_node
    | none => sub max_index_per_node 1
  arr_bitmap := cl_bitmap_init { bitmap := fun _ => 0, mask_count := 0, last_bit := 0 } (fun _ => 0) MAX_COUNT_PER_ARRAY
  array := fun _ => 0

def i2p_node_create (t : Table) (i2pt : Option Nat) : Option Table :=
  match i2pt with
  | none => none
  | some addr => some { t with
      nodes := t.nodes ++ [fresh_node t.max_index_per_node t.nodes.getLast? addr]
      node_num := t.node_num + 1
      total_index := add t.total_index t.max_index_per_node }

/-- The loop of `__i2p_node_release`, one round for each node at most. -/
def release_rounds : Nat → Table → Table
  | 0, t => t
  | rounds+1, t =>
    match t.nodes.getLast? with
    | none => t
    | some i2pt =>
      if i2pt.count = 0 ∧ t.node_num ≠ 1 then
        release_rounds rounds { t with
          nodes := t.nodes.dropLast
          node_num := t.node_num - 1
          total_index := sub t.total_index t.max_index_per_node }
      else t
def i2p_node_release (t : Table) : Table := release_rounds t.nodes.length t

/-- What `__i2p_dealloc` does in the chain: whether the index was live, whether the
    last node has become empty, and the nodes; `none` for an empty chain. -/
def dealloc_in (index : Nat) : List Node → Option (Bool × Bool × List Node)
  | [] => none
  | i2pt :: rest =>
    if index > i2pt.end_index then
      if rest.isEmpty then some (false,false,[i2pt]) else
      (dealloc_in index rest).map (fun r => (r.1,r.2.1,i2pt :: r.2.2))
    else
      let offset := sub index i2pt.start_index
      let i2pt := { i2pt with array := Function.update i2pt.array offset 0 }
      let ret := cl_bitmap_dealloc_bit i2pt.arr_bitmap offset
      if ret.1 = false then some (false,false,{ i2pt with arr_bitmap := ret.2 } :: rest) else
      some (true,i2pt.count - 1 == 0 && rest.isEmpty,
        { i2pt with arr_bitmap := ret.2, count := i2pt.count - 1 } :: rest)

def i2p_dealloc (t : Table) (index : Nat) : Option (Bool × Table) :=
  match dealloc_in index t.nodes with
  | none => none
  | some (false,_,nodes) => some (false,{ t with nodes })
  | some (true,empty,nodes) =>
    let t := { t with
      nodes
      used_index := sub t.used_index 1
      next_index := if index < t.next_index then index else t.next_index }
    some (true,if empty ∧ t.node_num ≠ 1 then i2p_node_release t else t)

/-- The second loop of `__i2p_alloc` and the code behind it: the index and the nodes;
    `none` when no node is left. -/
def claim_from (ptr : Nat) : List Node → Option (Nat × List Node)
  | [] => none
  | i2pt :: rest =>
    let got := cl_bitmap_alloc_bit i2pt.arr_bitmap
    if got.1 = HAL_BITMAP_ALLOC_BIT_ERROR then
      (claim_from ptr rest).map (fun r => (r.1,{ i2pt with arr_bitmap := got.2 } :: r.2))
    else
      some (add got.1 i2pt.start_index,{ i2pt with
        arr_bitmap := got.2
        count := i2pt.count + 1
        array := Function.update i2pt.array got.1 ptr } :: rest)

/-- The first loop of `__i2p_alloc`; `none` when no node is left. -/
def alloc_in (next_index max_index_per_node ptr : Nat) : List Node → Option (Nat × List Node)
  | [] => none
  | i2pt :: rest =>
    if next_index > i2pt.end_index ∨ i2pt.count = max_index_per_node then
      (alloc_in next_index max_index_per_node ptr rest).map (fun r => (r.1,i2pt :: r.2))
    else claim_from ptr (i2pt :: rest)

/-- `__i2p_alloc` behind the creation of a node. -/
def alloc_existing (t : Table) (ptr : Nat) : Option (Nat × Table) :=
  (alloc_in t.next_index t.max_index_per_node ptr t.nodes).map (fun r =>
    (r.1,{ t with nodes := r.2, used_index := add t.used_index 1, next_index := add r.1 1 }))

def i2p_alloc (t : Table) (ptr : Nat) (malloc : Option Nat) : Option (Nat × Table) :=
  if t.used_index = t.total_index then
    match i2p_node_create t malloc with
    | none => some (COMMON_I2P_ALLOC_ERROR,t)
    | some t => alloc_existing t ptr
  else alloc_existing t ptr

def find_in (index : Nat) : List Node → Option Nat
  | [] => none
  | i2pt :: rest =>
    if index > i2pt.end_index then if rest.isEmpty then some 0 else find_in index rest
    else some (i2pt.array (sub index i2pt.start_index))
def i2p_find (t : Table) (index : Nat) : Option Nat := find_in index t.nodes

/-- The table itself was allocated; `malloc` answers for its first node. -/
def i2p_create (malloc : Option Nat) : Option Table :=
  i2p_node_create ⟨[],0,0,0,MAX_COUNT_PER_ARRAY,0⟩ malloc

/-! ### The finite map -/

/-- The pointer under a handle that is counted from the first of the nodes. -/
def lookup : List Node → Nat → Option Nat
  | [], _ => none
  | n :: rest, h =>
    if h < MAX_COUNT_PER_ARRAY then if test_bit h n.arr_bitmap.bitmap then some (n.array h) else none
    else lookup rest (h - MAX_COUNT_PER_ARRAY)

/-- A node's counters and hint agree with its bits, and its dead entries are null. -/
structure Node.Sound (n : Node) : Prop where
  mask : n.arr_bitmap.mask_count = MAX_COUNT_PER_ARRAY
  count : n.count + (clearBits n.arr_bitmap).card = MAX_COUNT_PER_ARRAY
  hint : ∀ i < n.arr_bitmap.last_bit, test_bit i n.arr_bitmap.bitmap = true
  dead : ∀ i < MAX_COUNT_PER_ARRAY, test_bit i n.arr_bitmap.bitmap = false → n.array i = 0

/-- The nodes cover consecutive ranges of handles from `start` on. -/
def Consecutive : Nat → List Node → Prop
  | _, [] => True
  | start, n :: rest => n.start_index = start ∧ n.end_index = start + (MAX_COUNT_PER_ARRAY - 1) ∧
    Consecutive (start + MAX_COUNT_PER_ARRAY) rest

end GridOS.I2p
