import GridOS.Intervals
import GridOS.I2p

/-!
The handle table as a finite map. `Valid` ties a table to the map it stands for;
it holds after `i2p_create` and is kept by every operation, whatever handles are
passed and whenever `malloc` fails. The hint `next_index` is sound because every
handle below it is live, so the loops that follow `next` without a check stop at
a node with a clear bit.
-/
namespace GridOS.I2p
open GridOS.Words GridOS.Bits GridOS.Bitmap GridOS.Intervals

/-! ### One node -/

theorem sound_full {n : Node} (sound : n.Sound) :
    n.count = MAX_COUNT_PER_ARRAY ↔ ∀ i < MAX_COUNT_PER_ARRAY, test_bit i n.arr_bitmap.bitmap = true := by
  have count := sound.count
  have empty : n.count = MAX_COUNT_PER_ARRAY ↔ clearBits n.arr_bitmap = ∅ := by
    rw [← Finset.card_eq_zero]
    omega
  rw [empty,clearBits,Finset.filter_eq_empty_iff,sound.mask]
  simp only [Finset.mem_range,Bool.not_eq_false]

theorem sound_fresh (max_index_per_node : Nat) (pre : Option Node) (addr : Nat) :
    (fresh_node max_index_per_node pre addr).Sound where
  mask := rfl
  count := by
    have all : clearBits (fresh_node max_index_per_node pre addr).arr_bitmap = Finset.range MAX_COUNT_PER_ARRAY := by
      refine Finset.filter_true_of_mem ?_
      intro i inside
      exact cl_bitmap_init_clear _ _ (Finset.mem_range.mp inside)
    rw [all,Finset.card_range]
    rfl
  hint := by intro i less; exact absurd less (Nat.not_lt_zero _)
  dead := by intro i _ _; rfl

/-- A node with one more entry, at its lowest clear bit. -/
theorem sound_claim {n : Node} (sound : n.Sound) {bit : Nat} (ptr : Nat) (inside : bit < MAX_COUNT_PER_ARRAY)
    (clear : test_bit bit n.arr_bitmap.bitmap = false)
    (lowest : ∀ i < bit, test_bit i n.arr_bitmap.bitmap = true) :
    Node.Sound { n with
      arr_bitmap := { n.arr_bitmap with bitmap := set_bit bit n.arr_bitmap.bitmap, last_bit := bit + 1 }
      count := n.count + 1
      array := Function.update n.array bit ptr } where
  mask := sound.mask
  count := by
    have one := clearBits_claimed (claimed_one (bit + 1) (by rw [sound.mask]; exact inside) clear)
    have count := sound.count
    dsimp only at one ⊢
    omega
  hint := by
    intro i less
    change i < bit + 1 at less
    by_cases last : i = bit
    · simp [last]
    · simp [lowest i (by omega)]
  dead := by
    intro i below dead
    rw [test_bit_set_bit,Bool.or_eq_false_iff,decide_eq_false_iff_not] at dead
    change Function.update n.array bit ptr i = 0
    rw [Function.update_of_ne dead.1]
    exact sound.dead i below dead.2

/-- A node with one entry less. -/
theorem sound_release {n : Node} (sound : n.Sound) {bit : Nat} (inside : bit < MAX_COUNT_PER_ARRAY)
    (set : test_bit bit n.arr_bitmap.bitmap = true) :
    0 < n.count ∧ Node.Sound { n with
      arr_bitmap := (cl_bitmap_dealloc_bit n.arr_bitmap bit).2
      count := n.count - 1
      array := Function.update n.array bit 0 } := by
  have released := (cl_bitmap_dealloc_bit_spec set).2
  have claimed := claimed_of_released released (by rw [sound.mask]; omega)
    (fun i low high => by rw [show i = bit by omega]; exact set)
  have one := clearBits_claimed claimed
  have count := sound.count
  have most := clearBits_card_le (cl_bitmap_dealloc_bit n.arr_bitmap bit).2
  rw [released.mask,sound.mask] at most
  refine ⟨by omega,released.mask.trans sound.mask,?_,?_,?_⟩
  · dsimp only
    omega
  · intro i less
    have hint : i < bit ∧ i < n.arr_bitmap.last_bit := by
      change i < (cl_bitmap_dealloc_bit n.arr_bitmap bit).2.last_bit at less
      unfold cl_bitmap_dealloc_bit at less
      rw [if_neg (by simp [set])] at less
      dsimp only at less
      split at less <;> omega
    change test_bit i (cl_bitmap_dealloc_bit n.arr_bitmap bit).2.bitmap = true
    rw [released.bits i,sound.hint i hint.2,decide_eq_false (by omega)]
    rfl
  · intro i below dead
    change Function.update n.array bit 0 i = 0
    by_cases same : i = bit
    · rw [same,Function.update_self]
    · rw [Function.update_of_ne same]
      refine sound.dead i below ?_
      rw [released.bits i,decide_eq_false (by omega)] at dead
      simpa using dead

/-! ### The chain of nodes -/

theorem lookup_here {n : Node} (rest : List Node) {h : Nat} (inside : h < MAX_COUNT_PER_ARRAY) :
    lookup (n :: rest) h = if test_bit h n.arr_bitmap.bitmap then some (n.array h) else none := by
  rw [lookup,if_pos inside]

theorem lookup_later (n : Node) (rest : List Node) (h : Nat) :
    lookup (n :: rest) (MAX_COUNT_PER_ARRAY + h) = lookup rest h := by
  rw [lookup,if_neg (by omega),Nat.add_sub_cancel_left]

theorem lookup_beyond {nodes : List Node} {h : Nat} (beyond : MAX_COUNT_PER_ARRAY * nodes.length ≤ h) :
    lookup nodes h = none := by
  induction nodes generalizing h with
  | nil => rfl
  | cons n rest ih =>
    rw [List.length_cons,Nat.mul_succ] at beyond
    obtain ⟨j,rfl⟩ : ∃ j, h = MAX_COUNT_PER_ARRAY + j := ⟨h - MAX_COUNT_PER_ARRAY,by omega⟩
    rw [lookup_later]
    exact ih (by omega)

/-- A change of one entry behind the first node. -/
theorem lookup_cons_update {n : Node} {rest rest' : List Node} {k : Nat} {v : Option Nat}
    (same : lookup rest' = Function.update (lookup rest) k v) :
    lookup (n :: rest') = Function.update (lookup (n :: rest)) (MAX_COUNT_PER_ARRAY + k) v := by
  funext h
  by_cases here : h < MAX_COUNT_PER_ARRAY
  · rw [lookup_here rest' here,Function.update_of_ne (by omega),lookup_here rest here]
  · obtain ⟨j,rfl⟩ : ∃ j, h = MAX_COUNT_PER_ARRAY + j := ⟨h - MAX_COUNT_PER_ARRAY,by omega⟩
    rw [lookup_later,same]
    by_cases at_ : j = k
    · rw [at_,Function.update_self,Function.update_self]
    · rw [Function.update_of_ne at_,Function.update_of_ne (by omega),lookup_later]

/-- A change of one entry of the first node. -/
theorem lookup_head_update {n n' : Node} {rest : List Node} {k : Nat} {v : Option Nat} (inside : k < MAX_COUNT_PER_ARRAY)
    (here : (if test_bit k n'.arr_bitmap.bitmap then some (n'.array k) else none) = v)
    (others : ∀ i, i ≠ k → test_bit i n'.arr_bitmap.bitmap = test_bit i n.arr_bitmap.bitmap ∧ n'.array i = n.array i) :
    lookup (n' :: rest) = Function.update (lookup (n :: rest)) k v := by
  funext h
  by_cases at_ : h = k
  · rw [at_,Function.update_self,lookup_here rest inside,here]
  · rw [Function.update_of_ne at_,lookup,lookup,(others h at_).1,(others h at_).2]

/-- The nodes `nodes'` are `nodes` with `ptr` under the smallest handle that was not
    live, the `k`-th. -/
structure Claim (start : Nat) (nodes nodes' : List Node) (k ptr : Nat) : Prop where
  inside : k < MAX_COUNT_PER_ARRAY * nodes.length
  free : lookup nodes k = none
  lowest : ∀ j < k, (lookup nodes j).isSome
  map : lookup nodes' = Function.update (lookup nodes) k (some ptr)
  consecutive : Consecutive start nodes'
  sound : ∀ n ∈ nodes', n.Sound
  addrs : nodes'.map (·.addr) = nodes.map (·.addr)
  counts : (nodes'.map (·.count)).sum = (nodes.map (·.count)).sum + 1

/-- A full node in front is passed. -/
theorem claim_cons {start : Nat} {n : Node} {rest rest' : List Node} {k ptr : Nat} (sound : n.Sound)
    (full : n.count = MAX_COUNT_PER_ARRAY) (first : n.start_index = start)
    (last : n.end_index = start + (MAX_COUNT_PER_ARRAY - 1))
    (claim : Claim (start + MAX_COUNT_PER_ARRAY) rest rest' k ptr) :
    Claim start (n :: rest) (n :: rest') (MAX_COUNT_PER_ARRAY + k) ptr where
  inside := by
    have := claim.inside
    rw [List.length_cons,Nat.mul_succ]
    omega
  free := by rw [lookup_later]; exact claim.free
  lowest := by
    intro j less
    by_cases here : j < MAX_COUNT_PER_ARRAY
    · rw [lookup_here rest here,(sound_full sound).mp full j here]
      rfl
    · obtain ⟨i,rfl⟩ : ∃ i, j = MAX_COUNT_PER_ARRAY + i := ⟨j - MAX_COUNT_PER_ARRAY,by omega⟩
      rw [lookup_later]
      exact claim.lowest i (by omega)
  map := lookup_cons_update claim.map
  consecutive := ⟨first,last,claim.consecutive⟩
  sound := by
    intro m member
    rcases List.mem_cons.mp member with rfl | later
    · exact sound
    · exact claim.sound m later
  addrs := by simp [claim.addrs]
  counts := by
    have := claim.counts
    simp only [List.map_cons,List.sum_cons]
    omega

/-- A node that is not full serves the request. -/
theorem claim_from_spec {start : Nat} {n : Node} {rest : List Node} (ptr : Nat)
    (sound : ∀ m ∈ n :: rest, m.Sound) (consecutive : Consecutive start (n :: rest))
    (top : start + MAX_COUNT_PER_ARRAY ≤ modulus) (notFull : n.count ≠ MAX_COUNT_PER_ARRAY) :
    ∃ k nodes', claim_from ptr (n :: rest) = some (start + k,nodes') ∧ Claim start (n :: rest) nodes' k ptr := by
  have soundN := sound n (by simp)
  obtain ⟨rfl,last,others⟩ := consecutive
  rcases cl_bitmap_alloc_bit_spec n.arr_bitmap with ⟨bit,got,inside,clear,lowest⟩ | ⟨_,full⟩
  · rw [soundN.mask] at inside
    have below := lowest soundN.hint
    have small : bit ≠ HAL_BITMAP_ALLOC_BIT_ERROR := by
      unfold MAX_COUNT_PER_ARRAY at inside
      unfold HAL_BITMAP_ALLOC_BIT_ERROR
      omega
    rw [claim_from,got]
    dsimp only
    rw [if_neg small,add_exact (by omega),Nat.add_comm bit]
    refine ⟨bit,_,rfl,?_⟩
    constructor
    · rw [List.length_cons,Nat.mul_succ]; omega
    · rw [lookup_here rest inside,clear]; rfl
    · intro j less
      rw [lookup_here rest (by omega),below j less]
      rfl
    · refine lookup_head_update inside (by simp) ?_
      intro i differ
      simp [differ]
    · exact ⟨rfl,last,others⟩
    · intro m member
      rcases List.mem_cons.mp member with rfl | later
      · exact sound_claim soundN ptr inside clear below
      · exact sound m (by simp [later])
    · simp
    · simp only [List.map_cons,List.sum_cons]
      omega
  · rw [soundN.mask] at full
    exact absurd ((sound_full soundN).mpr full) notFull

/-- Neither loop of `__i2p_alloc` runs off the chain while some entry is free and every
    handle below `next_index` is live. -/
theorem alloc_in_spec {start : Nat} {nodes : List Node} (next_index ptr : Nat)
    (sound : ∀ n ∈ nodes, n.Sound) (consecutive : Consecutive start nodes)
    (top : start + MAX_COUNT_PER_ARRAY * nodes.length ≤ modulus)
    (hint : ∀ j, start + j < next_index → (lookup nodes j).isSome)
    (room : (nodes.map (·.count)).sum < MAX_COUNT_PER_ARRAY * nodes.length) :
    ∃ k nodes', alloc_in next_index MAX_COUNT_PER_ARRAY ptr nodes = some (start + k,nodes') ∧
      Claim start nodes nodes' k ptr := by
  induction nodes generalizing start with
  | nil => simp at room
  | cons n rest ih =>
    have soundN := sound n (by simp)
    rw [List.length_cons,Nat.mul_succ] at top
    rw [alloc_in]
    by_cases skip : next_index > n.end_index ∨ n.count = MAX_COUNT_PER_ARRAY
    · have full : n.count = MAX_COUNT_PER_ARRAY := by
        rcases skip with beyond | full
        · -- every handle of this node lies below the hint, so every bit is set
          rw [sound_full soundN]
          intro i inside
          have live := hint i (by rw [consecutive.2.1] at beyond; omega)
          rw [lookup_here rest inside] at live
          by_contra clear
          rw [if_neg clear] at live
          cases live
        · exact full
      simp only [List.map_cons,List.sum_cons,List.length_cons,Nat.mul_succ] at room
      obtain ⟨k,rest',done,claim⟩ := ih (fun m member => sound m (by simp [member])) consecutive.2.2 (by omega)
        (fun j below => by
          rw [← lookup_later n rest j]
          exact hint (MAX_COUNT_PER_ARRAY + j) (by omega))
        (by omega)
      rw [if_pos skip,done]
      exact ⟨MAX_COUNT_PER_ARRAY + k,n :: rest',by rw [← Nat.add_assoc]; rfl,
        claim_cons soundN full consecutive.1 consecutive.2.1 claim⟩
    · rw [if_neg skip]
      exact claim_from_spec ptr sound consecutive (by omega) (fun full => skip (.inr full))

theorem find_in_spec {start : Nat} {nodes : List Node} {index : Nat} (sound : ∀ n ∈ nodes, n.Sound)
    (consecutive : Consecutive start nodes) (nonempty : nodes ≠ []) (low : start ≤ index) (word : index < modulus) :
    find_in index nodes = some ((lookup nodes (index - start)).getD 0) := by
  induction nodes generalizing start with
  | nil => exact absurd rfl nonempty
  | cons n rest ih =>
    obtain ⟨first,last,others⟩ := consecutive
    have positive : 0 < MAX_COUNT_PER_ARRAY := by decide
    rw [find_in]
    by_cases beyond : index > n.end_index
    · have position : index - start = MAX_COUNT_PER_ARRAY + (index - (start + MAX_COUNT_PER_ARRAY)) := by omega
      rw [if_pos beyond,position,lookup_later]
      cases rest with
      | nil => rfl
      | cons m rest =>
        exact ih (fun m member => sound m (by simp [member])) others (by simp) (by omega)
    · have inside : index - start < MAX_COUNT_PER_ARRAY := by omega
      rw [if_neg beyond,first,sub_exact low word,lookup_here rest inside]
      split
      · rfl
      · next dead => rw [(sound n (by simp)).dead _ inside (by simpa using dead)]; rfl

/-- The nodes `nodes'` are `nodes` without the `k`-th handle, which was live. -/
structure Freed (start : Nat) (nodes nodes' : List Node) (k : Nat) : Prop where
  map : lookup nodes' = Function.update (lookup nodes) k none
  consecutive : Consecutive start nodes'
  sound : ∀ n ∈ nodes', n.Sound
  addrs : nodes'.map (·.addr) = nodes.map (·.addr)
  counts : (nodes'.map (·.count)).sum + 1 = (nodes.map (·.count)).sum

theorem freed_cons {start : Nat} {n : Node} {rest rest' : List Node} {k : Nat} (sound : n.Sound)
    (first : n.start_index = start) (last : n.end_index = start + (MAX_COUNT_PER_ARRAY - 1))
    (freed : Freed (start + MAX_COUNT_PER_ARRAY) rest rest' k) :
    Freed start (n :: rest) (n :: rest') (MAX_COUNT_PER_ARRAY + k) where
  map := lookup_cons_update freed.map
  consecutive := ⟨first,last,freed.consecutive⟩
  sound := by
    intro m member
    rcases List.mem_cons.mp member with rfl | later
    · exact sound
    · exact freed.sound m later
  addrs := by simp [freed.addrs]
  counts := by
    have := freed.counts
    simp only [List.map_cons,List.sum_cons]
    omega

/-- A handle that is not live leaves the chain as it is, although the code clears its
    entry before it looks at the bit. -/
theorem dealloc_in_dead {start : Nat} {nodes : List Node} {index : Nat} (sound : ∀ n ∈ nodes, n.Sound)
    (consecutive : Consecutive start nodes) (nonempty : nodes ≠ []) (low : start ≤ index) (word : index < modulus)
    (dead : lookup nodes (index - start) = none) : dealloc_in index nodes = some (false,false,nodes) := by
  induction nodes generalizing start with
  | nil => exact absurd rfl nonempty
  | cons n rest ih =>
    obtain ⟨rfl,last,others⟩ := consecutive
    have positive : 0 < MAX_COUNT_PER_ARRAY := by decide
    rw [dealloc_in]
    by_cases beyond : index > n.end_index
    · have position : index - n.start_index = MAX_COUNT_PER_ARRAY + (index - (n.start_index + MAX_COUNT_PER_ARRAY)) := by omega
      rw [position,lookup_later] at dead
      rw [if_pos beyond]
      cases rest with
      | nil => rfl
      | cons m rest =>
        rw [ih (fun m member => sound m (by simp [member])) others (by simp) (by omega) dead]
        rfl
    · have inside : index - n.start_index < MAX_COUNT_PER_ARRAY := by omega
      rw [lookup_here rest inside] at dead
      have clear : test_bit (index - n.start_index) n.arr_bitmap.bitmap = false := by
        by_contra set
        rw [if_pos (by simpa using set)] at dead
        cases dead
      have null := (sound n (by simp)).dead _ inside clear
      rw [if_neg beyond,sub_exact low word]
      unfold cl_bitmap_dealloc_bit
      dsimp only
      rw [if_pos clear,Function.update_eq_self_iff.mpr null.symm]
      rfl

/-- A live handle is taken out. -/
theorem dealloc_in_live {start : Nat} {nodes : List Node} {index : Nat} (sound : ∀ n ∈ nodes, n.Sound)
    (consecutive : Consecutive start nodes) (low : start ≤ index) (word : index < modulus)
    (live : (lookup nodes (index - start)).isSome) :
    ∃ empty nodes', dealloc_in index nodes = some (true,empty,nodes') ∧ Freed start nodes nodes' (index - start) := by
  induction nodes generalizing start with
  | nil => cases live
  | cons n rest ih =>
    obtain ⟨rfl,last,others⟩ := consecutive
    have soundN := sound n (by simp)
    have positive : 0 < MAX_COUNT_PER_ARRAY := by decide
    rw [dealloc_in]
    by_cases beyond : index > n.end_index
    · have position : index - n.start_index = MAX_COUNT_PER_ARRAY + (index - (n.start_index + MAX_COUNT_PER_ARRAY)) := by omega
      rw [position,lookup_later] at live
      rw [if_pos beyond,position]
      cases rest with
      | nil => cases live
      | cons m rest =>
        obtain ⟨empty,rest',done,freed⟩ := ih (fun m member => sound m (by simp [member])) others (by omega) live
        rw [done]
        exact ⟨empty,n :: rest',rfl,freed_cons soundN rfl last freed⟩
    · have inside : index - n.start_index < MAX_COUNT_PER_ARRAY := by omega
      rw [lookup_here rest inside] at live
      have set : test_bit (index - n.start_index) n.arr_bitmap.bitmap = true := by
        by_contra clear
        rw [if_neg clear] at live
        cases live
      obtain ⟨success,released⟩ := cl_bitmap_dealloc_bit_spec set
      obtain ⟨counted,soundN'⟩ := sound_release soundN inside set
      rw [if_neg beyond,sub_exact low word]
      dsimp only
      rw [success,if_neg (by simp)]
      refine ⟨_,_,rfl,?_⟩
      constructor
      · refine lookup_head_update inside ?_ ?_
        · dsimp only
          rw [released.bits,decide_eq_true (by omega)]
          rfl
        · intro i differ
          dsimp only
          rw [released.bits,decide_eq_false (by omega),Function.update_of_ne differ]
          exact ⟨rfl,rfl⟩
      · exact ⟨rfl,last,others⟩
      · intro m member
        rcases List.mem_cons.mp member with rfl | later
        · exact soundN'
        · exact sound m (by simp [later])
      · simp
      · simp only [List.map_cons,List.sum_cons]
        omega

theorem consecutive_append (start : Nat) (nodes : List Node) (n : Node) :
    Consecutive start (nodes ++ [n]) ↔ Consecutive start nodes ∧
      n.start_index = start + MAX_COUNT_PER_ARRAY * nodes.length ∧
      n.end_index = start + MAX_COUNT_PER_ARRAY * nodes.length + (MAX_COUNT_PER_ARRAY - 1) := by
  induction nodes generalizing start with
  | nil => simp [Consecutive]
  | cons m rest ih =>
    have position : start + MAX_COUNT_PER_ARRAY * (m :: rest).length =
        start + MAX_COUNT_PER_ARRAY + MAX_COUNT_PER_ARRAY * rest.length := by
      rw [List.length_cons,Nat.mul_succ]
      omega
    rw [List.cons_append,Consecutive,ih,position,Consecutive]
    simp only [and_assoc]

/-- A node without live entries at the end adds nothing to the map. -/
theorem lookup_append_empty (nodes : List Node) {n : Node}
    (empty : ∀ i < MAX_COUNT_PER_ARRAY, test_bit i n.arr_bitmap.bitmap = false) : lookup (nodes ++ [n]) = lookup nodes := by
  induction nodes with
  | nil =>
    funext h
    change (if _ then _ else none) = none
    split
    · next inside => rw [empty h inside]; rfl
    · rfl
  | cons m rest ih =>
    funext h
    rw [List.cons_append,lookup,lookup,ih]

theorem sound_empty {n : Node} (sound : n.Sound) (zero : n.count = 0) :
    ∀ i < MAX_COUNT_PER_ARRAY, test_bit i n.arr_bitmap.bitmap = false := by
  have count := sound.count
  rw [zero,Nat.zero_add] at count
  have all : clearBits n.arr_bitmap = Finset.range n.arr_bitmap.mask_count := by
    refine Finset.eq_of_subset_of_card_le (Finset.filter_subset ..) ?_
    rw [Finset.card_range,sound.mask,count]
  intro i inside
  have member : i ∈ clearBits n.arr_bitmap := by
    rw [all,sound.mask]
    exact Finset.mem_range.mpr inside
  exact (Finset.mem_filter.mp member).2

theorem counts_le {nodes : List Node} (sound : ∀ n ∈ nodes, n.Sound) :
    (nodes.map (·.count)).sum ≤ MAX_COUNT_PER_ARRAY * nodes.length := by
  induction nodes with
  | nil => simp
  | cons n rest ih =>
    have here := (sound n (by simp)).count
    have later := ih (fun m member => sound m (by simp [member]))
    simp only [List.map_cons,List.sum_cons,List.length_cons,Nat.mul_succ]
    omega

/-! ### The table -/

/-- `malloc` answers for a new node: a null pointer or memory inside the address space
    that no node of the table occupies. -/
def Answers (nodes : List Node) (malloc : Option Nat) : Prop :=
  ∀ addr, malloc = some addr → addr + node_size ≤ modulus ∧ ∀ n ∈ nodes, Apart node_size n.addr addr

/-- The table stands for the map `m` from handles to pointers. -/
structure Valid (t : Table) (m : Nat → Option Nat) : Prop where
  max : t.max_index_per_node = MAX_COUNT_PER_ARRAY
  nonempty : t.nodes ≠ []
  consecutive : Consecutive 0 t.nodes
  sound : ∀ n ∈ t.nodes, n.Sound
  node_num : t.node_num = t.nodes.length
  total : t.total_index = MAX_COUNT_PER_ARRAY * t.nodes.length
  used : t.used_index = (t.nodes.map (·.count)).sum
  hint : ∀ h < t.next_index, (m h).isSome
  map : m = lookup t.nodes
  apart : (t.nodes.map (·.addr)).Pairwise (Apart node_size)
  placed : ∀ n ∈ t.nodes, n.addr + node_size ≤ modulus

/-- The address space has no room for so many nodes that an index could wrap. -/
theorem nodes_few {nodes : List Node} (apart : (nodes.map (·.addr)).Pairwise (Apart node_size))
    (placed : ∀ n ∈ nodes, n.addr + node_size ≤ modulus) : MAX_COUNT_PER_ARRAY * nodes.length < 2147483648 := by
  have below : ∀ a ∈ nodes.map (·.addr), a + node_size ≤ modulus := by
    intro a member
    obtain ⟨n,inside,rfl⟩ := List.mem_map.mp member
    exact placed n inside
  have few := length_mul_le apart below
  rw [List.length_map] at few
  unfold node_size modulus MAX_COUNT_PER_ARRAY at *
  omega

theorem valid_few {t : Table} {m : Nat → Option Nat} (valid : Valid t m) :
    MAX_COUNT_PER_ARRAY * t.nodes.length < 2147483648 := nodes_few valid.apart valid.placed

/-- A new node at the end of the chain. -/
theorem create_valid {t t' : Table} {m : Nat → Option Nat} {malloc : Option Nat} (valid : Valid t m)
    (answers : Answers t.nodes malloc) (done : i2p_node_create t malloc = some t') :
    Valid t' m ∧ t'.used_index = t.used_index ∧ t'.total_index = t.total_index + MAX_COUNT_PER_ARRAY := by
  cases malloc with
  | none => cases done
  | some addr =>
    obtain ⟨room,elsewhere⟩ := answers addr rfl
    have few := valid_few valid
    have exact : add t.total_index t.max_index_per_node = t.total_index + MAX_COUNT_PER_ARRAY := by
      rw [valid.max,valid.total]
      exact add_exact (by unfold modulus MAX_COUNT_PER_ARRAY at *; omega)
    rw [i2p_node_create,exact] at done
    cases done
    have sound := sound_fresh t.max_index_per_node t.nodes.getLast? addr
    refine ⟨?_,rfl,rfl⟩
    constructor
    · exact valid.max
    · simp
    · refine (consecutive_append ..).mpr ⟨valid.consecutive,?_⟩
      obtain ⟨rest,last,split⟩ := (List.eq_nil_or_concat' t.nodes).resolve_left valid.nonempty
      have ends := ((consecutive_append 0 rest last).mp (split ▸ valid.consecutive)).2.2
      rw [split] at few ⊢
      rw [List.length_append,List.length_singleton,Nat.mul_succ] at *
      have positive : 0 < MAX_COUNT_PER_ARRAY := by decide
      simp only [fresh_node,List.getLast?_concat,ends,valid.max]
      rw [add_exact (by unfold modulus; omega),add_exact (by unfold modulus; omega)]
      omega
    · intro n member
      rcases List.mem_append.mp member with old | new
      · exact valid.sound n old
      · rw [List.mem_singleton.mp new]; exact sound
    · simp [valid.node_num]
    · simp only [List.length_append,List.length_singleton,Nat.mul_succ]
      rw [valid.total]
    · simp [valid.used,fresh_node]
    · exact valid.hint
    · rw [valid.map]
      exact (lookup_append_empty _ (sound_empty sound rfl)).symm
    · rw [List.map_append]
      refine List.pairwise_append.mpr ⟨valid.apart,List.pairwise_singleton ..,?_⟩
      intro a inA b inB
      obtain ⟨n,inside,rfl⟩ := List.mem_map.mp inA
      have isNew : b = addr := by simpa [fresh_node] using inB
      rw [isNew]
      exact elsewhere n inside
    · intro n member
      rcases List.mem_append.mp member with old | new
      · exact valid.placed n old
      · rw [List.mem_singleton.mp new]; exact room

/-- Nodes at the same addresses with other entries. -/
theorem valid_entries {t : Table} {m m' : Nat → Option Nat} {nodes' : List Node} {used next : Nat} (valid : Valid t m)
    (addrs : nodes'.map (·.addr) = t.nodes.map (·.addr)) (consecutive : Consecutive 0 nodes')
    (sound : ∀ n ∈ nodes', n.Sound) (counted : used = (nodes'.map (·.count)).sum) (hint : ∀ h < next, (m' h).isSome)
    (map : m' = lookup nodes') : Valid { t with nodes := nodes', used_index := used, next_index := next } m' := by
  have length : nodes'.length = t.nodes.length := by simpa using congrArg List.length addrs
  constructor
  · exact valid.max
  · rintro rfl
    exact valid.nonempty (List.eq_nil_of_length_eq_zero length.symm)
  · exact consecutive
  · exact sound
  · dsimp only; rw [valid.node_num,length]
  · dsimp only; rw [valid.total,length]
  · exact counted
  · exact hint
  · exact map
  · dsimp only; rw [addrs]; exact valid.apart
  · intro n member
    have listed : n.addr ∈ t.nodes.map (·.addr) := addrs ▸ List.mem_map_of_mem (f := Node.addr) member
    obtain ⟨n',inside,same⟩ := List.mem_map.mp listed
    rw [← same]
    exact valid.placed n' inside

/-- With a free entry in some node, the smallest handle that is not live is handed out. -/
theorem alloc_existing_valid {t : Table} {m : Nat → Option Nat} (ptr : Nat) (valid : Valid t m)
    (room : t.used_index ≠ t.total_index) :
    ∃ h t', alloc_existing t ptr = some (h,t') ∧ h ≠ COMMON_I2P_ALLOC_ERROR ∧ m h = none ∧ (∀ i < h, (m i).isSome) ∧
      Valid t' (Function.update m h (some ptr)) := by
  have few := valid_few valid
  have most := counts_le valid.sound
  rw [valid.used,valid.total] at room
  obtain ⟨k,nodes',done,claim⟩ := alloc_in_spec t.next_index ptr valid.sound valid.consecutive
    (by unfold modulus; omega) (fun j below => by rw [← valid.map]; exact valid.hint j (by omega)) (by omega)
  have inside := claim.inside
  have result : alloc_existing t ptr =
      some (k,{ t with nodes := nodes', used_index := t.used_index + 1, next_index := k + 1 }) := by
    rw [Nat.zero_add,← valid.max] at done
    rw [alloc_existing,done,Option.map_some,add_exact (b := 1),add_exact (b := 1)]
    · unfold modulus; omega
    · rw [valid.used]; unfold modulus; omega
  refine ⟨k,_,result,?_,?_,?_,?_⟩
  · unfold COMMON_I2P_ALLOC_ERROR; omega
  · rw [valid.map]; exact claim.free
  · rw [valid.map]; exact claim.lowest
  · refine valid_entries valid claim.addrs claim.consecutive claim.sound ?_ ?_ ?_
    · rw [valid.used,claim.counts]
    · intro h less
      by_cases last : h = k
      · rw [last,Function.update_self]; rfl
      · rw [Function.update_of_ne last,valid.map]
        exact claim.lowest h (by omega)
    · rw [valid.map]; exact claim.map.symm

theorem release_rounds_valid {m : Nat → Option Nat} (rounds : Nat) {t : Table} (valid : Valid t m) :
    Valid (release_rounds rounds t) m := by
  induction rounds generalizing t with
  | zero => exact valid
  | succ rounds ih =>
    rw [release_rounds]
    obtain ⟨rest,last,split⟩ := (List.eq_nil_or_concat' t.nodes).resolve_left valid.nonempty
    rw [split,List.getLast?_concat]
    dsimp only
    by_cases empty : last.count = 0 ∧ t.node_num ≠ 1
    · rw [if_pos empty]
      have sound := valid.sound
      have total := valid.total
      have node_num := valid.node_num
      have used := valid.used
      have map := valid.map
      have few := valid_few valid
      rw [split] at sound total node_num used map few
      simp only [List.length_append,List.length_singleton,Nat.mul_succ] at total node_num few
      rw [lookup_append_empty rest (sound_empty (sound last (by simp)) empty.1)] at map
      refine ih ?_
      rw [List.dropLast_concat]
      constructor
      · exact valid.max
      · rintro rfl
        exact empty.2 node_num
      · exact ((consecutive_append 0 rest last).mp (split ▸ valid.consecutive)).1
      · intro n member; exact sound n (by simp [member])
      · dsimp only; omega
      · dsimp only
        rw [valid.max,sub_exact (by omega) (by unfold modulus; omega)]
        omega
      · simpa [empty.1] using used
      · exact valid.hint
      · exact map
      · have apart := valid.apart
        rw [split,List.map_append] at apart
        exact (List.pairwise_append.mp apart).1
      · intro n member
        exact valid.placed n (by simp [split,member])
    · rw [if_neg empty]
      exact valid

/-- A live handle is given back. -/
theorem dealloc_live_valid {t : Table} {m : Nat → Option Nat} {index : Nat} (valid : Valid t m) (word : index < modulus)
    (live : (m index).isSome) :
    ∃ t', i2p_dealloc t index = some (true,t') ∧ Valid t' (Function.update m index none) := by
  have few := valid_few valid
  have most := counts_le valid.sound
  rw [valid.map] at live
  obtain ⟨empty,nodes',done,freed⟩ := dealloc_in_live valid.sound valid.consecutive (Nat.zero_le _) word live
  have counts := freed.counts
  have after : ∀ next ≤ t.next_index, (index < t.next_index → next ≤ index) →
      Valid { t with nodes := nodes', used_index := sub t.used_index 1, next_index := next }
        (Function.update m index none) := by
    intro next lower before
    refine valid_entries valid freed.addrs freed.consecutive freed.sound ?_ ?_ ?_
    · rw [valid.used,sub_exact (by omega) (by unfold modulus; omega)]
      omega
    · intro h less
      rw [Function.update_of_ne (by omega)]
      exact valid.hint h (by omega)
    · rw [valid.map]; exact freed.map.symm
  have now := after (if index < t.next_index then index else t.next_index) (by split <;> omega)
    (fun less => by rw [if_pos less])
  rw [i2p_dealloc,done]
  refine ⟨_,rfl,?_⟩
  by_cases release : empty = true ∧ t.node_num ≠ 1
  · dsimp only
    rw [if_pos release]
    exact release_rounds_valid _ now
  · dsimp only
    rw [if_neg release]
    exact now

theorem dealloc_dead_same {t : Table} {m : Nat → Option Nat} {index : Nat} (valid : Valid t m) (word : index < modulus)
    (dead : m index = none) : i2p_dealloc t index = some (false,t) := by
  rw [valid.map] at dead
  rw [i2p_dealloc,dealloc_in_dead valid.sound valid.consecutive valid.nonempty (Nat.zero_le _) word dead]

/-- `i2p_alloc` in any valid state: the error value and the same table when a node is
    needed and cannot be had, else the smallest handle that is not live. -/
theorem alloc_valid {t : Table} {m : Nat → Option Nat} (ptr : Nat) (malloc : Option Nat) (valid : Valid t m)
    (answers : Answers t.nodes malloc) :
    ∃ h t', i2p_alloc t ptr malloc = some (h,t') ∧
      if t.used_index = t.total_index ∧ malloc = none then h = COMMON_I2P_ALLOC_ERROR ∧ t' = t
      else h ≠ COMMON_I2P_ALLOC_ERROR ∧ m h = none ∧ (∀ i < h, (m i).isSome) ∧
        Valid t' (Function.update m h (some ptr)) := by
  rw [i2p_alloc]
  by_cases full : t.used_index = t.total_index
  · rw [if_pos full]
    cases created : i2p_node_create t malloc with
    | none =>
      have refused : malloc = none := by
        cases malloc with
        | none => rfl
        | some addr => cases created
      exact ⟨_,t,rfl,by rw [if_pos ⟨full,refused⟩]; exact ⟨rfl,rfl⟩⟩
    | some t1 =>
      obtain ⟨valid1,used,total⟩ := create_valid valid answers created
      obtain ⟨h,t',done,result⟩ := alloc_existing_valid ptr valid1 (by
        rw [used,total,full]
        unfold MAX_COUNT_PER_ARRAY
        omega)
      refine ⟨h,t',done,?_⟩
      rw [if_neg]
      · exact result
      · rintro ⟨_,rfl⟩; cases created
  · rw [if_neg full]
    obtain ⟨h,t',done,result⟩ := alloc_existing_valid ptr valid full
    exact ⟨h,t',done,by rw [if_neg (fun both => full both.1)]; exact result⟩

/-! ### Runs -/

/-- The tables reached by operations from `i2p_create`, with the map from each live
    handle to the pointer that was last stored under it. -/
inductive Run : Table → (Nat → Option Nat) → Prop
  | create {t : Table} {malloc : Option Nat} (answers : Answers [] malloc) (done : i2p_create malloc = some t) :
      Run t (fun _ => none)
  | alloc {t t' : Table} {m : Nat → Option Nat} {malloc : Option Nat} {ptr h : Nat} (run : Run t m)
      (answers : Answers t.nodes malloc) (done : i2p_alloc t ptr malloc = some (h,t')) :
      Run t' (if h = COMMON_I2P_ALLOC_ERROR then m else Function.update m h (some ptr))
  | dealloc {t t' : Table} {m : Nat → Option Nat} {index : Nat} {freed : Bool} (run : Run t m)
      (word : index < modulus) (done : i2p_dealloc t index = some (freed,t')) : Run t' (Function.update m index none)

theorem run_valid {t : Table} {m : Nat → Option Nat} (run : Run t m) : Valid t m := by
  induction run with
  | create answers done =>
    rename_i t malloc
    cases malloc with
    | none => cases done
    | some addr =>
      cases done
      have sound := sound_fresh MAX_COUNT_PER_ARRAY none addr
      constructor
      · rfl
      · simp
      · exact ⟨rfl,rfl,trivial⟩
      · intro n member
        rw [List.mem_singleton.mp member]
        exact sound
      · rfl
      · rfl
      · rfl
      · intro h less; exact absurd less (Nat.not_lt_zero _)
      · exact (lookup_append_empty [] (sound_empty sound rfl)).symm
      · exact List.pairwise_singleton ..
      · intro n member
        rw [List.mem_singleton.mp member]
        exact (answers addr rfl).1
  | alloc run answers done valid =>
    obtain ⟨h,t',result,outcome⟩ := alloc_valid _ _ valid answers
    rw [done] at result
    cases result
    split at outcome
    · obtain ⟨rfl,rfl⟩ := outcome
      rw [if_pos rfl]
      exact valid
    · rw [if_neg outcome.1]
      exact outcome.2.2.2
  | dealloc run word done valid =>
    rename_i t t' m index freed
    cases live : m index with
    | none =>
      rw [dealloc_dead_same valid word live] at done
      cases done
      rw [Function.update_eq_self_iff.mpr live.symm]
      exact valid
    | some ptr =>
      obtain ⟨t1,result,valid'⟩ := dealloc_live_valid valid word (by rw [live]; rfl)
      rw [done] at result
      cases result
      exact valid'

theorem valid_find {t : Table} {m : Nat → Option Nat} (valid : Valid t m) {h : Nat} (word : h < modulus) :
    i2p_find t h = some ((m h).getD 0) := by
  rw [i2p_find,find_in_spec valid.sound valid.consecutive valid.nonempty (Nat.zero_le _) word,valid.map]
  rfl

theorem valid_beyond {t : Table} {m : Nat → Option Nat} (valid : Valid t m) {h : Nat} (live : (m h).isSome) :
    h < MAX_COUNT_PER_ARRAY * t.nodes.length := by
  by_contra beyond
  rw [valid.map,lookup_beyond (by omega)] at live
  cases live

/-- What the table in a state shows of the finite map `m`. -/
structure Refines (t : Table) (m : Nat → Option Nat) : Prop where
  find : ∀ h < modulus, i2p_find t h = some ((m h).getD 0)
  alloc : ∀ ptr malloc, Answers t.nodes malloc → ∃ h t', i2p_alloc t ptr malloc = some (h,t') ∧
    if t.used_index = t.total_index ∧ malloc = none then h = COMMON_I2P_ALLOC_ERROR ∧ t' = t
    else h ≠ COMMON_I2P_ALLOC_ERROR ∧ m h = none ∧ ∀ i < h, (m i).isSome
  dealloc_live : ∀ h < modulus, (m h).isSome → ∃ t', i2p_dealloc t h = some (true,t')
  dealloc_dead : ∀ h < modulus, m h = none → i2p_dealloc t h = some (false,t)
  used : ∃ live : Finset Nat, (∀ h, h ∈ live ↔ (m h).isSome) ∧ t.used_index = live.card
  total : t.total_index = MAX_COUNT_PER_ARRAY * t.node_num
  node_num : t.node_num = t.nodes.length
  counts : ∀ n ∈ t.nodes, n.count =
    ((Finset.range MAX_COUNT_PER_ARRAY).filter (fun i => test_bit i n.arr_bitmap.bitmap = true)).card
  ranges : Consecutive 0 t.nodes

theorem sound_count {n : Node} (sound : n.Sound) : n.count =
    ((Finset.range MAX_COUNT_PER_ARRAY).filter (fun i => test_bit i n.arr_bitmap.bitmap = true)).card := by
  have parts := Finset.card_filter_add_card_filter_not (s := Finset.range MAX_COUNT_PER_ARRAY)
    (fun i => test_bit i n.arr_bitmap.bitmap = true)
  have clear := sound.count
  rw [clearBits,sound.mask] at clear
  simp only [Bool.not_eq_true,Finset.card_range] at parts
  omega

/-- The counters of the nodes add up to the number of live handles. -/
theorem counts_live {nodes : List Node} (sound : ∀ n ∈ nodes, n.Sound) :
    (nodes.map (·.count)).sum = Nat.count (fun h => (lookup nodes h).isSome) (MAX_COUNT_PER_ARRAY * nodes.length) := by
  induction nodes with
  | nil => simp
  | cons n rest ih =>
    have here : n.count = Nat.count (fun h => (lookup (n :: rest) h).isSome) MAX_COUNT_PER_ARRAY := by
      rw [sound_count (sound n (by simp)),Nat.count_eq_card_filter_range]
      refine congrArg Finset.card (Finset.filter_congr ?_)
      intro i inside
      rw [lookup_here rest (Finset.mem_range.mp inside)]
      split
      · next set => simp [set]
      · next clear => simp [clear]
    rw [List.map_cons,List.sum_cons,List.length_cons,Nat.mul_succ,Nat.add_comm (MAX_COUNT_PER_ARRAY * rest.length),
      Nat.count_add,← here,ih (fun m member => sound m (by simp [member]))]
    simp only [lookup_later]

/-! ### The first handles of a process -/

/-- The handles below `k` are live, all with one pointer. -/
def first_handles (k : Nat) (h : Nat) : Option Nat := if h < k then some 77 else none

theorem first_handles_succ (k : Nat) : Function.update (first_handles k) k (some 77) = first_handles (k+1) := by
  funext h
  unfold first_handles
  by_cases last : h = k
  · rw [last,Function.update_self,if_pos (Nat.lt_succ_self k)]
  · rw [Function.update_of_ne last]
    exact if_congr (by omega) rfl rfl

/-- The handle that an allocation hands out is the first one that is not live. -/
theorem first_handles_next {k h : Nat} (free : first_handles k h = none) (lowest : ∀ i < h, (first_handles k i).isSome) :
    h = k := by
  unfold first_handles at *
  have least : ¬k < h := by
    intro less
    have live := lowest k less
    rw [if_neg (lt_irrefl k)] at live
    cases live
  have past : ¬h < k := by
    intro less
    rw [if_pos less] at free
    cases free
  omega

theorem claim_from_addrs {ptr : Nat} {nodes : List Node} {r : Nat × List Node} (done : claim_from ptr nodes = some r) :
    r.2.map (·.addr) = nodes.map (·.addr) := by
  induction nodes generalizing r with
  | nil => cases done
  | cons n rest ih =>
    rw [claim_from] at done
    split at done
    · obtain ⟨later,found,rfl⟩ := Option.map_eq_some_iff.mp done
      rw [List.map_cons,List.map_cons,ih found]
    · cases done
      rfl

theorem alloc_in_addrs {next_index max_index_per_node ptr : Nat} {nodes : List Node} {r : Nat × List Node}
    (done : alloc_in next_index max_index_per_node ptr nodes = some r) : r.2.map (·.addr) = nodes.map (·.addr) := by
  induction nodes generalizing r with
  | nil => cases done
  | cons n rest ih =>
    rw [alloc_in] at done
    split at done
    · obtain ⟨later,found,rfl⟩ := Option.map_eq_some_iff.mp done
      rw [List.map_cons,List.map_cons,ih found]
    · exact claim_from_addrs done

/-- One node is enough for the first 1024 handles. -/
theorem first_handles_run {k : Nat} (few : k ≤ MAX_COUNT_PER_ARRAY) :
    ∃ t, Run t (first_handles k) ∧ t.nodes.map (·.addr) = [4096] ∧ t.used_index = k := by
  induction k with
  | zero =>
    have answers : Answers [] (some 4096) := by
      intro addr same
      cases same
      exact ⟨by decide,by simp⟩
    exact ⟨_,.create answers rfl,rfl,rfl⟩
  | succ k ih =>
    obtain ⟨t,run,addrs,used⟩ := ih (Nat.le_of_succ_le few)
    have valid := run_valid run
    have one : t.nodes.length = 1 := by rw [← List.length_map (·.addr),addrs]; rfl
    have room : t.used_index ≠ t.total_index := by
      rw [used,valid.total,one]
      omega
    have answers : Answers t.nodes none := by intro addr same; cases same
    obtain ⟨h,t',done,outcome⟩ := alloc_valid 77 none valid answers
    rw [if_neg (fun both => room both.1)] at outcome
    obtain ⟨served,free,lowest,_⟩ := outcome
    have next := Run.alloc run answers done
    rw [if_neg served,first_handles_next free lowest,first_handles_succ] at next
    refine ⟨t',next,?_⟩
    rw [i2p_alloc,if_neg room,alloc_existing] at done
    obtain ⟨r,found,same⟩ := Option.map_eq_some_iff.mp done
    cases same
    refine ⟨(alloc_in_addrs found).trans addrs,?_⟩
    dsimp only
    rw [used]
    exact Words.add_exact (by unfold Words.modulus; unfold MAX_COUNT_PER_ARRAY at few; omega)

/-! ### What runs refine -/

/-- Every table that a run reaches refines the finite map of the run. -/
theorem run_refines {t : Table} {m : Nat → Option Nat} (run : Run t m) : Refines t m := by
  have valid := run_valid run
  constructor
  · intro h word
    exact valid_find valid word
  · intro ptr malloc answers
    obtain ⟨h,t',done,outcome⟩ := alloc_valid ptr malloc valid answers
    refine ⟨h,t',done,?_⟩
    split
    · next refused => rw [if_pos refused] at outcome; exact outcome
    · next served =>
      rw [if_neg served] at outcome
      exact ⟨outcome.1,outcome.2.1,outcome.2.2.1⟩
  · intro h word live
    obtain ⟨t',done,_⟩ := dealloc_live_valid valid word live
    exact ⟨t',done⟩
  · intro h word dead
    exact dealloc_dead_same valid word dead
  · refine ⟨(Finset.range (MAX_COUNT_PER_ARRAY * t.nodes.length)).filter (fun h => (m h).isSome),?_,?_⟩
    · intro h
      rw [Finset.mem_filter,Finset.mem_range]
      exact ⟨fun both => both.2,fun live => ⟨valid_beyond valid live,live⟩⟩
    · rw [valid.used,counts_live valid.sound,Nat.count_eq_card_filter_range,valid.map]
  · rw [valid.total,valid.node_num]
  · exact valid.node_num
  · intro n member
    exact sound_count (valid.sound n member)
  · exact valid.consecutive

/-- A table with two handles, the first of which is given back. -/
theorem run_refines_first_handle : ∃ t, Refines t (Function.update (first_handles 2) 0 none) := by
  obtain ⟨t,run,_⟩ := first_handles_run (show 2 ≤ MAX_COUNT_PER_ARRAY by decide)
  obtain ⟨t',done,_⟩ := dealloc_live_valid (run_valid run) (by decide : 0 < Words.modulus) (show (first_handles 2 0).isSome from rfl)
  exact ⟨t',run_refines (run.dealloc (by decide) done)⟩

end GridOS.I2p
