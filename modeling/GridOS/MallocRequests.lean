import GridOS.MallocSearch

/-!
Requests of every size, and pointers that are freed again. The size of a request is a word that `_malloc` takes for
an `int`, rounds up and hands to `alloc` as a word, which adds a header: from 2^32 - 35 on one of the two
sums wraps, and a request for nearly the whole address space is served with any free node there is.
`_free` gives back the pointer whatever `dealloc` has done with it.
-/
namespace GridOS.Malloc
open GridOS.Words GridOS.DoublyLinked

/-- The request that `_malloc` passes on to `alloc`. -/
def request (size : Nat) : Nat := if size &&& 3 ≠ 0 then add (size ||| 3) 1 else size

/-- The nodes of the neighbour list. -/
inductive Node (h : Heap) : Nat → Prop
  | first : Node h h.fisrt_node
  | next {nod : Nat} (node : Node h nod) (more : h.load nod .next ≠ 0) : Node h (h.load nod .next)

/-- Neither the rounding nor the header wraps, or no free node has the bytes of the sum that has wrapped. -/
def Careful (h : Heap) (n : Nat) : Prop :=
  n + sizeofNode + 3 < modulus ∨
    ∀ nod, Node h nod → is_free_node h nod = true → h.load nod .size < add (request n) sizeofNode

/-- A pointer is only returned for a node with the bytes that were asked for, in a heap that is represented. -/
def Right (h : Heap) (live : List (Nat × Nat)) (n : Nat) : Prop :=
  ∀ fuel p h', memalloc fuel h n = some (p,h') → p ≠ 0 →
    n ≤ payload h' p ∧ ∃ whole nodes bins, Represents h' whole ((p,n) :: live) nodes bins

/-- A pointer is refused, and the heap stays as it is. -/
def Rejected (h : Heap) (p : Nat) : Prop := memfree h p = (0,h)

/-- The states reached from the buffer of `size` bytes at `big` by requests of any size that are careful, frees of
    live pointers, writes into live payloads, and frees of pointers that were `freed` before and whose node is
    still marked as free. -/
inductive RequestRun (big size : Nat) : Bool → Heap → List (Nat × Nat) → List Nat → Prop
  | init {h : Heap} (mem : Nat → Nat) (done : memalloc_init_allocation mem big size = (true,h)) :
      RequestRun big size true h [] []
  | alloc {whole : Bool} {h h' : Heap} {live : List (Nat × Nat)} {freed : List Nat} {fuel n p : Nat}
      (run : RequestRun big size whole h live freed) (word : n < modulus) (careful : Careful h n)
      (done : memalloc fuel h n = some (p,h')) :
      RequestRun big size (whole && p == 0) h' (if p = 0 then live else (p,n) :: live) freed
  | free {whole : Bool} {h : Heap} {live : List (Nat × Nat)} {freed : List Nat} {p n : Nat}
      (run : RequestRun big size whole h live freed) (owned : (p,n) ∈ live) :
      RequestRun big size whole (memfree h p).2 (live.erase (p,n)) (p :: freed)
  | again {whole : Bool} {h : Heap} {live : List (Nat × Nat)} {freed : List Nat} {p : Nat}
      (run : RequestRun big size whole h live freed) (before : p ∈ freed)
      (intact : is_free_node h (p - sizeofNode) = true) : RequestRun big size whole (memfree h p).2 live freed
  | write {whole : Bool} {h : Heap} {live : List (Nat × Nat)} {freed : List Nat} {p n a : Nat} (word : Nat)
      (run : RequestRun big size whole h live freed) (owned : (p,n) ∈ live) (low : p ≤ a) (high : a < p + n) :
      RequestRun big size whole { h with mem := Function.update h.mem a word } live freed

/-! ### Nodes in memory -/

theorem node_of_linked {h : Heap} {before a : Nat} {l : List Nat} (linked : Linked (h.load · .next) (h.load · .pre) before l 0)
    (positive : ∀ nod ∈ l, 0 < nod) (first : l.head? = some a) (node : Node h a) : ∀ nod ∈ l, Node h nod := by
  induction l generalizing before a with
  | nil => simp
  | cons b l ih =>
    have same : b = a := by simpa using first
    subst same
    obtain ⟨_,forth,rest⟩ := linked
    intro nod member
    rcases List.mem_cons.mp member with rfl | later
    · exact node
    · cases l with
      | nil => cases later
      | cons c l =>
        have onward : h.load b .next = c := forth
        have more : h.load b .next ≠ 0 := by rw [onward]; exact Nat.ne_of_gt (positive c (by simp))
        have next := Node.next node more
        rw [onward] at next
        exact ih rest (fun nod member => positive nod (by simp [member])) rfl next nod later

section
variable {h : Heap} {whole : Bool} {live : List (Nat × Nat)} {nodes : List Nat} {bins : Nat → List Nat}

/-- The nodes of a heap that is represented are those that the list in memory comes to. -/
theorem Represents.node_iff (represents : Represents h whole live nodes bins) (nod : Nat) : Node h nod ↔ nod ∈ nodes := by
  constructor
  · intro node
    induction node with
    | first => exact List.mem_of_mem_head? represents.first.2
    | next node more ih =>
      obtain ⟨l,r,split⟩ := List.append_of_mem ih
      have linked := represents.linked
      rw [split] at linked
      have forth := (linked_at linked).2
      cases r with
      | nil => exact absurd forth more
      | cons b r =>
        have onward : h.load _ .next = b := forth
        rw [onward,split]
        simp
  · intro member
    have positive : ∀ nod ∈ nodes, 0 < nod := by
      intro nod inside
      have place := represents.place inside
      unfold sizeofBlock at place
      omega
    exact node_of_linked represents.linked positive represents.first.2 .first nod member

/-- A search for a sum that may have wrapped fails when no free node has its bytes, and only then if it
    begins at the first bucket. -/
theorem alloc_null (represents : Represents h whole live nodes bins) (top : h.base + sizeofBlock + h.size < modulus)
    (siz : Nat) {fuel : Nat} (enough : nodes.length < fuel) : ∃ p h', alloc fuel h siz = some (p,h') ∧
      ((∀ nod, Node h nod → is_free_node h nod = true → h.load nod .size < add siz sizeofNode) → p = 0) ∧
      (calc_hash_index (add siz sizeofNode) = 0 → p = 0 →
        ∀ nod, Node h nod → is_free_node h nod = true → h.load nod .size < add siz sizeofNode) := by
  have index := calc_hash_index_lt (add siz sizeofNode)
  obtain ⟨p,h',done,none⟩ := search_filed (represents.filed top) enough siz
    (MAX_HASH_ENTRY - calc_hash_index (add siz sizeofNode)) (calc_hash_index (add siz sizeofNode)) (by omega)
  refine ⟨p,h',done,?_,?_⟩
  · intro small
    rw [none]
    intro k _ high nod member
    have inside := represents.members k nod member
    exact small nod ((represents.node_iff nod).mpr inside) ((represents.free_iff inside).mpr ⟨k,high,member⟩)
  · intro zero null nod node free
    have inside := (represents.node_iff nod).mp node
    obtain ⟨k,high,member⟩ := (represents.free_iff inside).mp free
    exact none.mp null k (by omega) high nod member

end

/-! ### Sums that wrap -/

/-- What is asked for when a sum wraps is less than a header, or just one. -/
theorem request_wraps {n : Nat} (word : n < modulus) (wraps : modulus ≤ n + sizeofNode + 3) :
    add (request n) sizeofNode ≤ sizeofNode := by
  have each : ∀ i < 35, add (request (4294967261 + i)) sizeofNode ≤ sizeofNode := by decide
  obtain ⟨i,rfl⟩ : ∃ i, n = 4294967261 + i := ⟨n - 4294967261,by unfold modulus sizeofNode at wraps; omega⟩
  exact each i (by unfold modulus at word; omega)

/-- Such a search begins at the first bucket. -/
theorem index_wraps {n : Nat} (word : n < modulus) (wraps : modulus ≤ n + sizeofNode + 3) :
    calc_hash_index (add (request n) sizeofNode) = 0 := by
  have least := calc_hash_index_mono (request_wraps word wraps)
  have first : calc_hash_index sizeofNode = 0 := by decide
  omega

section
variable {big size : Nat} (top : big + size < modulus) (large : sizeofBlock + sizeofNode < size)
variable {whole : Bool} {h : Heap} {live : List (Nat × Nat)} {cs : List Chunk} {bins : Nat → List Nat} {n : Nat}

/-- What `memalloc` makes of the answer of `alloc`. -/
theorem memalloc_of_alloc {fuel p : Nat} {h' : Heap} (positive : 0 < n) (done : alloc fuel h (request n) = some (p,h')) :
    memalloc fuel h n = some (if p = 0 then (0,h') else (p,{ h' with used := add h'.used (request n) })) := by
  have rest : (if n &&& 3 ≠ 0 then add (n ||| 3) 1 else n) = request n := rfl
  rw [memalloc,if_neg (by omega)]
  dsimp only
  rw [rest,done]
  dsimp only
  split <;> rfl

include top large in
theorem invariant_top (inv : Invariant big size whole h live cs bins) : h.base + sizeofBlock + h.size < modulus := by
  rw [inv.base,inv.extent]
  omega

include large in
theorem invariant_room (inv : Invariant big size whole h live cs bins) : Represents h whole live (cs.map (·.addr)) bins :=
  invariant_represents inv (by rw [inv.extent]; omega)

include large in
/-- A request whose sum has wrapped, and that no free node can serve, changes nothing. -/
theorem memalloc_refused {fuel p : Nat} {h' : Heap} (inv : Invariant big size whole h live cs bins) (positive : 0 < n)
    (none : ∀ nod, Node h nod → is_free_node h nod = true → h.load nod .size < add (request n) sizeofNode)
    (done : memalloc fuel h n = some (p,h')) : p = 0 ∧ h' = h := by
  cases found : alloc fuel h (request n) with
  | none =>
    have rest : (if n &&& 3 ≠ 0 then add (n ||| 3) 1 else n) = request n := rfl
    rw [memalloc,if_neg (by omega)] at done
    dsimp only at done
    rw [rest,found] at done
    cases done
  | some answer =>
    obtain ⟨q,h1⟩ := answer
    rw [memalloc_of_alloc positive found] at done
    rcases search_sound inv.shape found with ⟨rfl,rfl⟩ | ⟨k,nod,member,enough,_⟩
    · cases done
      exact ⟨rfl,rfl⟩
    · have represents := invariant_room large inv
      have inside := represents.members k nod member
      have bound : k < MAX_HASH_ENTRY := by
        rw [represents.hashed k nod member]
        split
        · decide
        · exact calc_hash_index_lt _
      have small := none nod ((represents.node_iff nod).mpr inside) ((represents.free_iff inside).mpr ⟨k,bound,member⟩)
      omega

include top large in
/-- A careful request keeps the invariant, and a pointer that it returns has the bytes asked for. -/
theorem careful_invariant {fuel p : Nat} {h' : Heap} (inv : Invariant big size whole h live cs bins)
    (careful : Careful h n) (done : memalloc fuel h n = some (p,h')) :
    ∃ cs' bins', Invariant big size (whole && p == 0) h' (if p = 0 then live else (p,n) :: live) cs' bins' := by
  rcases Nat.eq_zero_or_pos n with rfl | positive
  · rw [memalloc,if_pos rfl] at done
    cases done
    exact ⟨cs,bins,by simpa using inv⟩
  · rcases careful with exact | none
    · exact memalloc_invariant top large inv positive exact done
    · obtain ⟨rfl,rfl⟩ := memalloc_refused large inv positive none done
      exact ⟨cs,bins,by simpa using inv⟩

include top large in
/-- A pointer in the block whose node is marked as free goes through `_free` without any effect. -/
theorem memfree_free {p : Nat} (inv : Invariant big size whole h live cs bins) (low : big + sizeofBlock + sizeofNode ≤ p)
    (high : p < big + size) (free : is_free_node h (p - sizeofNode) = true) : memfree h p = (p,h) := by
  have block := invariant_top top large inv
  have base := inv.base
  have extent := inv.extent
  have used : h.used < modulus := by
    have sum := occupied_sum_le inv.shape
    rw [inv.used]
    omega
  have node : sub p sizeofNode = p - sizeofNode := sub_exact (by omega) (by omega)
  have inside : h.base < p ∧ p < add (add h.base sizeofBlock) h.size := by
    have header : 0 < sizeofBlock := by decide
    rw [add_exact (a := h.base) (by omega),add_exact block]
    omega
  have nothing : dealloc h p = (0,h) := by
    rw [dealloc,node]
    dsimp only
    rw [if_pos free]
  have same : sub h.used 0 = h.used := by
    rw [sub_exact (Nat.zero_le _) used,Nat.sub_zero]
  rw [memfree,if_neg (by omega),if_pos inside,nothing]
  dsimp only
  rw [same]

include top large in
/-- The invariant holds in every state, and the freed pointers lie in the block. -/
theorem request_run_invariant {freed : List Nat} (run : RequestRun big size whole h live freed) :
    (∃ cs bins, Invariant big size whole h live cs bins) ∧
      ∀ p ∈ freed, big + sizeofBlock + sizeofNode ≤ p ∧ p < big + size := by
  induction run with
  | init mem done => exact ⟨init_invariant top large mem done,by simp⟩
  | alloc run word careful done ih =>
    obtain ⟨⟨cs,bins,inv⟩,places⟩ := ih
    exact ⟨careful_invariant top large inv careful done,places⟩
  | free run owned ih =>
    rename_i p n
    obtain ⟨⟨cs,bins,inv⟩,places⟩ := ih
    refine ⟨(memfree_invariant top large inv owned).2,?_⟩
    intro q member
    rcases List.mem_cons.mp member with rfl | earlier
    · obtain ⟨l,c,r,rfl,_,pointer,positive,enough⟩ := live_chunk inv owned
      obtain ⟨low,high⟩ := tiles_bounds inv.shape.tiles c (by simp)
      have base := inv.base
      have extent := inv.extent
      unfold Chunk.stop at high
      omega
    · exact places q earlier
  | again run before intact ih =>
    obtain ⟨⟨cs,bins,inv⟩,places⟩ := ih
    obtain ⟨low,high⟩ := places _ before
    rw [memfree_free top large inv low high intact]
    exact ⟨⟨cs,bins,inv⟩,places⟩
  | write word run owned low high ih =>
    obtain ⟨⟨cs,bins,inv⟩,places⟩ := ih
    exact ⟨⟨cs,bins,write_invariant word inv owned low high⟩,places⟩

end

/-- In every run of careful requests: a request of any size is answered with a node that has the bytes asked for, in a
    heap that is represented, if and only if it is careful. -/
theorem sizes_right_iff {big size : Nat} (top : big + size < modulus) (large : sizeofBlock + sizeofNode < size)
    {whole : Bool} {h : Heap} {live : List (Nat × Nat)} {freed : List Nat} (run : RequestRun big size whole h live freed)
    {n : Nat} (word : n < modulus) : Right h live n ↔ Careful h n := by
  obtain ⟨⟨cs,bins,inv⟩,_⟩ := request_run_invariant top large run
  constructor
  · intro right
    by_contra careless
    unfold Careful at careless
    push Not at careless
    obtain ⟨wraps,nod,node,free,enough⟩ := careless
    have represents := invariant_room large inv
    obtain ⟨p,h1,done,_,found⟩ := alloc_null represents (invariant_top top large inv) (request n) (Nat.lt_succ_self _)
    have granted : p ≠ 0 := by
      intro null
      have small := found (index_wraps word wraps) null nod node free
      omega
    have answered := memalloc_of_alloc (by unfold modulus sizeofNode at wraps; omega) done
    rw [if_neg granted] at answered
    obtain ⟨enough',_,_,_,after⟩ := right _ _ _ answered granted
    -- a node of that many bytes is larger than the block
    have inside := after.inside (p,n) (by simp)
    rcases search_sound inv.shape done with ⟨null,_⟩ | ⟨k,nod',_,_,taken⟩
    · exact granted null
    · have manager := take_manager h (request n) nod' k
      rw [taken] at manager
      unfold Heap.manager at manager
      simp only [Prod.mk.injEq] at manager
      dsimp only at inside
      have block := invariant_top top large inv
      obtain ⟨base,extent,_⟩ := manager
      have header : sizeofBlock = 64 := rfl
      have node_header : sizeofNode = 32 := rfl
      omega
  · intro careful fuel p h' done granted
    obtain ⟨cs',bins',after⟩ := careful_invariant top large inv careful done
    rw [if_neg granted] at after
    have represents := invariant_room large after
    exact ⟨represents.served (p,n) (by simp),_,_,_,represents⟩

/-- In every run: a pointer that was freed before, and whose node is still marked as free, is given back as if
    it had been freed, and the heap stays as it is. -/
theorem second_free_accepted {big size : Nat} (top : big + size < modulus) (large : sizeofBlock + sizeofNode < size)
    {whole : Bool} {h : Heap} {live : List (Nat × Nat)} {freed : List Nat} (run : RequestRun big size whole h live freed)
    {p : Nat} (before : p ∈ freed) (intact : is_free_node h (p - sizeofNode) = true) :
    ¬Rejected h p ∧ memfree h p = (p,h) := by
  obtain ⟨⟨cs,bins,inv⟩,places⟩ := request_run_invariant top large run
  obtain ⟨low,high⟩ := places p before
  have given := memfree_free top large inv low high intact
  refine ⟨?_,given⟩
  intro rejected
  have null : p = 0 := (Prod.mk.inj (given.symm.trans rejected)).1
  have header : 0 < sizeofNode := by decide
  omega

/-- A fresh block of 1024 bytes at 4096. -/
theorem fresh_run : RequestRun 4096 1024 true (memalloc_init_allocation (fun _ => 0) 4096 1024).2 [] [] :=
  .init (fun _ => 0) rfl

/-- A request for 2^32 - 3 bytes is served with a node of no bytes. -/
theorem huge_request_served : RequestRun 4096 1024 true (memalloc_init_allocation (fun _ => 0) 4096 1024).2 [] [] ∧
    ¬Right (memalloc_init_allocation (fun _ => 0) 4096 1024).2 [] 4294967293 := by
  refine ⟨fresh_run,?_⟩
  intro right
  have served : (memalloc 2 (memalloc_init_allocation (fun _ => 0) 4096 1024).2 4294967293).map
      (fun answer => (answer.1,payload answer.2 answer.1)) = some (4192,0) := by decide +kernel
  obtain ⟨⟨p,h⟩,done,answer⟩ := Option.map_eq_some_iff.mp served
  obtain ⟨pointer,none⟩ := Prod.mk.inj answer
  dsimp only at pointer none
  have enough := (right 2 p h done (by omega)).1
  omega

/-- The largest careful request, which the block cannot serve, and the first one that is not. -/
theorem sizes_right_largest : Right (memalloc_init_allocation (fun _ => 0) 4096 1024).2 [] 4294967260 ∧
    ¬Right (memalloc_init_allocation (fun _ => 0) 4096 1024).2 [] 4294967261 := by
  refine ⟨(sizes_right_iff (by decide) (by decide) fresh_run (by decide)).mpr (.inl (by decide)),?_⟩
  rw [sizes_right_iff (by decide) (by decide) fresh_run (by decide)]
  rintro (exact | small)
  · exact absurd exact (by decide)
  · exact absurd (small _ .first (by decide +kernel)) (by decide +kernel)

/-- Ten bytes are asked for and freed. -/
theorem freed_run : ∃ h, memalloc 2 (memalloc_init_allocation (fun _ => 0) 4096 1024).2 10 = some (4192,h) ∧
    RequestRun 4096 1024 false (memfree h 4192).2 [] [4192] ∧ is_free_node (memfree h 4192).2 4160 = true := by
  have served : (memalloc 2 (memalloc_init_allocation (fun _ => 0) 4096 1024).2 10).map
      (fun answer => (answer.1,is_free_node (memfree answer.2 4192).2 4160)) = some (4192,true) := by decide +kernel
  obtain ⟨⟨p,h⟩,done,answer⟩ := Option.map_eq_some_iff.mp served
  obtain ⟨pointer,free⟩ := Prod.mk.inj answer
  dsimp only at pointer free
  subst pointer
  have run : RequestRun 4096 1024 _ h _ _ := .alloc fresh_run (by decide) (.inl (by decide)) done
  have freed := RequestRun.free run (p := 4192) (n := 10) (by simp)
  refine ⟨h,done,?_,free⟩
  simpa using freed

/-- The second free of a pointer returns the pointer. -/
theorem freed_again : ∃ h, RequestRun 4096 1024 false h [] [4192] ∧ is_free_node h 4160 = true ∧ ¬Rejected h 4192 := by
  obtain ⟨h,_,run,free⟩ := freed_run
  refine ⟨_,run,free,?_⟩
  intro rejected
  obtain ⟨⟨cs,bins,inv⟩,_⟩ := request_run_invariant (by decide) (by decide) run
  have given := memfree_free (p := 4192) (by decide) (by decide) inv (by decide) (by decide) free
  have null := Prod.mk.inj (given.symm.trans rejected)
  exact absurd null.1 (by decide)

/-- The second free of a pointer to ten bytes returns it. -/
theorem second_free_accepted_ten : ∃ h, is_free_node h 4160 = true ∧ memfree h 4192 = (4192,h) := by
  obtain ⟨h,_,run,free⟩ := freed_run
  exact ⟨_,free,(second_free_accepted (by decide) (by decide) run (by simp) free).2⟩

end GridOS.Malloc
