import GridOS.MallocRuns

/-!
What the search of `alloc` finds. A free node is filed under its size with the header, a request is
looked up under its size with the header of the node that would be left, and both go through
`calc_hash_index`, which never decreases: the buckets in front of the one where the search begins
hold no node that is large enough.
-/
namespace GridOS.Malloc
open GridOS.Words GridOS.DoublyLinked

/-! ### Buckets by size -/

theorem halve_le (rounds k i : Nat) : i ≤ halve rounds k i := by
  induction rounds generalizing k i with
  | zero => exact le_rfl
  | succ rounds ih =>
    rw [halve]
    split
    · have := ih (k >>> 1) (i+1)
      omega
    · exact le_rfl

theorem halve_mono (rounds : Nat) {k k' : Nat} (i : Nat) (le : k ≤ k') : halve rounds k i ≤ halve rounds k' i := by
  induction rounds generalizing k k' i with
  | zero => exact le_rfl
  | succ rounds ih =>
    rw [halve,halve]
    by_cases more : k > 1
    · rw [if_pos more,if_pos (by omega)]
      refine ih (i+1) ?_
      rw [Nat.shiftRight_eq_div_pow,Nat.shiftRight_eq_div_pow]
      exact Nat.div_le_div_right le
    · rw [if_neg more]
      split
      · have := halve_le rounds (k' >>> 1) (i+1)
        omega
      · exact le_rfl

/-- A larger size is never filed under a smaller index. -/
theorem calc_hash_index_mono {k k' : Nat} (le : k ≤ k') : calc_hash_index k ≤ calc_hash_index k' := by
  have shifted : k >>> 5 ≤ k' >>> 5 := by
    rw [Nat.shiftRight_eq_div_pow,Nat.shiftRight_eq_div_pow]
    exact Nat.div_le_div_right le
  have mono := halve_mono 32 0 shifted
  unfold calc_hash_index
  dsimp only
  split <;> split <;> omega

/-! ### The search along the buckets -/

/-- The buckets are lists of nodes in memory, of `n` nodes at most. -/
structure Filed (h : Heap) (bins : Nat → List Nat) (n : Nat) : Prop where
  heads : ∀ k, h.free_table k = (bins k).headD 0
  chains : ∀ k, Linked (h.load · .hash_next) (h.load · .hash_pre) 0 (bins k) 0
  few : ∀ k, (bins k).length ≤ n
  places : ∀ k, ∀ nod ∈ bins k, 0 < nod ∧ nod + sizeofNode < modulus

/-- A bucket is left only when all of its nodes are too small. -/
theorem fit_none {h : Heap} {m fuel before : Nat} {l : List Nat}
    (chain : Linked (h.load · .hash_next) (h.load · .hash_pre) before l 0) (positive : ∀ nod ∈ l, 0 < nod)
    (found : fit h m fuel (l.headD 0) = some 0) : ∀ nod ∈ l, h.load nod .size < m := by
  induction fuel generalizing l before with
  | zero => cases found
  | succ fuel ih =>
    cases l with
    | nil => simp
    | cons a l =>
      have nonzero : a ≠ 0 := Nat.ne_of_gt (positive a (by simp))
      rw [fit,List.headD_cons] at found
      split at found
      · next small =>
        obtain ⟨_,forth,rest⟩ := chain
        have onward : h.load a .hash_next = l.headD 0 := forth
        rw [onward] at found
        intro nod member
        rcases List.mem_cons.mp member with rfl | later
        · exact small.2
        · exact ih rest (fun nod member => positive nod (by simp [member])) found nod later
      · cases found
        exact absurd rfl nonzero

/-- The search from the bucket `j` on ends, and it fails only when all nodes there are too small. -/
theorem search_filed {h : Heap} {bins : Nat → List Nat} {n fuel : Nat} (filed : Filed h bins n) (enough : n < fuel)
    (siz count j : Nat) (stop : j + count = MAX_HASH_ENTRY) :
    ∃ p h', search fuel h siz count j = some (p,h') ∧
      (p = 0 ↔ ∀ k, j ≤ k → k < MAX_HASH_ENTRY → ∀ nod ∈ bins k, h.load nod .size < add siz sizeofNode) := by
  induction count generalizing j with
  | zero =>
    refine ⟨0,h,rfl,fun _ k low high => ?_,fun _ => rfl⟩
    omega
  | succ count ih =>
    have few := filed.few j
    obtain ⟨nod,found⟩ := fit_total (add siz sizeofNode) (filed.chains j) (Nat.lt_of_le_of_lt few enough)
    rw [search,filed.heads j,found]
    dsimp only
    by_cases here : nod = 0
    · subst here
      have small := fit_none (filed.chains j) (fun nod member => (filed.places j nod member).1) found
      obtain ⟨p,h',later,none⟩ := ih (j := j+1) (by omega)
      rw [if_neg (not_not.mpr rfl)]
      refine ⟨p,h',later,?_⟩
      rw [none]
      constructor
      · intro behind k low high
        by_cases first : k = j
        · rw [first]; exact small
        · exact behind k (by omega) high
      · intro all k low high
        exact all k (by omega) high
    · obtain ⟨member,large⟩ := (fit_sound (filed.chains j) found).resolve_left here
      obtain ⟨positive,below⟩ := filed.places j nod member
      rw [if_pos here]
      refine ⟨_,_,rfl,?_⟩
      constructor
      · intro null
        have pointer : add nod sizeofNode = 0 := null
        rw [add_exact below] at pointer
        omega
      · intro all
        have small := all j le_rfl (by omega) nod member
        omega

/-! ### Completeness -/

/-- Nodes that lie one behind the other lie between the first one and the end of all. -/
theorem adjacent_bounds {size : Nat → Nat} {nodes : List Nat} {first : Nat} (start : nodes.head? = some first)
    (adjacent : nodes.IsChain (fun a b => a + sizeofNode + size a = b)) :
    ∀ nod ∈ nodes, first ≤ nod ∧
      nod + sizeofNode + size nod ≤ first + (nodes.map (fun nod => size nod + sizeofNode)).sum := by
  induction nodes generalizing first with
  | nil => simp
  | cons a nodes ih =>
    have same : a = first := by simpa using start
    subst same
    rw [List.map_cons,List.sum_cons]
    intro nod member
    rcases List.mem_cons.mp member with rfl | later
    · omega
    · obtain ⟨joint,rest⟩ := List.isChain_cons.mp adjacent
      cases nodes with
      | nil => cases later
      | cons b nodes =>
        have place := ih rfl rest nod later
        have meet := joint b rfl
        omega

section
variable {h : Heap} {whole : Bool} {live : List (Nat × Nat)} {nodes : List Nat} {bins : Nat → List Nat}

theorem Represents.place (represents : Represents h whole live nodes bins) {nod : Nat} (inside : nod ∈ nodes) :
    h.base + sizeofBlock ≤ nod ∧ nod + sizeofNode + h.load nod .size ≤ h.base + sizeofBlock + h.size := by
  obtain ⟨start,first⟩ := represents.first
  rw [start] at first
  have bounds := adjacent_bounds first represents.adjacent nod inside
  rwa [represents.total] at bounds

theorem Represents.filed (represents : Represents h whole live nodes bins)
    (top : h.base + sizeofBlock + h.size < modulus) : Filed h bins nodes.length where
  heads := represents.heads
  chains := represents.chains
  few k := (List.subperm_of_subset (represents.distinct k) (represents.members k)).length_le
  places k nod member := by
    have place := represents.place (represents.members k nod member)
    unfold sizeofBlock at place
    unfold sizeofBlock at top
    omega

/-- The nodes in the buckets are the free ones. -/
theorem Represents.free_iff (represents : Represents h whole live nodes bins) {nod : Nat} (inside : nod ∈ nodes) :
    is_free_node h nod = true ↔ ∃ k, k < MAX_HASH_ENTRY ∧ nod ∈ bins k := by
  rw [represents.free nod inside]
  constructor
  · rintro ⟨k,listed,_⟩
    exact ⟨k,listed⟩
  · rintro ⟨k,listed⟩
    refine ⟨k,listed,?_⟩
    rintro other ⟨_,member⟩
    rw [represents.hashed k nod listed.2,represents.hashed other nod member]

/-- A node that is large enough for a request stands in no bucket in front of the one where the search begins. -/
theorem Represents.bucket_reached (represents : Represents h whole live nodes bins) {k nod siz : Nat} (member : nod ∈ bins k)
    (large : siz ≤ h.load nod .size) : calc_hash_index (siz + sizeofNode) ≤ k := by
  rw [represents.hashed k nod member]
  split
  · have := calc_hash_index_lt (siz + sizeofNode)
    omega
  · exact calc_hash_index_mono (by omega)

/-- In a heap that is represented a search ends, and it returns NULL exactly when no free node has the bytes
    of the request and of one more header. -/
theorem alloc_complete (represents : Represents h whole live nodes bins) (top : h.base + sizeofBlock + h.size < modulus)
    {siz fuel : Nat} (request : siz + sizeofNode < modulus) (enough : nodes.length < fuel) :
    ∃ p h', alloc fuel h siz = some (p,h') ∧
      (p = 0 ↔ ¬∃ nod ∈ nodes, is_free_node h nod = true ∧ siz + sizeofNode ≤ h.load nod .size) := by
  have index := calc_hash_index_lt (siz + sizeofNode)
  have exact := add_exact request
  unfold alloc
  dsimp only
  rw [exact]
  obtain ⟨p,h',done,none⟩ := search_filed (represents.filed top) enough siz
    (MAX_HASH_ENTRY - calc_hash_index (siz + sizeofNode)) (calc_hash_index (siz + sizeofNode)) (by omega)
  rw [exact] at none
  refine ⟨p,h',done,none.trans ?_⟩
  constructor
  · rintro small ⟨nod,inside,free,large⟩
    obtain ⟨k,below,member⟩ := (represents.free_iff inside).mp free
    have reached := represents.bucket_reached member (Nat.le_of_add_right_le large)
    have := small k reached below nod member
    omega
  · intro none k low high nod member
    by_contra large
    have inside := represents.members k nod member
    exact none ⟨nod,inside,(represents.free_iff inside).mpr ⟨k,high,member⟩,by omega⟩

end

/-- Of the nodes that two requests leave, the first one is free again and serves a request of 12 bytes. -/
theorem alloc_complete_fresh : ∃ h nodes bins, one_freed = some h ∧ Represents h false [(4324,20)] nodes bins ∧
    ∃ p h', alloc (nodes.length + 1) h 12 = some (p,h') ∧ p ≠ 0 := by
  obtain ⟨h,freed,run⟩ := one_freed_run
  obtain ⟨cs,bins,inv⟩ := run_invariant (by decide) (by decide) run
  have base := inv.base
  have extent := inv.extent
  have represents := invariant_represents inv (by rw [extent]; decide)
  obtain ⟨p,h',done,none⟩ := @alloc_complete _ _ _ _ _ represents (by rw [base,extent]; decide) 12 _ (by decide)
    (Nat.lt_succ_self _)
  refine ⟨h,_,bins,freed,represents,p,h',done,?_⟩
  rw [ne_eq,none,not_not]
  have first := represents.first
  have inside : 4160 ∈ cs.map (·.addr) := List.mem_of_mem_head? (by rw [first.2,first.1,base]; rfl)
  have large : (one_freed.map fun h => is_free_node h 4160 && decide (12 + sizeofNode ≤ h.load 4160 .size)) = some true := by
    decide +kernel
  rw [freed,Option.map_some,Option.some.injEq,Bool.and_eq_true,decide_eq_true_eq] at large
  exact ⟨4160,inside,large⟩

end GridOS.Malloc
