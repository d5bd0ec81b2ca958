import GridOS.MallocShape

/-!
Whole runs of the allocator. `Invariant` holds after `memalloc_init_allocation`
and is kept by every `memalloc` and by every `memfree` of a live pointer, and by
the owners of live payloads writing into them.
-/
namespace GridOS.Malloc
open GridOS.Words GridOS.DoublyLinked

/-- The bucket of a settled free chunk; `whole` while the initial node has never
    been split. -/
def bucket (whole : Bool) (c : Chunk) : Nat :=
  if whole then MAX_HASH_ENTRY - 1 else calc_hash_index (c.size + sizeofNode)

/-- Between operations every chunk is handed out or stands in its bucket. -/
def Settled (whole : Bool) (cs : List Chunk) : Prop :=
  ∀ c ∈ cs, c.status = .live ∨ c.status = .binned (bucket whole c)

/-- No two neighbours are both free. -/
def Separated (cs : List Chunk) : Prop := cs.IsChain (fun a b => a.status.isFree = false ∨ b.status.isFree = false)

def Chunk.isLive (c : Chunk) : Bool := c.status == .live

/-- The chunks that are handed out, in address order. -/
def occupied (cs : List Chunk) : List Chunk := cs.filter (·.isLive)

@[simp] theorem occupied_append (l r : List Chunk) : occupied (l ++ r) = occupied l ++ occupied r := List.filter_append ..
theorem occupied_live {c : Chunk} (live : c.status = .live) (cs : List Chunk) : occupied (c :: cs) = c :: occupied cs := by
  simp [occupied,Chunk.isLive,live]
theorem occupied_binned {c : Chunk} {k : Nat} (binned : c.status = .binned k) (cs : List Chunk) :
    occupied (c :: cs) = occupied cs := by
  simp [occupied,Chunk.isLive,binned]

/-- The manager's fields that only `memalloc` and `memfree` themselves change. -/
def Heap.manager (h : Heap) : Nat × Nat × Nat × Nat := (h.base,h.size,h.used,h.fisrt_node)

/-! ### Searching -/

theorem fit_sound {h : Heap} {m fuel nod before : Nat} {l : List Nat}
    (chain : Linked (h.load · .hash_next) (h.load · .hash_pre) before l 0)
    (found : fit h m fuel (l.headD 0) = some nod) : nod = 0 ∨ nod ∈ l ∧ m ≤ h.load nod .size := by
  induction fuel generalizing l before with
  | zero => simp [fit] at found
  | succ fuel ih =>
    cases l with
    | nil => simp [fit] at found; exact .inl found.symm
    | cons a l =>
      rw [fit] at found
      by_cases small : (a :: l).headD 0 ≠ 0 ∧ h.load ((a :: l).headD 0) .size < m
      · rw [if_pos small] at found
        obtain ⟨_,forth,rest⟩ := chain
        have onward : h.load a .hash_next = l.headD 0 := forth
        rw [List.headD_cons,onward] at found
        exact (ih rest found).imp id (fun both => ⟨List.mem_cons_of_mem _ both.1,both.2⟩)
      · rw [if_neg small] at found
        have same : a = nod := by simpa using found
        subst same
        by_cases zero : a = 0
        · exact .inl zero
        · exact .inr ⟨by simp,by simpa [zero] using small⟩

theorem fit_total {h : Heap} (m : Nat) {fuel before : Nat} {l : List Nat}
    (chain : Linked (h.load · .hash_next) (h.load · .hash_pre) before l 0) (enough : l.length < fuel) :
    ∃ nod, fit h m fuel (l.headD 0) = some nod := by
  induction fuel generalizing l before with
  | zero => omega
  | succ fuel ih =>
    rw [fit]
    split
    · next small =>
      cases l with
      | nil => simp at small
      | cons a l =>
        obtain ⟨_,forth,rest⟩ := chain
        have onward : h.load a .hash_next = l.headD 0 := forth
        rw [List.headD_cons,onward]
        exact ih rest (by simpa using enough)
    · exact ⟨_,rfl⟩

/-- What `alloc` does: nothing, or it takes a node of some bucket that is large enough. -/
theorem search_sound {h : Heap} {cs : List Chunk} {bins : Nat → List Nat} {fuel siz count j p : Nat} {h' : Heap}
    (shape : Shape h cs bins) (done : search fuel h siz count j = some (p,h')) :
    (p = 0 ∧ h' = h) ∨
      ∃ k nod, nod ∈ bins k ∧ add siz sizeofNode ≤ h.load nod .size ∧ take h siz nod k = (p,h') := by
  induction count generalizing j with
  | zero =>
    rw [search] at done
    cases done
    exact .inl ⟨rfl,rfl⟩
  | succ count ih =>
    rw [search,shape.heads j] at done
    cases found : fit h (add siz sizeofNode) fuel ((bins j).headD 0) with
    | none => rw [found] at done; cases done
    | some nod =>
      rw [found] at done
      by_cases nonzero : nod ≠ 0
      · simp only [if_pos nonzero,Option.some.injEq] at done
        obtain ⟨member,large⟩ := (fit_sound (shape.chains j) found).resolve_left nonzero
        exact .inr ⟨j,nod,member,large,done⟩
      · simp only [if_neg nonzero] at done
        exact ih done

theorem bins_length {h : Heap} {cs : List Chunk} {bins : Nat → List Nat} (shape : Shape h cs bins) (k : Nat) :
    (bins k).length ≤ cs.length := by
  have within : bins k ⊆ cs.map (·.addr) := by
    intro a member
    obtain ⟨c,inside,rfl,_⟩ := (shape.members k a).mp member
    exact List.mem_map_of_mem inside
  simpa using (List.subperm_of_subset (shape.distinct k) within).length_le

theorem search_total {h : Heap} {cs : List Chunk} {bins : Nat → List Nat} {fuel : Nat} (shape : Shape h cs bins)
    (enough : cs.length < fuel) (siz count j : Nat) : ∃ result, search fuel h siz count j = some result := by
  induction count generalizing j with
  | zero => exact ⟨_,rfl⟩
  | succ count ih =>
    rw [search,shape.heads j]
    obtain ⟨nod,found⟩ := fit_total (add siz sizeofNode) (shape.chains j)
      (Nat.lt_of_le_of_lt (bins_length shape j) enough)
    rw [found]
    by_cases nonzero : nod ≠ 0
    · exact ⟨_,if_pos nonzero⟩
    · simp only [if_neg nonzero]; exact ih (j+1)

theorem memalloc_total {h : Heap} {cs : List Chunk} {bins : Nat → List Nat} {fuel : Nat} (shape : Shape h cs bins)
    (enough : cs.length < fuel) (n : Nat) : ∃ result, memalloc fuel h n = some result := by
  unfold memalloc
  by_cases zero : n = 0
  · exact ⟨_,if_pos zero⟩
  · rw [if_neg zero]
    generalize (if n &&& 3 ≠ 0 then add (n ||| 3) 1 else n) = siz
    obtain ⟨⟨p,h1⟩,found⟩ : ∃ result, alloc fuel h siz = some result := search_total shape enough siz _ _
    dsimp only
    rw [found]
    by_cases null : p = 0
    · exact ⟨_,if_pos null⟩
    · exact ⟨_,if_neg null⟩

/-! ### The manager's own fields -/

@[simp] theorem store_manager (h : Heap) (nod : Nat) (f : Field) (v : Nat) : (h.store nod f v).manager = h.manager := rfl
@[simp] theorem setBucket_manager (h : Heap) (k nod : Nat) : (h.setBucket k nod).manager = h.manager := rfl
@[simp] theorem hash_delete_manager (h : Heap) (i k : Nat) : (hash_delete h i k).manager = h.manager := by
  unfold hash_delete; dsimp only; split_ifs <;> simp
@[simp] theorem hash_append_manager (h : Heap) (i k : Nat) : (hash_append h i k).manager = h.manager := by
  unfold hash_append; dsimp only; split_ifs <;> simp
@[simp] theorem make_free_manager (h : Heap) (nod : Nat) : (make_free h nod).manager = h.manager := rfl
@[simp] theorem make_occupied_manager (h : Heap) (nod : Nat) : (make_occupied h nod).manager = h.manager := rfl
@[simp] theorem split_manager (h : Heap) (nod nod2 siz siz2 : Nat) : (split h nod nod2 siz siz2).manager = h.manager := by
  unfold split; dsimp only; split_ifs <;> simp
@[simp] theorem join_manager (h : Heap) (a b : Nat) : (join h a b).manager = h.manager := by
  unfold join; dsimp only; split_ifs <;> simp
@[simp] theorem merge_manager (h : Heap) (a b c : Nat) : (merge h a b c).manager = h.manager := by simp [merge]
@[simp] theorem merge_pre_manager (h : Heap) (nod : Nat) : (merge_pre h nod).2.manager = h.manager := by
  unfold merge_pre; dsimp only; split_ifs <;> simp
@[simp] theorem merge_next_manager (h : Heap) (nod : Nat) : (merge_next h nod).manager = h.manager := by
  unfold merge_next; dsimp only; split_ifs <;> simp
theorem take_manager (h : Heap) (siz nod j : Nat) : (take h siz nod j).2.manager = h.manager := by
  unfold take; dsimp only; split_ifs <;> simp
theorem dealloc_manager (h : Heap) (p : Nat) : (dealloc h p).2.manager = h.manager := by
  unfold dealloc; dsimp only; split_ifs <;> simp

theorem init_block_manager (h : Heap) :
    (init_block h).base = h.base ∧ (init_block h).size = h.size ∧ (init_block h).used = h.used := by
  unfold init_block
  dsimp only
  have kept := hash_append_manager (((h.store (add h.base sizeofBlock) .next 0).store (add h.base sizeofBlock) .pre 0).store
    (add h.base sizeofBlock) .size (sub h.size sizeofNode)) (add h.base sizeofBlock) (MAX_HASH_ENTRY - 1)
  simp only [Heap.manager,Prod.mk.injEq] at kept
  exact ⟨kept.1,kept.2.1,kept.2.2.1⟩

/-! ### Taking a chunk -/

/-- The data area ends below the top of the address space. -/
def Fits (h : Heap) : Prop := h.base + sizeofBlock + h.size < modulus

theorem chunk_fits {h : Heap} {cs : List Chunk} {bins : Nat → List Nat} (shape : Shape h cs bins) (fits : Fits h)
    {c : Chunk} (inside : c ∈ cs) : c.addr + sizeofNode + c.size < modulus := by
  have := (tiles_bounds shape.tiles c inside).2
  unfold Fits at fits
  unfold Chunk.stop at this
  omega

/-- A large enough free chunk is cut into the chunk handed out and a free rest,
    which goes into the bucket of its size. -/
theorem take_shape {h : Heap} {l r : List Chunk} {c : Chunk} {bins : Nat → List Nat} {siz j : Nat}
    (shape : Shape h (l ++ c :: r) bins) (fits : Fits h) (status : c.status = .binned j)
    (large : siz + sizeofNode ≤ c.size) :
    (take h siz c.addr j).1 = c.addr + sizeofNode ∧
      ∃ bins', Shape (take h siz c.addr j).2 (l ++ ⟨c.addr,siz,.live⟩ ::
        ⟨c.addr + sizeofNode + siz,c.size - siz - sizeofNode,.binned (calc_hash_index (c.size - siz))⟩ :: r) bins' := by
  have inside : c ∈ l ++ c :: r := by simp
  have bound := chunk_fits shape fits inside
  have m : add siz sizeofNode = siz + sizeofNode := add_exact (by omega)
  have rest : sub (add (h.load c.addr .size) sizeofNode) (add siz sizeofNode) = c.size - siz := by
    rw [m,shape.sizes c inside,add_exact (by omega),sub_exact (by omega) (by omega)]
    omega
  have nod2 : add c.addr (add siz sizeofNode) = c.addr + sizeofNode + siz := by
    rw [m,add_exact (by omega)]; omega
  have siz2 : sub (c.size - siz) sizeofNode = c.size - siz - sizeofNode := sub_exact (by omega) (by omega)
  unfold take
  dsimp only
  rw [rest,nod2,siz2,if_pos (show c.size - siz ≥ sizeofNode by omega)]
  refine ⟨add_exact (by omega),?_⟩
  obtain ⟨bins1,deleted⟩ := hash_delete_shape shape status
  have occupied := make_occupied_shape deleted (by intro k impossible; cases impossible)
  obtain ⟨free,cut⟩ := split_shape siz occupied rfl large
  dsimp only at cut
  rw [List.append_cons] at cut
  obtain ⟨bins2,appended⟩ := append_free_shape (calc_hash_index (c.size - siz)) cut
    (by intro k impossible; cases impossible)
  rw [← List.append_cons] at appended
  exact ⟨bins2,appended⟩

/-! ### Merging neighbours -/

theorem pair_fits {h : Heap} {l r : List Chunk} {a b : Chunk} {bins : Nat → List Nat}
    (shape : Shape h (l ++ a :: b :: r) bins) (fits : Fits h) : a.size + (b.size + sizeofNode) < modulus := by
  have tiles := shape.tiles
  obtain ⟨mid,_,⟨_,second,_⟩⟩ := (tiles_append ..).mp tiles
  have := chunk_fits shape fits (c := b) (by simp)
  unfold Chunk.stop at second
  omega

theorem add_size_exact {h : Heap} {cs : List Chunk} {bins : Nat → List Nat} (shape : Shape h cs bins) (fits : Fits h)
    {c : Chunk} (inside : c ∈ cs) : add (h.load c.addr .size) sizeofNode = c.size + sizeofNode := by
  have := chunk_fits shape fits inside
  rw [shape.sizes c inside,add_exact (by omega)]

theorem fits_of_manager {h h' : Heap} (same : h'.manager = h.manager) (fits : Fits h) : Fits h' := by
  unfold Heap.manager at same
  unfold Fits at *
  simp only [Prod.mk.injEq] at same
  omega

/-- Merging with a free predecessor. -/
theorem merge_left {h : Heap} {l r : List Chunk} {a c : Chunk} {bins : Nat → List Nat}
    (shape : Shape h (l ++ a :: c :: r) bins) (fits : Fits h) (statusC : c.status = .loose true)
    (statusA : a.status = .binned (bucket false a)) :
    ∃ bins', Shape (merge h a.addr c.addr a.addr)
      (l ++ ⟨a.addr,a.size + (c.size + sizeofNode),.loose true⟩ :: r) bins' := by
  unfold merge
  rw [add_size_exact shape fits (by simp)]
  have pair := pair_fits shape fits
  obtain ⟨bins',deleted⟩ := hash_delete_shape shape statusA
  exact ⟨bins',join_shape deleted rfl statusC pair⟩

/-- Merging with a free successor. -/
theorem merge_right {h : Heap} {l r : List Chunk} {c b : Chunk} {bins : Nat → List Nat}
    (shape : Shape h (l ++ c :: b :: r) bins) (fits : Fits h) (statusC : c.status = .loose true)
    (statusB : b.status = .binned (bucket false b)) :
    ∃ bins', Shape (merge h c.addr b.addr b.addr)
      (l ++ ⟨c.addr,c.size + (b.size + sizeofNode),.loose true⟩ :: r) bins' := by
  unfold merge
  rw [add_size_exact shape fits (by simp)]
  have pair := pair_fits shape fits
  rw [List.append_cons] at shape
  obtain ⟨bins',deleted⟩ := hash_delete_shape shape statusB
  rw [← List.append_cons] at deleted
  have joined := join_shape deleted statusC rfl pair
  rw [statusC] at joined
  exact ⟨bins',joined⟩

/-- The free predecessor, if there is one, is gone. -/
theorem merge_pre_shape {h : Heap} {l r : List Chunk} {c : Chunk} {bins : Nat → List Nat}
    (shape : Shape h (l ++ c :: r) bins) (fits : Fits h) (statusC : c.status = .loose true)
    (settled : Settled false l) (separated : Separated l) :
    ∃ l' c' bins', (merge_pre h c.addr).1 = c'.addr ∧ c'.status = .loose true ∧
      Shape (merge_pre h c.addr).2 (l' ++ c' :: r) bins' ∧ Settled false l' ∧ Separated l' ∧
      occupied l' = occupied l ∧ ∀ a ∈ l'.getLast?, a.status = .live := by
  have back : h.load c.addr .pre = (l.map (·.addr)).getLastD 0 :=
    (linked_at (by simpa using shape.linked : Linked _ _ 0 (l.map (·.addr) ++ c.addr :: r.map (·.addr)) 0)).1
  unfold merge_pre
  dsimp only
  rcases List.eq_nil_or_concat' l with rfl | ⟨l',a,rfl⟩
  · rw [if_neg (by rw [back]; simp)]
    exact ⟨[],c,bins,rfl,statusC,shape,settled,separated,rfl,by simp⟩
  · have isA : h.load c.addr .pre = a.addr := by simpa using back
    have inA : a ∈ l' ++ [a] ++ c :: r := by simp
    have positive := shape_positive shape a inA
    rw [isA,shape.flags a inA]
    rcases settled a (by simp) with live | binned
    · rw [if_neg (by simp [live,Status.isFree])]
      exact ⟨l' ++ [a],c,bins,rfl,statusC,shape,settled,separated,rfl,by simpa using live⟩
    · rw [if_pos ⟨Nat.ne_of_gt positive,by simp [binned,Status.isFree]⟩]
      rw [← List.append_cons] at shape
      obtain ⟨bins',merged⟩ := merge_left shape fits statusC binned
      refine ⟨l',⟨a.addr,a.size + (c.size + sizeofNode),.loose true⟩,bins',rfl,rfl,merged,fun d member => settled d (by simp [member]),?_,?_,?_⟩
      · exact (List.isChain_append.mp separated).1
      · simp [occupied,Chunk.isLive,binned]
      · intro d last
        have chain := (List.isChain_append.mp separated).2.2 d last a (by simp)
        rcases settled d (by simp [List.mem_of_getLast? last]) with live | inBin
        · exact live
        · simp [inBin,binned,Status.isFree] at chain

/-- The free successor, if there is one, is gone. -/
theorem merge_next_shape {h : Heap} {l r : List Chunk} {c : Chunk} {bins : Nat → List Nat}
    (shape : Shape h (l ++ c :: r) bins) (fits : Fits h) (statusC : c.status = .loose true)
    (settled : Settled false r) (separated : Separated r) :
    ∃ r' c' bins', c'.addr = c.addr ∧ c'.status = .loose true ∧
      Shape (merge_next h c.addr) (l ++ c' :: r') bins' ∧ Settled false r' ∧ Separated r' ∧
      occupied r' = occupied r ∧ ∀ a ∈ r'.head?, a.status = .live := by
  have forth : h.load c.addr .next = (r.map (·.addr)).headD 0 :=
    (linked_at (by simpa using shape.linked : Linked _ _ 0 (l.map (·.addr) ++ c.addr :: r.map (·.addr)) 0)).2
  unfold merge_next
  dsimp only
  cases r with
  | nil =>
    rw [if_neg (by rw [forth]; simp)]
    exact ⟨[],c,bins,rfl,statusC,shape,settled,separated,rfl,by simp⟩
  | cons b r' =>
    have isB : h.load c.addr .next = b.addr := by simpa using forth
    have inB : b ∈ l ++ c :: b :: r' := by simp
    have positive := shape_positive shape b inB
    rw [isB,shape.flags b inB]
    rcases settled b (by simp) with live | binned
    · rw [if_neg (by simp [live,Status.isFree])]
      exact ⟨b :: r',c,bins,rfl,statusC,shape,settled,separated,rfl,by simpa using live⟩
    · rw [if_pos ⟨Nat.ne_of_gt positive,by simp [binned,Status.isFree]⟩]
      obtain ⟨bins',merged⟩ := merge_right shape fits statusC binned
      refine ⟨r',⟨c.addr,c.size + (b.size + sizeofNode),.loose true⟩,bins',rfl,rfl,merged,fun d member => settled d (by simp [member]),?_,?_,?_⟩
      · exact (List.isChain_cons.mp separated).2
      · simp [occupied,Chunk.isLive,binned]
      · intro d first
        have chain := (List.isChain_cons.mp separated).1 d first
        rcases settled d (by simp [List.mem_of_head? first]) with live | inBin
        · exact live
        · simp [inBin,binned,Status.isFree] at chain

/-- Freeing a live chunk: it and its free neighbours become one chunk in the
    bucket of its size. -/
theorem dealloc_shape {h : Heap} {l r : List Chunk} {c : Chunk} {bins : Nat → List Nat}
    (shape : Shape h (l ++ c :: r) bins) (fits : Fits h) (live : c.status = .live)
    (settled : Settled false (l ++ c :: r)) (separated : Separated (l ++ c :: r)) :
    (dealloc h (c.addr + sizeofNode)).1 = c.size ∧ ∃ cs' bins', Shape (dealloc h (c.addr + sizeofNode)).2 cs' bins' ∧
      Settled false cs' ∧ Separated cs' ∧ occupied cs' = occupied l ++ occupied r := by
  have inside : c ∈ l ++ c :: r := by simp
  have bound := chunk_fits shape fits inside
  have nod : sub (c.addr + sizeofNode) sizeofNode = c.addr := by
    rw [sub_exact (by omega) (by omega)]; omega
  obtain ⟨pMagic,nMagic⟩ := shape.magics c inside live
  have flag : is_free_node h c.addr = false := by rw [shape.flags c inside,live]; rfl
  have size := shape.sizes c inside
  have freed := make_free_shape shape (by intro k binned; rw [live] at binned; cases binned)
  obtain ⟨sepL,sepR⟩ : Separated l ∧ Separated r := by
    have parts := List.isChain_append.mp separated
    exact ⟨parts.1,(List.isChain_cons.mp parts.2.1).2⟩
  have freedFits : Fits (make_free h c.addr) := fits
  obtain ⟨l',c1,bins1,at1,status1,shape1,settledL,separatedL,liveL,edgeL⟩ :=
    merge_pre_shape freed freedFits rfl (fun d member => settled d (by simp [member])) sepL
  have fits1 := fits_of_manager (merge_pre_manager (make_free h c.addr) c.addr) freedFits
  dsimp only at at1 shape1
  generalize mergedPre : merge_pre (make_free h c.addr) c.addr = left at *
  obtain ⟨r',c2,bins2,at2,status2,shape2,settledR,separatedR,liveR,edgeR⟩ :=
    merge_next_shape shape1 fits1 status1 (fun d member => settled d (by simp [member])) sepR
  have fits2 := fits_of_manager (merge_next_manager left.2 c1.addr) fits1
  generalize mergedNext : merge_next left.2 c1.addr = h2 at *
  obtain ⟨bins3,shape3⟩ := hash_append_shape (bucket false c2) shape2 status2
  have index : calc_hash_index (add (h2.load c2.addr .size) sizeofNode) = bucket false c2 := by
    rw [add_size_exact shape2 fits2 (by simp)]
    rfl
  unfold dealloc
  dsimp only
  rw [nod,flag,pMagic,nMagic,size,mergedPre,at1,mergedNext,← at2,index]
  simp only [Bool.false_eq_true,ne_eq,not_true_eq_false,if_false]
  refine ⟨trivial,_,bins3,shape3,?_,?_,?_⟩
  · intro d member
    rcases List.mem_append.mp member with left | right
    · exact settledL d left
    · rcases List.mem_cons.mp right with rfl | right
      · exact .inr rfl
      · exact settledR d right
  · refine List.isChain_append.mpr ⟨separatedL,List.isChain_cons.mpr ⟨?_,separatedR⟩,?_⟩
    · intro d first; exact .inr (by rw [edgeR d first]; rfl)
    · intro d last e first; exact .inl (by rw [edgeL d last]; rfl)
  · rw [← liveL,← liveR]
    simp [occupied,Chunk.isLive]

/-! ### Runs -/

/-- The states reached from the buffer of `size` bytes at `big`. A live entry is a
    pointer handed out and the number of bytes asked for; `whole` says that no
    request has been served yet, so the initial node has never been split. -/
inductive Run (big size : Nat) : Bool → Heap → List (Nat × Nat) → Prop
  | init {h : Heap} (mem : Nat → Nat) (done : memalloc_init_allocation mem big size = (true,h)) :
      Run big size true h []
  | alloc {whole : Bool} {h h' : Heap} {live : List (Nat × Nat)} {fuel n p : Nat} (run : Run big size whole h live)
      (positive : 0 < n) (request : n + sizeofNode < 2147483648) (done : memalloc fuel h n = some (p,h')) :
      Run big size (whole && p == 0) h' (if p = 0 then live else (p,n) :: live)
  | free {whole : Bool} {h : Heap} {live : List (Nat × Nat)} {p n : Nat} (run : Run big size whole h live)
      (owned : (p,n) ∈ live) : Run big size whole (memfree h p).2 (live.erase (p,n))
  | write {whole : Bool} {h : Heap} {live : List (Nat × Nat)} {p n a : Nat} (word : Nat)
      (run : Run big size whole h live) (owned : (p,n) ∈ live) (low : p ≤ a) (high : a < p + n) :
      Run big size whole { h with mem := Function.update h.mem a word } live

/-- What holds of every state of a run, in terms of the chunks. -/
structure Invariant (big size : Nat) (whole : Bool) (h : Heap) (live : List (Nat × Nat)) (cs : List Chunk)
    (bins : Nat → List Nat) : Prop where
  base : h.base = big
  extent : h.size = size - sizeofBlock
  first : h.fisrt_node = big + sizeofBlock
  shape : Shape h cs bins
  settled : Settled whole cs
  separated : Separated cs
  unsplit : whole = true → live = [] ∧ cs.length = 1
  used : h.used = ((occupied cs).map (·.size)).sum
  handed : (live.map (·.1)).Perm ((occupied cs).map (fun c => c.addr + sizeofNode))
  served : ∀ e ∈ live, ∃ c ∈ occupied cs, c.addr + sizeofNode = e.1 ∧ 0 < e.2 ∧ e.2 ≤ c.size

theorem shape_inited {h : Heap} {cs : List Chunk} {bins : Nat → List Nat} (shape : Shape h cs bins) (v : Nat) :
    Shape { h with inited := v } cs bins := shape_congr shape rfl rfl rfl (fun _ _ _ => rfl)
theorem shape_used {h : Heap} {cs : List Chunk} {bins : Nat → List Nat} (shape : Shape h cs bins) (v : Nat) :
    Shape { h with used := v } cs bins := shape_congr shape rfl rfl rfl (fun _ _ _ => rfl)

/-- The node that `init_block` writes, before it goes into the last bucket. -/
theorem fresh_shape (h : Heap) (empty : ∀ k, h.free_table k = 0) (room : sizeofNode ≤ h.size) {nod : Nat}
    (start : nod = h.base + sizeofBlock) :
    let h' := ((h.store nod .next 0).store nod .pre 0).store nod .size (h.size - sizeofNode)
    Shape h' ([] ++ ⟨nod,h.size - sizeofNode,.loose (is_free_node h' nod)⟩ :: []) (fun _ => []) := by
  intro h'
  constructor
  · refine ⟨start,?_⟩
    change nod + sizeofNode + (h.size - sizeofNode) = h.base + sizeofBlock + h.size
    omega
  · refine ⟨?_,?_,trivial⟩
    · simp [h',load_store_same]
    · simp [h',load_store_same]
  · simp [h',load_store_same]
  · simp [Status.isFree]
  · simp
  · exact empty
  · intro k; trivial
  · intro k; exact .nil
  · simp

theorem init_block_shape {h : Heap} (empty : ∀ k, h.free_table k = 0) (fits : Fits h) (room : sizeofNode ≤ h.size) :
    (init_block h).fisrt_node = h.base + sizeofBlock ∧
      ∃ bins, Shape (init_block h) [⟨h.base + sizeofBlock,h.size - sizeofNode,.binned (MAX_HASH_ENTRY - 1)⟩] bins := by
  unfold Fits at fits
  have start : add h.base sizeofBlock = h.base + sizeofBlock := add_exact (by omega)
  have rest : sub h.size sizeofNode = h.size - sizeofNode := sub_exact room (by omega)
  obtain ⟨bins,appended⟩ := append_free_shape (MAX_HASH_ENTRY - 1) (fresh_shape h empty room rfl)
    (by intro k impossible; cases impossible)
  unfold init_block
  dsimp only
  rw [start,store_size,store_size,rest]
  exact ⟨rfl,bins,shape_congr appended rfl rfl rfl (fun _ _ _ => rfl)⟩

section
variable {big size : Nat} (top : big + size < modulus) (large : sizeofBlock + sizeofNode < size)

include top large in
theorem init_invariant {h : Heap} (mem : Nat → Nat) (done : memalloc_init_allocation mem big size = (true,h)) :
    ∃ cs bins, Invariant big size true h [] cs bins := by
  have extent : sub size sizeofBlock = size - sizeofBlock := sub_exact (by omega) (by omega)
  have node : sub (size - sizeofBlock) sizeofNode = size - sizeofBlock - sizeofNode := sub_exact (by omega) (by omega)
  rw [memalloc_init_allocation,extent,node,if_neg (by omega)] at done
  generalize blankEq : { zeroed mem big with size := size - sizeofBlock } = blank at done
  obtain ⟨keptBase,keptSize,keptUsed⟩ := init_block_manager blank
  have base : blank.base = big := by rw [← blankEq]; rfl
  have room : blank.size = size - sizeofBlock := by rw [← blankEq]
  have zero : blank.used = 0 := by rw [← blankEq]; rfl
  obtain ⟨first,bins,shape⟩ := init_block_shape (h := blank) (by intro k; rw [← blankEq]; rfl) (by unfold Fits; omega) (by omega)
  generalize init_block blank = started at *
  have result := (Prod.mk.inj done).2
  subst result
  refine ⟨[⟨blank.base + sizeofBlock,blank.size - sizeofNode,.binned (MAX_HASH_ENTRY - 1)⟩],bins,?_⟩
  constructor
  · exact keptBase.trans base
  · exact keptSize.trans room
  · rw [← base]; exact first
  · exact shape_inited shape 1
  · intro d member
    rw [List.mem_singleton.mp member]
    exact .inr rfl
  · exact List.isChain_singleton _
  · exact fun _ => ⟨rfl,rfl⟩
  · exact keptUsed.trans zero
  · simp [occupied,Chunk.isLive]
  · simp

theorem occupied_sum_le {h : Heap} {cs : List Chunk} {bins : Nat → List Nat} (shape : Shape h cs bins) :
    ((occupied cs).map (·.size)).sum ≤ h.size := by
  have total := tiles_sum shape.tiles
  have part : ((occupied cs).map (·.size)).sum ≤ (cs.map (fun c => c.size + sizeofNode)).sum := by
    clear shape total
    induction cs with
    | nil => simp [occupied]
    | cons c cs ih =>
      unfold occupied at *
      rw [List.filter_cons]
      split <;> simp only [List.map_cons,List.sum_cons] <;> omega
  omega

include top large in
theorem invariant_fits {whole : Bool} {h : Heap} {live : List (Nat × Nat)} {cs : List Chunk} {bins : Nat → List Nat}
    (inv : Invariant big size whole h live cs bins) : Fits h := by
  have base := inv.base
  have extent := inv.extent
  unfold Fits
  omega

/-- Beside a free chunk that is taken, every chunk stands in the bucket of its size:
    only the undivided initial node does not, and it has no neighbour. -/
theorem settled_others {whole : Bool} {l r : List Chunk} {c : Chunk} (settled : Settled whole (l ++ c :: r))
    (unsplit : whole = true → (l ++ c :: r).length = 1) : Settled false l ∧ Settled false r := by
  cases whole with
  | false => exact ⟨fun d member => settled d (by simp [member]),fun d member => settled d (by simp [member])⟩
  | true =>
    have one := unsplit rfl
    simp only [List.length_append,List.length_cons] at one
    have noL : l = [] := List.eq_nil_of_length_eq_zero (by omega)
    have noR : r = [] := List.eq_nil_of_length_eq_zero (by omega)
    subst noL noR
    exact ⟨fun d member => by simp at member,fun d member => by simp at member⟩

theorem or_three (n : Nat) : n ||| 3 = n / 4 * 4 + 3 := by
  have parts : n = 2^2 * (n/4) ||| n % 4 := by
    rw [← Nat.two_pow_add_eq_or_of_lt (Nat.mod_lt n (by decide))]
    exact (Nat.div_add_mod n 4).symm
  have low : ∀ r < 4, r ||| 3 = 3 := by decide
  conv_lhs => rw [parts]
  rw [Nat.or_assoc,low _ (Nat.mod_lt n (by decide)),← Nat.two_pow_add_eq_or_of_lt (by decide)]
  omega

/-- The request that `_malloc` passes on is not smaller than the caller's, and with the header it does not wrap. -/
theorem rounded {n : Nat} (request : n + sizeofNode + 3 < modulus) :
    n ≤ (if n &&& 3 ≠ 0 then add (n ||| 3) 1 else n) ∧
      (if n &&& 3 ≠ 0 then add (n ||| 3) 1 else n) + sizeofNode < modulus := by
  have mask : n &&& 3 = n % 4 := Nat.and_two_pow_sub_one_eq_mod n 2
  rw [or_three,mask]
  split
  · rw [add_exact (by omega)]
    omega
  · omega

/-- A request that is served: the chunk found is cut, and its head is handed out. -/
theorem take_invariant {whole : Bool} {h : Heap} {live : List (Nat × Nat)} {cs : List Chunk} {bins : Nat → List Nat}
    {k nod siz n : Nat} (inv : Invariant big size whole h live cs bins) (fits : Fits h) (member : nod ∈ bins k)
    (found : siz + sizeofNode ≤ h.load nod .size) (positive : 0 < n) (least : n ≤ siz) :
    (take h siz nod k).1 ≠ 0 ∧ ∃ cs' bins', Invariant big size false
      { (take h siz nod k).2 with used := add (take h siz nod k).2.used siz } (((take h siz nod k).1,n) :: live) cs' bins' := by
  obtain ⟨c,inside,rfl,status⟩ := (inv.shape.members k nod).mp member
  obtain ⟨l,r,rfl⟩ := List.append_of_mem inside
  rw [inv.shape.sizes c inside] at found
  obtain ⟨pointer,bins',shape⟩ := take_shape inv.shape fits status found
  have manager := take_manager h siz c.addr k
  unfold Heap.manager at manager
  simp only [Prod.mk.injEq] at manager
  obtain ⟨settledL,settledR⟩ := settled_others inv.settled (fun w => (inv.unsplit w).2)
  have separated := inv.separated
  have bound := occupied_sum_le shape
  have used := inv.used
  have handed := inv.handed
  rw [occupied_append,occupied_live rfl,occupied_binned rfl] at bound
  rw [occupied_append,occupied_binned status] at used handed
  rw [pointer]
  generalize (take h siz c.addr k).2 = h' at *
  refine ⟨by unfold sizeofNode; omega,l ++ ⟨c.addr,siz,.live⟩ ::
    ⟨c.addr + sizeofNode + siz,c.size - siz - sizeofNode,.binned (calc_hash_index (c.size - siz))⟩ :: r,bins',?_⟩
  constructor
  · exact manager.1.trans inv.base
  · exact manager.2.1.trans inv.extent
  · exact manager.2.2.2.trans inv.first
  · exact shape_used shape _
  · intro d inD
    rcases List.mem_append.mp inD with left | right
    · exact settledL d left
    · rcases List.mem_cons.mp right with rfl | right
      · exact .inl rfl
      · rcases List.mem_cons.mp right with rfl | right
        · refine .inr ?_
          have same : c.size - siz - sizeofNode + sizeofNode = c.size - siz := by omega
          simp [bucket,same]
        · exact settledR d right
  · obtain ⟨sepL,sepCR,joint⟩ := List.isChain_append.mp separated
    obtain ⟨edge,sepR⟩ := List.isChain_cons.mp sepCR
    refine List.isChain_append.mpr ⟨sepL,List.isChain_cons.mpr ⟨?_,List.isChain_cons.mpr ⟨?_,sepR⟩⟩,?_⟩
    · intro d _; exact .inl rfl
    · intro d first
      have := edge d first
      simp only [status,Status.isFree] at this ⊢
      exact this
    · intro d _ e first
      have isHead : e = ⟨c.addr,siz,.live⟩ := by simpa using first.symm
      subst isHead; exact .inr rfl
  · intro impossible; cases impossible
  · rw [occupied_append,occupied_live rfl,occupied_binned rfl]
    change add h'.used siz = _
    simp only [List.map_append,List.map_cons,List.sum_append,List.sum_cons] at bound used ⊢
    unfold Fits at fits
    rw [manager.2.2.1,used,add_exact (by omega)]
    omega
  · rw [occupied_append,occupied_live rfl,occupied_binned rfl]
    simp only [List.map_append,List.map_cons] at handed ⊢
    exact (handed.cons _).trans List.perm_middle.symm
  · rw [occupied_append,occupied_live rfl,occupied_binned rfl]
    intro e member
    rcases List.mem_cons.mp member with rfl | earlier
    · exact ⟨⟨c.addr,siz,.live⟩,by simp,rfl,positive,least⟩
    · obtain ⟨d,inD,pointer,enough⟩ := inv.served e earlier
      rw [occupied_append,occupied_binned status] at inD
      refine ⟨d,?_,pointer,enough⟩
      rcases List.mem_append.mp inD with left | right
      · simp [left]
      · simp [right]

include top large in
theorem memalloc_invariant {whole : Bool} {h h' : Heap} {live : List (Nat × Nat)} {cs : List Chunk} {bins : Nat → List Nat}
    {fuel n p : Nat} (inv : Invariant big size whole h live cs bins) (positive : 0 < n)
    (request : n + sizeofNode + 3 < modulus) (done : memalloc fuel h n = some (p,h')) :
    ∃ cs' bins', Invariant big size (whole && p == 0) h' (if p = 0 then live else (p,n) :: live) cs' bins' := by
  have fits := invariant_fits top large inv
  obtain ⟨least,most⟩ := rounded request
  rw [memalloc,if_neg (by omega)] at done
  generalize (if n &&& 3 ≠ 0 then add (n ||| 3) 1 else n) = siz at *
  dsimp only at done
  have exact : add siz sizeofNode = siz + sizeofNode := add_exact most
  cases result : alloc fuel h siz with
  | none => rw [result] at done; cases done
  | some found =>
    rw [result] at done
    obtain ⟨q,h1⟩ := found
    rcases search_sound inv.shape result with ⟨rfl,rfl⟩ | ⟨k,nod,member,enough,taken⟩
    · cases done
      exact ⟨cs,bins,by simpa using inv⟩
    · rw [exact] at enough
      obtain ⟨nonzero,cs',bins',after⟩ := take_invariant inv fits member enough positive least
      rw [taken] at nonzero after
      simp only [if_neg nonzero,Option.some.injEq,Prod.mk.injEq] at done
      obtain ⟨rfl,rfl⟩ := done
      refine ⟨cs',bins',?_⟩
      rw [if_neg nonzero,beq_false_of_ne nonzero,Bool.and_false]
      exact after

/-- The chunk behind a pointer that was handed out. -/
theorem live_chunk {whole : Bool} {h : Heap} {live : List (Nat × Nat)} {cs : List Chunk} {bins : Nat → List Nat}
    {p n : Nat} (inv : Invariant big size whole h live cs bins) (owned : (p,n) ∈ live) :
    ∃ l c r, cs = l ++ c :: r ∧ c.status = .live ∧ c.addr + sizeofNode = p ∧ 0 < n ∧ n ≤ c.size := by
  obtain ⟨c,inside,pointer,enough⟩ := inv.served (p,n) owned
  obtain ⟨inCs,isLive⟩ := List.mem_filter.mp inside
  obtain ⟨l,r,split⟩ := List.append_of_mem inCs
  exact ⟨l,c,r,split,by simpa [Chunk.isLive] using isLive,pointer,enough⟩

theorem pointers_nodup {h : Heap} {cs : List Chunk} {bins : Nat → List Nat} (shape : Shape h cs bins) :
    ((occupied cs).map (fun c => c.addr + sizeofNode)).Nodup := by
  have addresses : ((occupied cs).map (·.addr)).Nodup := (tiles_nodup shape.tiles).sublist (List.filter_sublist.map _)
  have shifted := addresses.map (f := (· + sizeofNode)) (fun a b => Nat.add_right_cancel)
  rw [List.map_map] at shifted
  exact shifted

include top large in
/-- Freeing a live pointer succeeds, and the heap stays well formed. -/
theorem memfree_invariant {whole : Bool} {h : Heap} {live : List (Nat × Nat)} {cs : List Chunk} {bins : Nat → List Nat}
    {p n : Nat} (inv : Invariant big size whole h live cs bins) (owned : (p,n) ∈ live) :
    (memfree h p).1 = p ∧ ∃ cs' bins', Invariant big size whole (memfree h p).2 (live.erase (p,n)) cs' bins' := by
  have fits := invariant_fits top large inv
  have divided : whole = false := by
    cases whole with
    | false => rfl
    | true => rw [(inv.unsplit rfl).1] at owned; cases owned
  subst divided
  obtain ⟨l,c,r,rfl,status,pointer,positive,enough⟩ := live_chunk inv owned
  have shape := inv.shape
  have handed := inv.handed
  have used := inv.used
  have total := occupied_sum_le shape
  have fresh := pointers_nodup shape
  obtain ⟨given,cs',bins',shape',settled,separated,remain⟩ := dealloc_shape shape fits status inv.settled inv.separated
  have manager := dealloc_manager h (c.addr + sizeofNode)
  unfold Heap.manager at manager
  simp only [Prod.mk.injEq] at manager
  rw [pointer] at given shape' manager
  have inBlock : h.base < p ∧ p < add (add h.base sizeofBlock) h.size := by
    obtain ⟨low,high⟩ := tiles_bounds shape.tiles c (by simp)
    unfold Fits at fits
    unfold Chunk.stop at high
    have header : 0 < sizeofNode := by decide
    rw [add_exact (a := h.base) (by omega),add_exact fits]
    omega
  rw [memfree,if_neg (by omega),if_pos inBlock]
  dsimp only
  rw [given]
  rw [occupied_append,occupied_live status] at handed used total fresh
  rw [List.map_append,List.map_cons,pointer] at handed fresh
  have rest : (live.erase (p,n)).map (·.1) |>.Perm ((occupied l ++ occupied r).map (fun c => c.addr + sizeofNode)) := by
    have listed := ((List.perm_cons_erase owned).map (·.1)).symm.trans (handed.trans List.perm_middle)
    rw [List.map_append]
    exact List.Perm.cons_inv listed
  refine ⟨rfl,cs',bins',?_⟩
  generalize (dealloc h p).2 = h' at *
  constructor
  · exact manager.1.trans inv.base
  · exact manager.2.1.trans inv.extent
  · exact manager.2.2.2.trans inv.first
  · exact shape_used shape' _
  · exact settled
  · exact separated
  · intro impossible; cases impossible
  · rw [remain]
    simp only [List.map_append,List.map_cons,List.sum_append,List.sum_cons] at used total ⊢
    unfold Fits at fits
    rw [sub_exact (by omega) (by omega)]
    omega
  · rw [remain]; exact rest
  · intro e member
    obtain ⟨d,inD,pointerD,enoughD⟩ := inv.served e (List.mem_of_mem_erase member)
    refine ⟨d,?_,pointerD,enoughD⟩
    have elsewhere : e.1 ≠ p := by
      intro same
      have again := rest.subset (List.mem_map_of_mem (f := (·.1)) member)
      rw [List.map_append,same] at again
      exact (List.nodup_middle.mp fresh).notMem again
    rw [occupied_append,occupied_live status] at inD
    rw [remain]
    rcases List.mem_append.mp inD with left | right
    · simp [left]
    · rcases List.mem_cons.mp right with rfl | right
      · exact absurd (pointerD.symm.trans pointer) elsewhere
      · simp [right]

/-- No header word lies in a payload that was handed out. -/
theorem write_invariant {whole : Bool} {h : Heap} {live : List (Nat × Nat)} {cs : List Chunk} {bins : Nat → List Nat}
    {p n a : Nat} (word : Nat) (inv : Invariant big size whole h live cs bins) (owned : (p,n) ∈ live) (low : p ≤ a)
    (high : a < p + n) : Invariant big size whole { h with mem := Function.update h.mem a word } live cs bins := by
  obtain ⟨l,c,r,split,_,pointer,_,enough⟩ := live_chunk inv owned
  have inC : c ∈ cs := by simp [split]
  have kept : ∀ d ∈ cs, ∀ f, Heap.load { h with mem := Function.update h.mem a word } d.addr f = h.load d.addr f := by
    intro d inD f
    have header := offset_lt f
    have elsewhere : d.addr + f.offset ≠ a := by
      rcases tiles_separate inv.shape.tiles inC inD with rfl | before | behind
      · omega
      · unfold Chunk.stop at before; omega
      · unfold Chunk.stop at behind; omega
    exact Function.update_of_ne elsewhere ..
  exact { inv with shape := shape_congr inv.shape rfl rfl rfl kept }

include top large in
/-- The invariant holds in every state of every run. -/
theorem run_invariant {whole : Bool} {h : Heap} {live : List (Nat × Nat)} (run : Run big size whole h live) :
    ∃ cs bins, Invariant big size whole h live cs bins := by
  induction run with
  | init mem done => exact init_invariant top large mem done
  | alloc run positive request done ih =>
    obtain ⟨cs,bins,inv⟩ := ih
    exact memalloc_invariant top large inv positive (by unfold modulus; omega) done
  | free run owned ih =>
    obtain ⟨cs,bins,inv⟩ := ih
    exact (memfree_invariant top large inv owned).2
  | write word run owned low high ih =>
    obtain ⟨cs,bins,inv⟩ := ih
    exact ⟨cs,bins,write_invariant word inv owned low high⟩

end

/-! ### The representation in terms of the words in memory -/

/-- The size in the header in front of a pointer that was handed out. -/
def payload (h : Heap) (p : Nat) : Nat := h.load (p - sizeofNode) .size

/-- The node list `nodes` and the buckets `bins` that the links in memory spell out,
    and what ties them to each other, to the manager and to the live pointers. -/
structure Represents (h : Heap) (whole : Bool) (live : List (Nat × Nat)) (nodes : List Nat) (bins : Nat → List Nat) :
    Prop where
  first : h.fisrt_node = h.base + sizeofBlock ∧ nodes.head? = some h.fisrt_node
  linked : Linked (h.load · .next) (h.load · .pre) 0 nodes 0
  adjacent : nodes.IsChain (fun a b => a + sizeofNode + h.load a .size = b)
  total : (nodes.map (fun nod => h.load nod .size + sizeofNode)).sum = h.size
  disjoint : live.Pairwise (fun e f => e.1 + payload h e.1 ≤ f.1 ∨ f.1 + payload h f.1 ≤ e.1)
  inside : ∀ e ∈ live, h.base + sizeofBlock < e.1 ∧ e.1 + payload h e.1 ≤ h.base + sizeofBlock + h.size
  served : ∀ e ∈ live, e.2 ≤ payload h e.1
  occupied : (live.map (·.1)).Perm ((nodes.filter (!is_free_node h ·)).map (· + sizeofNode))
  separated : nodes.IsChain (fun a b => ¬ (is_free_node h a = true ∧ is_free_node h b = true))
  heads : ∀ k, h.free_table k = (bins k).headD 0
  chains : ∀ k, Linked (h.load · .hash_next) (h.load · .hash_pre) 0 (bins k) 0
  distinct : ∀ k, (bins k).Nodup
  members : ∀ k, ∀ nod ∈ bins k, nod ∈ nodes
  free : ∀ nod ∈ nodes, is_free_node h nod = true ↔ ∃! k, k < MAX_HASH_ENTRY ∧ nod ∈ bins k
  hashed : ∀ k, ∀ nod ∈ bins k,
    k = if whole then MAX_HASH_ENTRY - 1 else calc_hash_index (h.load nod .size + sizeofNode)
  used : h.used = ((nodes.filter (!is_free_node h ·)).map (h.load · .size)).sum
  merged : live = [] → nodes = [h.fisrt_node]

theorem calc_hash_index_lt (k : Nat) : calc_hash_index k < MAX_HASH_ENTRY := by
  unfold calc_hash_index
  dsimp only
  split
  · decide
  · omega

theorem bucket_lt (whole : Bool) (c : Chunk) : bucket whole c < MAX_HASH_ENTRY := by
  unfold bucket
  split
  · decide
  · exact calc_hash_index_lt _

theorem tiles_adjacent {start stop : Nat} {cs : List Chunk} (tiles : Tiles start cs stop) :
    cs.IsChain (fun c d => c.stop = d.addr) := by
  induction cs generalizing start with
  | nil => exact .nil
  | cons c cs ih =>
    refine List.isChain_cons.mpr ⟨?_,ih tiles.2⟩
    intro d first
    cases cs with
    | nil => cases first
    | cons e cs =>
      cases first
      exact tiles.2.1.symm

section
variable {big size : Nat} {whole : Bool} {h : Heap} {live : List (Nat × Nat)} {cs : List Chunk} {bins : Nat → List Nat}

theorem invariant_flag (inv : Invariant big size whole h live cs bins) {c : Chunk} (inside : c ∈ cs) :
    is_free_node h c.addr = !c.isLive := by
  rw [inv.shape.flags c inside]
  rcases inv.settled c inside with isLive | binned
  · simp [isLive,Chunk.isLive,Status.isFree]
  · simp [binned,Chunk.isLive,Status.isFree]

theorem invariant_occupied (inv : Invariant big size whole h live cs bins) :
    (cs.map (·.addr)).filter (!is_free_node h ·) = (occupied cs).map (·.addr) := by
  rw [List.filter_map,occupied]
  congr 1
  refine List.filter_congr ?_
  intro c inside
  simp [invariant_flag inv inside]

theorem invariant_payload (inv : Invariant big size whole h live cs bins) {e : Nat × Nat} (owned : e ∈ live) :
    ∃ c ∈ cs, c.addr + sizeofNode = e.1 ∧ payload h e.1 = c.size ∧ e.2 ≤ c.size := by
  obtain ⟨l,c,r,rfl,_,pointer,_,enough⟩ := live_chunk inv owned
  refine ⟨c,by simp,pointer,?_,enough⟩
  have header : e.1 - sizeofNode = c.addr := by omega
  rw [payload,header,inv.shape.sizes c (by simp)]

/-- Two live pointers are the pointers of two chunks, which do not overlap. -/
theorem invariant_disjoint (inv : Invariant big size whole h live cs bins) :
    live.Pairwise (fun e f => e.1 + payload h e.1 ≤ f.1 ∨ f.1 + payload h f.1 ≤ e.1) := by
  have distinct : (live.map (·.1)).Nodup := inv.handed.nodup_iff.mpr (pointers_nodup inv.shape)
  refine (List.pairwise_map.mp distinct).imp_of_mem ?_
  intro e f ownedE ownedF differ
  obtain ⟨c,inC,pointerC,sizeC,_⟩ := invariant_payload inv ownedE
  obtain ⟨d,inD,pointerD,sizeD,_⟩ := invariant_payload inv ownedF
  rcases tiles_separate inv.shape.tiles inC inD with rfl | before | behind
  · exact absurd (pointerC.symm.trans pointerD) differ
  · unfold Chunk.stop at before; omega
  · unfold Chunk.stop at behind; omega

/-- Free chunks are never neighbours, so without live pointers one chunk is left. -/
theorem invariant_merged (inv : Invariant big size whole h live cs bins) (none : live = []) (room : 0 < h.size) :
    cs.map (·.addr) = [h.fisrt_node] := by
  have free : ∀ c ∈ cs, c.status.isFree = true := by
    intro c inside
    rcases inv.settled c inside with isLive | binned
    · have listed : c.addr + sizeofNode ∈ (occupied cs).map (fun c => c.addr + sizeofNode) :=
        List.mem_map_of_mem (f := fun c : Chunk => c.addr + sizeofNode)
          (List.mem_filter.mpr ⟨inside,by simp [Chunk.isLive,isLive]⟩)
      have handed := inv.handed.symm.subset listed
      simp [none] at handed
    · simp [binned,Status.isFree]
  have tiles := inv.shape.tiles
  have separated := inv.separated
  rw [inv.first,← inv.base]
  cases cs with
  | nil => simp [Tiles] at tiles; omega
  | cons c cs =>
    cases cs with
    | nil => simpa using tiles.1
    | cons d cs =>
      rcases (List.isChain_cons.mp separated).1 d rfl with first | second
      · rw [free c (by simp)] at first; cases first
      · rw [free d (by simp)] at second; cases second

theorem invariant_represents (inv : Invariant big size whole h live cs bins) (room : 0 < h.size) :
    Represents h whole live (cs.map (·.addr)) bins where
  first := by
    have tiles := inv.shape.tiles
    refine ⟨by rw [inv.first,inv.base],?_⟩
    cases cs with
    | nil => simp [Tiles] at tiles; omega
    | cons c cs => simp [tiles.1,inv.first,inv.base]
  linked := inv.shape.linked
  adjacent := by
    refine List.isChain_map _ |>.mpr ?_
    refine (List.IsChain.imp_of_mem_imp ?_ (tiles_adjacent inv.shape.tiles))
    intro c d inC _ meet
    rw [inv.shape.sizes c inC]
    exact meet
  total := by
    have sum := tiles_sum inv.shape.tiles
    rw [List.map_map,List.map_congr_left (g := fun c => c.size + sizeofNode)]
    · omega
    · intro c inside; simp [inv.shape.sizes c inside]
  disjoint := invariant_disjoint inv
  inside := by
    intro e owned
    obtain ⟨c,inC,pointer,amount,_⟩ := invariant_payload inv owned
    obtain ⟨low,high⟩ := tiles_bounds inv.shape.tiles c inC
    have header : 0 < sizeofNode := by decide
    unfold Chunk.stop at high
    omega
  served := by
    intro e owned
    obtain ⟨c,_,_,amount,enough⟩ := invariant_payload inv owned
    omega
  occupied := by
    rw [invariant_occupied inv,List.map_map]
    exact inv.handed
  separated := by
    refine List.isChain_map _ |>.mpr ?_
    refine (List.IsChain.imp_of_mem_imp ?_ inv.separated)
    intro c d inC inD apart
    rw [inv.shape.flags c inC,inv.shape.flags d inD]
    rcases apart with free | free <;> simp [free]
  heads := inv.shape.heads
  chains := inv.shape.chains
  distinct := inv.shape.distinct
  members := by
    intro k nod member
    obtain ⟨c,inside,rfl,_⟩ := (inv.shape.members k nod).mp member
    exact List.mem_map_of_mem inside
  free := by
    intro nod member
    obtain ⟨c,inside,rfl⟩ := List.mem_map.mp member
    rw [inv.shape.flags c inside]
    constructor
    · intro free
      rcases inv.settled c inside with isLive | binned
      · rw [isLive] at free; cases free
      · have inBin := (inv.shape.members _ c.addr).mpr ⟨c,inside,rfl,binned⟩
        exact ⟨_,⟨bucket_lt whole c,inBin⟩,fun k both => shape_bins_disjoint inv.shape both.2 inBin⟩
    · rintro ⟨k,⟨_,inBin⟩,_⟩
      obtain ⟨d,inD,same,binned⟩ := (inv.shape.members k _).mp inBin
      rw [← tiles_unique inv.shape.tiles inD inside same,binned]
      rfl
  hashed := by
    intro k nod member
    obtain ⟨c,inside,rfl,binned⟩ := (inv.shape.members k nod).mp member
    rw [inv.shape.sizes c inside]
    rcases inv.settled c inside with isLive | settled
    · rw [isLive] at binned; cases binned
    · rw [settled] at binned
      exact (Status.binned.inj binned).symm
  used := by
    rw [invariant_occupied inv,List.map_map,inv.used]
    congr 1
    refine List.map_congr_left ?_
    intro c inside
    exact (inv.shape.sizes c (List.mem_of_mem_filter inside)).symm
  merged := fun none => invariant_merged inv none room

end

/-- Every state of every run represents a heap; in it each request returns, and each
    live pointer can be freed. -/
theorem run_represents {big size : Nat} (top : big + size < modulus) (large : sizeofBlock + sizeofNode < size)
    {whole : Bool} {h : Heap} {live : List (Nat × Nat)} (run : Run big size whole h live) :
    ∃ nodes bins, h.base = big ∧ h.size = size - sizeofBlock ∧ Represents h whole live nodes bins ∧
      (∀ n fuel, nodes.length < fuel → ∃ result, memalloc fuel h n = some result) ∧
      ∀ e ∈ live, (memfree h e.1).1 = e.1 := by
  obtain ⟨cs,bins,inv⟩ := run_invariant top large run
  have room : 0 < h.size := by rw [inv.extent]; omega
  refine ⟨cs.map (·.addr),bins,inv.base,inv.extent,invariant_represents inv room,?_,?_⟩
  · intro n fuel enough
    exact memalloc_total inv.shape (by simpa using enough) n
  · intro e owned
    exact (memfree_invariant top large inv owned).1

/-- Two requests in a buffer of 1024 bytes, and the first pointer is given back. -/
def one_freed : Option Heap := do
  let (p,h) ← memalloc 3 (memalloc_init_allocation (fun _ => 0) 4096 1024).2 100
  let (_,h) ← memalloc 3 h 20
  return (memfree h p).2

theorem one_freed_run : ∃ h, one_freed = some h ∧ Run 4096 1024 false h [(4324,20)] := by
  have pointers : ((memalloc 3 (memalloc_init_allocation (fun _ => 0) 4096 1024).2 100).bind
      (fun r => (memalloc 3 r.2 20).map (fun s => (r.1,s.1)))) = some (4192,4324) := by
    decide +kernel
  obtain ⟨⟨p,h₁⟩,first,rest⟩ := Option.bind_eq_some_iff.mp pointers
  obtain ⟨⟨q,h₂⟩,second,same⟩ := Option.map_eq_some_iff.mp rest
  obtain ⟨rfl,rfl⟩ := Prod.mk.inj same
  have one : Run 4096 1024 _ h₁ _ := .alloc (.init (fun _ => 0) rfl) (by decide) (by decide) first
  have two : Run 4096 1024 _ h₂ _ := .alloc one (by decide) (by decide) second
  have owned : (4192,100) ∈ [(4324,20),(4192,100)] := by simp
  have left : [(4324,20),(4192,100)].erase (4192,100) = [(4324,20)] := by decide
  refine ⟨_,?_,left ▸ Run.free two owned⟩
  unfold one_freed
  rw [first]
  exact congrArg (Option.bind · _) second

theorem run_represents_first_request : ∃ h nodes bins, one_freed = some h ∧ h.base = 4096 ∧ h.size = 960 ∧
    Represents h false [(4324,20)] nodes bins := by
  obtain ⟨h,freed,run⟩ := one_freed_run
  obtain ⟨nodes,bins,base,extent,represents,_⟩ := run_represents (by decide) (by decide) run
  exact ⟨h,nodes,bins,freed,base,extent,represents⟩

end GridOS.Malloc
