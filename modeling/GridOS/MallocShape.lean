import GridOS.Malloc

/-!
The shape of the allocator's heap. A list of chunks describes the data area from
its start to its end; `Shape` ties the words in memory to it: the neighbour list
runs through the chunks in address order, and each bucket is a list of exactly
the chunks that stand in it. Each macro and each part of `alloc` and `dealloc`
is one change of the description.
-/
namespace GridOS.Malloc
open GridOS.Words GridOS.DoublyLinked

/-- Where a chunk stands between the operations' steps: handed out, free and in
    the bucket `k`, or taken out of its bucket and not yet settled. -/
inductive Status
  | live
  | loose (free : Bool)
  | binned (k : Nat)
  deriving DecidableEq, Repr

def Status.isFree : Status → Bool
  | .live => false
  | .loose free => free
  | .binned _ => true

/-- A header at `addr` and the `size` bytes behind it. -/
structure Chunk where
  addr : Nat
  size : Nat
  status : Status
  deriving DecidableEq, Repr

def Chunk.stop (c : Chunk) : Nat := c.addr + sizeofNode + c.size

/-- The chunks lie one behind the other from `start` to `stop`. -/
def Tiles : Nat → List Chunk → Nat → Prop
  | start, [], stop => start = stop
  | start, c :: cs, stop => c.addr = start ∧ Tiles c.stop cs stop

/-- The headers at two addresses are the same or do not meet. -/
def Apart (a b : Nat) : Prop := a = b ∨ a + sizeofNode ≤ b ∨ b + sizeofNode ≤ a

/-- The words in memory are those of the chunks `cs`, with the buckets `bins`. -/
structure Shape (h : Heap) (cs : List Chunk) (bins : Nat → List Nat) : Prop where
  tiles : Tiles (h.base + sizeofBlock) cs (h.base + sizeofBlock + h.size)
  linked : Linked (h.load · .next) (h.load · .pre) 0 (cs.map (·.addr)) 0
  sizes : ∀ c ∈ cs, h.load c.addr .size = c.size
  flags : ∀ c ∈ cs, is_free_node h c.addr = c.status.isFree
  magics : ∀ c ∈ cs, c.status = .live → h.load c.addr .p_magic = P_MAGIC ∧ h.load c.addr .n_magic = N_MAGIC
  heads : ∀ k, h.free_table k = (bins k).headD 0
  chains : ∀ k, Linked (h.load · .hash_next) (h.load · .hash_pre) 0 (bins k) 0
  distinct : ∀ k, (bins k).Nodup
  members : ∀ k a, a ∈ bins k ↔ ∃ c ∈ cs, c.addr = a ∧ c.status = .binned k

/-! ### Words of different headers -/

theorem offset_lt (f : Field) : f.offset < sizeofNode := by cases f <;> decide

theorem offset_injective {f g : Field} (same : f.offset = g.offset) : f = g := by
  revert same; cases f <;> cases g <;> decide

@[simp] theorem store_size (h : Heap) (nod : Nat) (f : Field) (v : Nat) : (h.store nod f v).size = h.size := rfl
@[simp] theorem store_free_table (h : Heap) (nod : Nat) (f : Field) (v : Nat) :
    (h.store nod f v).free_table = h.free_table := rfl
@[simp] theorem setBucket_base (h : Heap) (k nod : Nat) : (h.setBucket k nod).base = h.base := rfl
@[simp] theorem setBucket_size (h : Heap) (k nod : Nat) : (h.setBucket k nod).size = h.size := rfl
@[simp] theorem setBucket_free_table (h : Heap) (k nod : Nat) :
    (h.setBucket k nod).free_table = Function.update h.free_table k nod := rfl
@[simp] theorem setBucket_load (h : Heap) (k nod a : Nat) (f : Field) : (h.setBucket k nod).load a f = h.load a f := rfl

/-- A field of a header after a store to a field of a header that is the same or
    does not meet it. -/
theorem load_store {a b : Nat} (apart : Apart a b) (h : Heap) (f g : Field) (v : Nat) :
    (h.store a f v).load b g = if b = a ∧ g = f then v else h.load b g := by
  unfold Heap.load Heap.store
  have fLt := offset_lt f
  have gLt := offset_lt g
  by_cases same : b = a
  · subst same
    by_cases field : g = f
    · subst field; simp
    · have differ : g.offset ≠ f.offset := fun e => field (offset_injective e)
      simp [field,differ]
  · have differ : b + g.offset ≠ a + f.offset := by
      rcases apart with eq | lt | gt
      · exact absurd eq.symm same
      · omega
      · omega
    simp [same,differ]

theorem load_store_same (h : Heap) (a : Nat) (f g : Field) (v : Nat) :
    (h.store a f v).load a g = if g = f then v else h.load a g := by
  rw [load_store (.inl rfl)]; simp

/-- The memory is the same in every word of the headers of `cs`. -/
theorem shape_congr {h h' : Heap} {cs : List Chunk} {bins : Nat → List Nat} (shape : Shape h cs bins)
    (base : h'.base = h.base) (size : h'.size = h.size) (table : h'.free_table = h.free_table)
    (same : ∀ c ∈ cs, ∀ f, h'.load c.addr f = h.load c.addr f) : Shape h' cs bins := by
  have inBin : ∀ k, ∀ a ∈ bins k, ∀ f, h'.load a f = h.load a f := by
    intro k a member f
    obtain ⟨c,inside,rfl,_⟩ := (shape.members k a).mp member
    exact same c inside f
  constructor
  · rw [base,size]; exact shape.tiles
  · refine linked_congr shape.linked ?_ ?_
    · intro a member
      obtain ⟨c,inside,rfl⟩ := List.mem_map.mp member
      exact same c inside _
    · intro a member
      obtain ⟨c,inside,rfl⟩ := List.mem_map.mp member
      exact same c inside _
  · intro c inside; rw [same c inside]; exact shape.sizes c inside
  · intro c inside; unfold is_free_node; rw [same c inside]; exact shape.flags c inside
  · intro c inside live; rw [same c inside,same c inside]; exact shape.magics c inside live
  · intro k; rw [table]; exact shape.heads k
  · intro k
    exact linked_congr (shape.chains k) (fun a member => inBin k a member _) (fun a member => inBin k a member _)
  · exact shape.distinct
  · exact shape.members

/-! ### Tiles -/

theorem tiles_append (start stop : Nat) (l r : List Chunk) :
    Tiles start (l ++ r) stop ↔ ∃ mid, Tiles start l mid ∧ Tiles mid r stop := by
  induction l generalizing start with
  | nil => simp [Tiles]
  | cons c l ih => simp [Tiles,ih,and_assoc]

theorem tiles_le {start stop : Nat} {cs : List Chunk} (tiles : Tiles start cs stop) : start ≤ stop := by
  induction cs generalizing start with
  | nil => exact Nat.le_of_eq tiles
  | cons c cs ih =>
    have := ih tiles.2
    have := tiles.1
    unfold Chunk.stop at *
    omega

theorem tiles_bounds {start stop : Nat} {cs : List Chunk} (tiles : Tiles start cs stop) :
    ∀ c ∈ cs, start ≤ c.addr ∧ c.stop ≤ stop := by
  induction cs generalizing start with
  | nil => simp
  | cons c cs ih =>
    have rest := tiles_le tiles.2
    have first := tiles.1
    intro d member
    rcases List.mem_cons.mp member with same | later
    · subst same; exact ⟨by omega,rest⟩
    · have := ih tiles.2 d later
      unfold Chunk.stop at *
      omega

theorem tiles_pairwise {start stop : Nat} {cs : List Chunk} (tiles : Tiles start cs stop) :
    cs.Pairwise (fun c d => c.stop ≤ d.addr) := by
  induction cs generalizing start with
  | nil => exact .nil
  | cons c cs ih => exact .cons (fun d member => (tiles_bounds tiles.2 d member).1) (ih tiles.2)

theorem tiles_sum {start stop : Nat} {cs : List Chunk} (tiles : Tiles start cs stop) :
    start + (cs.map (fun c => c.size + sizeofNode)).sum = stop := by
  induction cs generalizing start with
  | nil => simpa [Tiles] using tiles
  | cons c cs ih =>
    have rest := ih tiles.2
    have first := tiles.1
    unfold Chunk.stop at rest
    simp only [List.map_cons,List.sum_cons]
    omega

theorem tiles_nodup {start stop : Nat} {cs : List Chunk} (tiles : Tiles start cs stop) :
    (cs.map (·.addr)).Nodup := by
  refine List.pairwise_map.mpr ((tiles_pairwise tiles).imp ?_)
  intro c d le
  unfold Chunk.stop sizeofNode at le
  omega

/-- Two chunks are the same one, or one of them ends before the other begins. -/
theorem tiles_separate {start stop : Nat} {cs : List Chunk} (tiles : Tiles start cs stop) {c d : Chunk}
    (inC : c ∈ cs) (inD : d ∈ cs) : c = d ∨ c.stop ≤ d.addr ∨ d.stop ≤ c.addr := by
  induction cs generalizing start with
  | nil => simp at inC
  | cons e cs ih =>
    rcases List.mem_cons.mp inC with rfl | laterC <;> rcases List.mem_cons.mp inD with rfl | laterD
    · exact .inl rfl
    · exact .inr (.inl (tiles_bounds tiles.2 d laterD).1)
    · exact .inr (.inr (tiles_bounds tiles.2 c laterC).1)
    · exact ih tiles.2 laterC laterD

theorem tiles_apart {start stop : Nat} {cs : List Chunk} (tiles : Tiles start cs stop) {c d : Chunk}
    (inC : c ∈ cs) (inD : d ∈ cs) : Apart c.addr d.addr := by
  have := tiles_separate tiles inC inD
  unfold Chunk.stop at this
  rcases this with rfl | le | le
  · exact .inl rfl
  · exact .inr (.inl (by omega))
  · exact .inr (.inr (by omega))

theorem tiles_unique {start stop : Nat} {cs : List Chunk} (tiles : Tiles start cs stop) {c d : Chunk}
    (inC : c ∈ cs) (inD : d ∈ cs) (same : c.addr = d.addr) : c = d := by
  rcases tiles_separate tiles inC inD with eq | le | le
  · exact eq
  · unfold Chunk.stop sizeofNode at le; omega
  · unfold Chunk.stop sizeofNode at le; omega

/-! ### One chunk changes its standing -/

theorem shape_positive {h : Heap} {cs : List Chunk} {bins : Nat → List Nat} (shape : Shape h cs bins) :
    ∀ c ∈ cs, 0 < c.addr := by
  intro c inside
  have := (tiles_bounds shape.tiles c inside).1
  unfold sizeofBlock at this
  omega

theorem shape_bin_apart {h : Heap} {cs : List Chunk} {bins : Nat → List Nat} (shape : Shape h cs bins)
    {k a : Nat} (inBin : a ∈ bins k) {c : Chunk} (inside : c ∈ cs) : Apart a c.addr := by
  obtain ⟨d,inD,rfl,_⟩ := (shape.members k a).mp inBin
  exact tiles_apart shape.tiles inD inside

theorem shape_bin_positive {h : Heap} {cs : List Chunk} {bins : Nat → List Nat} (shape : Shape h cs bins)
    {k a : Nat} (inBin : a ∈ bins k) : 0 < a := by
  obtain ⟨d,inD,rfl,_⟩ := (shape.members k a).mp inBin
  exact shape_positive shape d inD

/-- The other chunks lie elsewhere. -/
theorem shape_others {h : Heap} {l r : List Chunk} {c : Chunk} {bins : Nat → List Nat}
    (shape : Shape h (l ++ c :: r) bins) : ∀ d ∈ l ++ r, d.addr ≠ c.addr := by
  intro d member same
  have distinct := tiles_nodup shape.tiles
  have : d.addr ∉ (l ++ r).map (·.addr) := by
    rw [same]
    have perm : ((l ++ c :: r).map (·.addr)).Perm (c.addr :: (l ++ r).map (·.addr)) := by
      rw [← List.map_cons]; exact List.Perm.map _ List.perm_middle
    exact (List.nodup_cons.mp (perm.nodup_iff.mp distinct)).1
  exact this (List.mem_map_of_mem member)

/-- A chunk changes its status, and the buckets with it, in place. -/
theorem shape_retag {h h' : Heap} {l r : List Chunk} {c c' : Chunk} {bins bins' : Nat → List Nat}
    (shape : Shape h (l ++ c :: r) bins) (addr : c'.addr = c.addr) (size : c'.size = c.size)
    (sameBase : h'.base = h.base) (sameSize : h'.size = h.size)
    (kept : ∀ d ∈ l ++ c :: r, ∀ f, f = .next ∨ f = .pre ∨ f = .size → h'.load d.addr f = h.load d.addr f)
    (others : ∀ d ∈ l ++ r, ∀ f, f = .attribute ∨ f = .p_magic ∨ f = .n_magic →
      h'.load d.addr f = h.load d.addr f)
    (flag : is_free_node h' c.addr = c'.status.isFree)
    (magic : c'.status = .live → h'.load c.addr .p_magic = P_MAGIC ∧ h'.load c.addr .n_magic = N_MAGIC)
    (heads : ∀ k, h'.free_table k = (bins' k).headD 0)
    (chains : ∀ k, Linked (h'.load · .hash_next) (h'.load · .hash_pre) 0 (bins' k) 0)
    (distinct : ∀ k, (bins' k).Nodup)
    (members : ∀ k a, a ∈ bins' k ↔ (a = c.addr ∧ c'.status = .binned k) ∨
      ∃ d ∈ l ++ r, d.addr = a ∧ d.status = .binned k) :
    Shape h' (l ++ c' :: r) bins' := by
  have addresses : (l ++ c' :: r).map (·.addr) = (l ++ c :: r).map (·.addr) := by simp [addr]
  constructor
  · rw [sameBase,sameSize]
    obtain ⟨mid,left,⟨first,right⟩⟩ := (tiles_append ..).mp shape.tiles
    refine (tiles_append ..).mpr ⟨mid,left,addr.trans first,?_⟩
    simpa [Chunk.stop,addr,size] using right
  · rw [addresses]
    refine linked_congr shape.linked ?_ ?_
    · intro a member
      obtain ⟨d,inside,rfl⟩ := List.mem_map.mp member
      exact kept d inside _ (.inl rfl)
    · intro a member
      obtain ⟨d,inside,rfl⟩ := List.mem_map.mp member
      exact kept d inside _ (.inr (.inl rfl))
  · intro d inside
    rcases List.mem_append.mp inside with left | right
    · rw [kept d (by simp [left]) _ (.inr (.inr rfl))]; exact shape.sizes d (by simp [left])
    · rcases List.mem_cons.mp right with rfl | right
      · rw [addr,kept c (by simp) _ (.inr (.inr rfl)),size]; exact shape.sizes c (by simp)
      · rw [kept d (by simp [right]) _ (.inr (.inr rfl))]; exact shape.sizes d (by simp [right])
  · intro d inside
    rcases List.mem_append.mp inside with left | right
    · unfold is_free_node
      rw [others d (by simp [left]) _ (.inl rfl)]; exact shape.flags d (by simp [left])
    · rcases List.mem_cons.mp right with rfl | right
      · rw [addr]; exact flag
      · unfold is_free_node
        rw [others d (by simp [right]) _ (.inl rfl)]; exact shape.flags d (by simp [right])
  · intro d inside live
    rcases List.mem_append.mp inside with left | right
    · rw [others d (by simp [left]) _ (.inr (.inl rfl)),others d (by simp [left]) _ (.inr (.inr rfl))]
      exact shape.magics d (by simp [left]) live
    · rcases List.mem_cons.mp right with rfl | right
      · rw [addr]; exact magic live
      · rw [others d (by simp [right]) _ (.inr (.inl rfl)),others d (by simp [right]) _ (.inr (.inr rfl))]
        exact shape.magics d (by simp [right]) live
  · exact heads
  · exact chains
  · exact distinct
  · intro k a
    rw [members]
    constructor
    · rintro (⟨rfl,status⟩ | ⟨d,inside,rfl,status⟩)
      · exact ⟨c',by simp,addr,status⟩
      · exact ⟨d,by rcases List.mem_append.mp inside with i | i <;> simp [i],rfl,status⟩
    · rintro ⟨d,inside,rfl,status⟩
      rcases List.mem_append.mp inside with left | right
      · exact .inr ⟨d,by simp [left],rfl,status⟩
      · rcases List.mem_cons.mp right with rfl | right
        · exact .inl ⟨addr,status⟩
        · exact .inr ⟨d,by simp [right],rfl,status⟩

theorem members_split {h : Heap} {l r : List Chunk} {c : Chunk} {bins : Nat → List Nat}
    (shape : Shape h (l ++ c :: r) bins) (k a : Nat) :
    a ∈ bins k ↔ (a = c.addr ∧ c.status = .binned k) ∨ ∃ d ∈ l ++ r, d.addr = a ∧ d.status = .binned k := by
  rw [shape.members]
  simp only [List.mem_append,List.mem_cons]
  constructor
  · rintro ⟨d,left | rfl | right,rfl,status⟩
    · exact .inr ⟨d,.inl left,rfl,status⟩
    · exact .inl ⟨rfl,status⟩
    · exact .inr ⟨d,.inr right,rfl,status⟩
  · rintro (⟨rfl,status⟩ | ⟨d,inside,rfl,status⟩)
    · exact ⟨c,.inr (.inl rfl),rfl,status⟩
    · exact ⟨d,inside.imp id .inr,rfl,status⟩

/-! ### Buckets -/

theorem hash_delete_load {h : Heap} {i : Nat} (k : Nat) {x : Nat} (f : Field)
    (preI : h.load i .hash_pre ≠ 0 → h.load i .hash_pre ≠ i ∧ Apart (h.load i .hash_pre) i)
    (preX : h.load i .hash_pre ≠ 0 → Apart (h.load i .hash_pre) x)
    (nextX : h.load i .hash_next ≠ 0 → Apart (h.load i .hash_next) x) :
    (hash_delete h i k).load x f =
      if f = .hash_next ∧ h.load i .hash_pre ≠ 0 ∧ x = h.load i .hash_pre then h.load i .hash_next
      else if f = .hash_pre ∧ h.load i .hash_next ≠ 0 ∧ x = h.load i .hash_next then h.load i .hash_pre
      else h.load x f := by
  unfold hash_delete
  by_cases pre : h.load i .hash_pre = 0
  · by_cases next : h.load i .hash_next = 0
    · simp [pre,next]
    · have value := load_store (nextX next) h .hash_pre f 0
      simp only [pre,next,ne_eq,not_true_eq_false,not_false_eq_true,if_true,if_false,setBucket_load]
      change ((h.store (h.load i .hash_next) .hash_pre 0).load x f) = _
      rw [value]
      simp [and_comm]
  · have keepNext : (h.store (h.load i .hash_pre) .hash_next (h.load i .hash_next)).load i .hash_next =
        h.load i .hash_next := by
      rw [load_store (preI pre).2]; simp [(preI pre).1.symm]
    have keepPre : (h.store (h.load i .hash_pre) .hash_next (h.load i .hash_next)).load i .hash_pre =
        h.load i .hash_pre := by
      rw [load_store (preI pre).2]; simp
    by_cases next : h.load i .hash_next = 0
    · dsimp only
      rw [if_pos pre,keepNext,if_neg (not_not.mpr next),load_store (preX pre)]
      simp [pre,next,and_comm]
    · dsimp only
      rw [if_pos pre,keepNext,keepPre,if_pos next,load_store (nextX next),load_store (preX pre)]
      by_cases isPre : f = .hash_pre
      · subst isPre; simp [next]
      · simp [isPre,pre,and_comm]

@[simp] theorem hash_delete_base (h : Heap) (i k : Nat) : (hash_delete h i k).base = h.base := by
  unfold hash_delete; dsimp only; split_ifs <;> rfl
@[simp] theorem hash_delete_size (h : Heap) (i k : Nat) : (hash_delete h i k).size = h.size := by
  unfold hash_delete; dsimp only; split_ifs <;> rfl
theorem hash_delete_free_table (h : Heap) (i k : Nat) :
    (hash_delete h i k).free_table =
      if h.load i .hash_pre ≠ 0 then h.free_table else Function.update h.free_table k (h.load i .hash_next) := by
  unfold hash_delete; dsimp only; split_ifs <;> rfl

theorem shape_bins_disjoint {h : Heap} {cs : List Chunk} {bins : Nat → List Nat} (shape : Shape h cs bins)
    {k k' a : Nat} (inK : a ∈ bins k) (inK' : a ∈ bins k') : k = k' := by
  obtain ⟨c,inC,rfl,status⟩ := (shape.members k a).mp inK
  obtain ⟨d,inD,same,status'⟩ := (shape.members k' _).mp inK'
  have := tiles_unique shape.tiles inD inC same
  subst this
  rw [status] at status'
  exact Status.binned.inj status'

private theorem getLast_of_nonzero {l : List Nat} (nonzero : l.getLastD 0 ≠ 0) :
    l.getLast? = some (l.getLastD 0) := by
  rw [List.getLastD_eq_getLast?] at *
  cases last : l.getLast? with
  | none => simp [last] at nonzero
  | some a => rfl

private theorem head_of_nonzero {l : List Nat} (nonzero : l.headD 0 ≠ 0) : l.head? = some (l.headD 0) := by
  cases l with
  | nil => simp at nonzero
  | cons a l => rfl

private theorem headD_of_head {l : List Nat} {a : Nat} (first : a ∈ l.head?) : l.headD 0 = a := by
  cases l with
  | nil => simp at first
  | cons b l => simpa using first

private theorem getLastD_of_getLast {l : List Nat} {a : Nat} (last : a ∈ l.getLast?) : l.getLastD 0 = a := by
  rw [List.getLastD_eq_getLast?,Option.mem_def.mp last]; rfl

/-- Only the first entry behind a header is the one that its link names. -/
private theorem not_named {next x : Nat} {r : List Nat} (named : next = r.headD 0) (notFirst : x ∉ r.head?)
    (nonzero : next ≠ 0) : x ≠ next := by
  rintro rfl
  rw [named] at nonzero
  exact notFirst (by rw [named,head_of_nonzero nonzero]; rfl)

theorem mem_around {l r : List Chunk} {c d : Chunk} (member : d ∈ l ++ r) : d ∈ l ++ c :: r := by
  rcases List.mem_append.mp member with left | right
  · exact List.mem_append_left _ left
  · exact List.mem_append_right _ (List.mem_cons_of_mem _ right)

/-! ### Taking a chunk out of its bucket -/

section Cut
variable {h : Heap} {l r : List Chunk} {c : Chunk} {bins : Nat → List Nat} {k : Nat} {x y : List Nat}
  (shape : Shape h (l ++ c :: r) bins) (cut : bins k = x ++ c.addr :: y)
include shape cut

theorem cut_links : h.load c.addr .hash_pre = x.getLastD 0 ∧ h.load c.addr .hash_next = y.headD 0 := by
  have chain := shape.chains k
  rw [cut] at chain
  exact linked_at chain

theorem cut_distinct : c.addr ∉ x ++ y ∧ (x ++ y).Nodup := by
  have distinct := shape.distinct k
  rw [cut] at distinct
  exact List.nodup_cons.mp (List.nodup_middle.mp distinct)

omit shape in
theorem cut_mem {a : Nat} (member : a ∈ x ++ y) : a ∈ bins k := by
  rw [cut]
  exact List.perm_middle.mem_iff.mpr (List.mem_cons_of_mem _ member)

theorem cut_pre (nonzero : h.load c.addr .hash_pre ≠ 0) : h.load c.addr .hash_pre ∈ x := by
  have back := (cut_links shape cut).1
  rw [back] at nonzero ⊢
  exact List.mem_of_getLast? (getLast_of_nonzero nonzero)

theorem cut_next (nonzero : h.load c.addr .hash_next ≠ 0) : h.load c.addr .hash_next ∈ y := by
  have forth := (cut_links shape cut).2
  rw [forth] at nonzero ⊢
  exact List.mem_of_head? (head_of_nonzero nonzero)

/-- The two words that change are links of the neighbours in this bucket. -/
theorem cut_loads {d : Chunk} (member : d ∈ l ++ c :: r) (f : Field) : (hash_delete h c.addr k).load d.addr f =
    if f = .hash_next ∧ h.load c.addr .hash_pre ≠ 0 ∧ d.addr = h.load c.addr .hash_pre then h.load c.addr .hash_next
    else if f = .hash_pre ∧ h.load c.addr .hash_next ≠ 0 ∧ d.addr = h.load c.addr .hash_next then
      h.load c.addr .hash_pre
    else h.load d.addr f := by
  have inside : c ∈ l ++ c :: r := by simp
  have preBin (nonzero : h.load c.addr .hash_pre ≠ 0) := cut_mem cut (List.mem_append_left y (cut_pre shape cut nonzero))
  have nextBin (nonzero : h.load c.addr .hash_next ≠ 0) :=
    cut_mem cut (List.mem_append_right x (cut_next shape cut nonzero))
  refine hash_delete_load k f ?_ ?_ ?_
  · intro nonzero
    refine ⟨fun same => (cut_distinct shape cut).1 ?_,shape_bin_apart shape (preBin nonzero) inside⟩
    exact List.mem_append_left _ (same ▸ cut_pre shape cut nonzero)
  · exact fun nonzero => shape_bin_apart shape (preBin nonzero) member
  · exact fun nonzero => shape_bin_apart shape (nextBin nonzero) member

theorem cut_bin_loads {k' a : Nat} (member : a ∈ bins k') (f : Field) : (hash_delete h c.addr k).load a f =
    if f = .hash_next ∧ h.load c.addr .hash_pre ≠ 0 ∧ a = h.load c.addr .hash_pre then h.load c.addr .hash_next
    else if f = .hash_pre ∧ h.load c.addr .hash_next ≠ 0 ∧ a = h.load c.addr .hash_next then
      h.load c.addr .hash_pre
    else h.load a f := by
  obtain ⟨d,inD,rfl,_⟩ := (shape.members k' a).mp member
  exact cut_loads shape cut inD f

theorem cut_heads (k' : Nat) : (hash_delete h c.addr k).free_table k' = (Function.update bins k (x ++ y) k').headD 0 := by
  obtain ⟨back,forth⟩ := cut_links shape cut
  rw [hash_delete_free_table]
  by_cases same : k' = k
  · subst same
    have head := shape.heads k'
    by_cases pre : h.load c.addr .hash_pre = 0
    · have empty : x = [] := by
        rw [back] at pre
        cases x with
        | nil => rfl
        | cons a x =>
          have last : x.getLastD a ∈ a :: x := List.getLastD_mem_cons
          rw [List.getLastD_cons] at pre
          rw [pre] at last
          exact absurd rfl (Nat.ne_of_gt (shape_bin_positive shape (cut_mem cut (List.mem_append_left y last))))
      simp [pre,empty,forth]
    · have full : x ≠ [] := fun empty => pre (by rw [back,empty]; rfl)
      rw [if_pos pre,head,cut]
      obtain ⟨a,x,rfl⟩ := List.exists_cons_of_ne_nil full
      simp
  · split_ifs
    · rw [shape.heads k']; simp [same]
    · simp [same,shape.heads k']

theorem cut_chains (k' : Nat) : Linked ((hash_delete h c.addr k).load · .hash_next)
    ((hash_delete h c.addr k).load · .hash_pre) 0 (Function.update bins k (x ++ y) k') 0 := by
  obtain ⟨back,forth⟩ := cut_links shape cut
  have chain := shape.chains k
  rw [cut] at chain
  have distinct := shape.distinct k
  rw [cut] at distinct
  have inX : ∀ a ∈ x, a ∈ bins k := fun a member => cut_mem cut (List.mem_append_left y member)
  have inY : ∀ a ∈ y, a ∈ bins k := fun a member => cut_mem cut (List.mem_append_right x member)
  by_cases same : k' = k
  · subst same
    rw [Function.update_self]
    refine linked_remove chain distinct ?_ ?_ ?_ ?_
    · intro b last
      have inB := List.mem_of_getLast? last
      have isPre : h.load c.addr .hash_pre = b := back.trans (getLastD_of_getLast last)
      have positive := shape_bin_positive shape (inX b inB)
      rw [cut_bin_loads shape cut (inX b inB)]
      simp [isPre,Nat.ne_of_gt positive]
    · intro b first
      have inB := List.mem_of_head? first
      have isNext : h.load c.addr .hash_next = b := forth.trans (headD_of_head first)
      have positive := shape_bin_positive shape (inY b inB)
      rw [cut_bin_loads shape cut (inY b inB)]
      simp [isNext,Nat.ne_of_gt positive]
    · intro b member notLast
      have inB := cut_mem cut member
      rw [cut_bin_loads shape cut inB]
      by_cases isPre : h.load c.addr .hash_pre ≠ 0 ∧ b = h.load c.addr .hash_pre
      · refine absurd ?_ notLast
        have nonzero := isPre.1
        rw [back] at nonzero
        rw [isPre.2,back,getLast_of_nonzero nonzero]
        rfl
      · simp [isPre]
    · intro b member notFirst
      have inB := cut_mem cut member
      rw [cut_bin_loads shape cut inB]
      by_cases isNext : h.load c.addr .hash_next ≠ 0 ∧ b = h.load c.addr .hash_next
      · refine absurd ?_ notFirst
        have nonzero := isNext.1
        rw [forth] at nonzero
        rw [isNext.2,forth,head_of_nonzero nonzero]
        rfl
      · simp [isNext]
  · rw [Function.update_of_ne same]
    refine linked_congr (shape.chains k') ?_ ?_
    · intro a member
      rw [cut_bin_loads shape cut member]
      have other : ¬ (h.load c.addr .hash_pre ≠ 0 ∧ a = h.load c.addr .hash_pre) := by
        rintro ⟨nonzero,rfl⟩
        exact same (shape_bins_disjoint shape member (inX _ (cut_pre shape cut nonzero)))
      simp [other]
    · intro a member
      rw [cut_bin_loads shape cut member]
      have other : ¬ (h.load c.addr .hash_next ≠ 0 ∧ a = h.load c.addr .hash_next) := by
        rintro ⟨nonzero,rfl⟩
        exact same (shape_bins_disjoint shape member (inY _ (cut_next shape cut nonzero)))
      simp [other]

end Cut

/-- `HASH_DELETE` takes a chunk out of the bucket it stands in. -/
theorem hash_delete_shape {h : Heap} {l r : List Chunk} {c : Chunk} {bins : Nat → List Nat} {k : Nat}
    (shape : Shape h (l ++ c :: r) bins) (status : c.status = .binned k) :
    ∃ bins', Shape (hash_delete h c.addr k) (l ++ { c with status := .loose true } :: r) bins' := by
  have inside : c ∈ l ++ c :: r := by simp
  have inBin : c.addr ∈ bins k := (shape.members k _).mpr ⟨c,inside,rfl,status⟩
  obtain ⟨x,y,cut⟩ := List.append_of_mem inBin
  refine ⟨Function.update bins k (x ++ y),shape_retag shape rfl rfl (by simp) (by simp) ?_ ?_ ?_ ?_ (cut_heads shape cut)
    (cut_chains shape cut) ?_ ?_⟩
  · intro d member f kind
    rw [cut_loads shape cut member f]
    rcases kind with rfl | rfl | rfl <;> simp
  · intro d member f kind
    rw [cut_loads shape cut (mem_around member) f]
    rcases kind with rfl | rfl | rfl <;> simp
  · have flag := shape.flags c inside
    unfold is_free_node at flag ⊢
    rw [cut_loads shape cut inside]
    simpa [status,Status.isFree] using flag
  · intro live; cases live
  · intro k'
    by_cases same : k' = k
    · subst same
      rw [Function.update_self]
      exact (cut_distinct shape cut).2
    · rw [Function.update_of_ne same]; exact shape.distinct k'
  · intro k' a
    by_cases same : k' = k
    · subst same
      rw [Function.update_self]
      have old := members_split shape k' a
      rw [cut] at old
      constructor
      · intro member
        rcases old.mp (by rcases List.mem_append.mp member with i | i <;> simp [i]) with ⟨rfl,_⟩ | found
        · exact absurd member (cut_distinct shape cut).1
        · exact .inr found
      · rintro (⟨_,impossible⟩ | found)
        · cases impossible
        · obtain ⟨d,inD,rfl,_⟩ := found
          have := old.mpr (.inr ⟨d,inD,rfl,‹_›⟩)
          rcases List.mem_append.mp this with i | i
          · simp [i]
          · rcases List.mem_cons.mp i with bad | i
            · exact absurd bad (shape_others shape d inD)
            · simp [i]
    · rw [Function.update_of_ne same,members_split shape k' a,status]
      simp [Ne.symm same]

theorem hash_append_load {h : Heap} {i k x : Nat} (f : Field) (apartI : Apart i x)
    (head : h.free_table k ≠ 0 → h.free_table k ≠ i ∧ Apart (h.free_table k) x) :
    (hash_append h i k).load x f =
      if x = i ∧ f = .hash_next then h.free_table k
      else if x = i ∧ f = .hash_pre then 0
      else if h.free_table k ≠ 0 ∧ x = h.free_table k ∧ f = .hash_pre then i
      else h.load x f := by
  unfold hash_append
  by_cases empty : h.free_table k = 0
  · simp only [empty,ne_eq,not_true_eq_false,if_false,setBucket_load]
    rw [load_store apartI,load_store apartI]
    by_cases same : x = i <;> by_cases isPre : f = .hash_pre <;> simp [same,isPre]
  · obtain ⟨other,apart⟩ := head empty
    simp only [empty,ne_eq,not_false_eq_true,if_true,setBucket_load]
    rw [load_store apart,load_store apartI,load_store apartI]
    by_cases same : x = i
    · subst same; by_cases isPre : f = .hash_pre <;> simp [Ne.symm other,isPre]
    · simp [same]

@[simp] theorem hash_append_base (h : Heap) (i k : Nat) : (hash_append h i k).base = h.base := by
  unfold hash_append; dsimp only; split_ifs <;> rfl
@[simp] theorem hash_append_size (h : Heap) (i k : Nat) : (hash_append h i k).size = h.size := by
  unfold hash_append; dsimp only; split_ifs <;> rfl
@[simp] theorem hash_append_free_table (h : Heap) (i k : Nat) :
    (hash_append h i k).free_table = Function.update h.free_table k i := by
  unfold hash_append; dsimp only; split_ifs <;> rfl

theorem shape_bucket_head {h : Heap} {l r : List Chunk} {c : Chunk} {bins : Nat → List Nat} (k : Nat)
    (shape : Shape h (l ++ c :: r) bins) (unbinned : ∀ k, c.status ≠ .binned k) {d : Chunk} (member : d ∈ l ++ c :: r)
    (nonzero : h.free_table k ≠ 0) :
    h.free_table k ∈ bins k ∧ h.free_table k ≠ c.addr ∧ Apart (h.free_table k) d.addr := by
  have inBin : h.free_table k ∈ bins k := by
    rw [shape.heads k] at nonzero ⊢
    exact List.mem_of_head? (head_of_nonzero nonzero)
  refine ⟨inBin,fun same => ?_,shape_bin_apart shape inBin member⟩
  rcases (members_split shape k _).mp inBin with ⟨_,binned⟩ | ⟨e,inE,at_e,_⟩
  · exact unbinned k binned
  · exact shape_others shape e inE (at_e.trans same)

section Appending
variable {h : Heap} {l r : List Chunk} {c : Chunk} {bins : Nat → List Nat} {k : Nat}
  (shape : Shape h (l ++ c :: r) bins) (status : c.status = .loose true)
include shape status

theorem append_fresh (k' : Nat) : c.addr ∉ bins k' := by
  intro member
  rcases (members_split shape k' _).mp member with ⟨_,binned⟩ | ⟨d,inD,same,_⟩
  · rw [status] at binned; cases binned
  · exact shape_others shape d inD same

theorem append_head {d : Chunk} (member : d ∈ l ++ c :: r) (nonzero : h.free_table k ≠ 0) :
    h.free_table k ∈ bins k ∧ h.free_table k ≠ c.addr ∧ Apart (h.free_table k) d.addr :=
  shape_bucket_head k shape (fun k binned => by rw [status] at binned; cases binned) member nonzero

theorem append_loads {d : Chunk} (member : d ∈ l ++ c :: r) (f : Field) : (hash_append h c.addr k).load d.addr f =
    if d.addr = c.addr ∧ f = .hash_next then h.free_table k
    else if d.addr = c.addr ∧ f = .hash_pre then 0
    else if h.free_table k ≠ 0 ∧ d.addr = h.free_table k ∧ f = .hash_pre then c.addr
    else h.load d.addr f :=
  hash_append_load f (tiles_apart shape.tiles (by simp) member)
    (fun nonzero => (append_head shape status member nonzero).2)

theorem append_bin_loads {k' a : Nat} (member : a ∈ bins k') (f : Field) : (hash_append h c.addr k).load a f =
    if h.free_table k ≠ 0 ∧ a = h.free_table k ∧ f = .hash_pre then c.addr else h.load a f := by
  obtain ⟨d,inD,rfl,_⟩ := (shape.members k' a).mp member
  have other : d.addr ≠ c.addr := fun same => append_fresh shape status k' (same ▸ member)
  rw [append_loads shape status inD f]
  simp [other]

/-- The chunk comes first in the bucket, and the other buckets stay. -/
theorem append_chains (k' : Nat) : Linked ((hash_append h c.addr k).load · .hash_next)
    ((hash_append h c.addr k).load · .hash_pre) 0 (Function.update bins k (c.addr :: bins k) k') 0 := by
  have inside : c ∈ l ++ c :: r := by simp
  by_cases same : k' = k
  · subst same
    rw [Function.update_self]
    refine linked_push (shape.chains k') (shape.distinct k') ?_ ?_ ?_ ?_ ?_
    · rw [append_loads shape status inside]; simp
    · rw [append_loads shape status inside]; simp [shape.heads k']
    · intro a first
      have inA := List.mem_of_head? first
      have isHead : h.free_table k' = a := (shape.heads k').trans (headD_of_head first)
      have positive := shape_bin_positive shape inA
      rw [append_bin_loads shape status inA]
      simp [isHead,Nat.ne_of_gt positive]
    · intro a member
      rw [append_bin_loads shape status member]
      simp
    · intro a member notFirst
      rw [append_bin_loads shape status member,if_neg]
      rintro ⟨nonzero,isHead,_⟩
      exact not_named (shape.heads k') notFirst nonzero isHead
  · rw [Function.update_of_ne same]
    refine linked_congr (shape.chains k') ?_ ?_
    · intro a member; rw [append_bin_loads shape status member]; simp
    · intro a member
      rw [append_bin_loads shape status member,if_neg]
      rintro ⟨nonzero,rfl,_⟩
      exact same (shape_bins_disjoint shape member (append_head shape status inside nonzero).1)

end Appending

/-- `HASH_APPEND` puts a free chunk that stands in no bucket into the bucket `k`. -/
theorem hash_append_shape {h : Heap} {l r : List Chunk} {c : Chunk} {bins : Nat → List Nat} (k : Nat)
    (shape : Shape h (l ++ c :: r) bins) (status : c.status = .loose true) :
    ∃ bins', Shape (hash_append h c.addr k) (l ++ { c with status := .binned k } :: r) bins' := by
  have inside : c ∈ l ++ c :: r := by simp
  refine ⟨Function.update bins k (c.addr :: bins k),
    shape_retag shape rfl rfl (by simp) (by simp) ?_ ?_ ?_ ?_ ?_ (append_chains shape status) ?_ ?_⟩
  · intro d member f kind
    rw [append_loads shape status member f]
    rcases kind with rfl | rfl | rfl <;> simp
  · intro d member f kind
    rw [append_loads shape status (mem_around member) f]
    rcases kind with rfl | rfl | rfl <;> simp
  · have flag := shape.flags c inside
    unfold is_free_node at flag ⊢
    rw [append_loads shape status inside]
    simpa [status,Status.isFree] using flag
  · intro live; cases live
  · intro k'
    rw [hash_append_free_table]
    by_cases same : k' = k
    · subst same; simp
    · simp [same,shape.heads k']
  · intro k'
    by_cases same : k' = k
    · subst same
      rw [Function.update_self]
      exact List.nodup_cons.mpr ⟨append_fresh shape status k',shape.distinct k'⟩
    · rw [Function.update_of_ne same]; exact shape.distinct k'
  · intro k' a
    by_cases same : k' = k
    · subst same
      rw [Function.update_self,List.mem_cons,members_split shape k' a,status]
      simp
    · rw [Function.update_of_ne same,members_split shape k' a,status]
      simp [Ne.symm same]

/-! ### Attributes -/

/-- Only the attribute and the magic words of a chunk that stands in no bucket change. -/
theorem shape_relabel {h h' : Heap} {l r : List Chunk} {c : Chunk} {bins : Nat → List Nat} {status : Status}
    (shape : Shape h (l ++ c :: r) bins) (before : ∀ k, c.status ≠ .binned k) (after : ∀ k, status ≠ .binned k)
    (sameBase : h'.base = h.base) (sameSize : h'.size = h.size) (sameTable : h'.free_table = h.free_table)
    (kept : ∀ d ∈ l ++ c :: r, ∀ f, d.addr ≠ c.addr ∨ (f ≠ .attribute ∧ f ≠ .p_magic ∧ f ≠ .n_magic) →
      h'.load d.addr f = h.load d.addr f)
    (flag : is_free_node h' c.addr = status.isFree)
    (magic : status = .live → h'.load c.addr .p_magic = P_MAGIC ∧ h'.load c.addr .n_magic = N_MAGIC) :
    Shape h' (l ++ { c with status } :: r) bins := by
  have inBin : ∀ k, ∀ a ∈ bins k, ∀ f, f ≠ .attribute ∧ f ≠ .p_magic ∧ f ≠ .n_magic → h'.load a f = h.load a f := by
    intro k a member f kind
    obtain ⟨d,inD,rfl,_⟩ := (shape.members k a).mp member
    exact kept d inD f (.inr kind)
  refine shape_retag shape rfl rfl sameBase sameSize ?_ ?_ flag magic ?_ ?_ shape.distinct ?_
  · intro d member f kind
    refine kept d member f (.inr ?_)
    rcases kind with rfl | rfl | rfl <;> decide
  · intro d member f _
    exact kept d (by rcases List.mem_append.mp member with i | i <;> simp [i]) f (.inl (shape_others shape d member))
  · intro k; rw [sameTable]; exact shape.heads k
  · intro k
    exact linked_congr (shape.chains k) (fun a member => inBin k a member _ (by decide))
      (fun a member => inBin k a member _ (by decide))
  · intro k a
    rw [members_split shape k a]
    simp [before k,after k]

theorem free_bit_set (a : Nat) : (a ||| FREE_NODE) &&& FREE_NODE ≠ 0 := by
  unfold FREE_NODE
  rw [Nat.and_one_is_mod,Nat.or_mod_two_eq_one.mpr (.inr rfl)]
  decide

theorem free_bit_clear (a : Nat) : (a &&& (modulus - 1 - FREE_NODE)) &&& FREE_NODE = 0 := by
  rw [Nat.and_assoc]
  have : (modulus - 1 - FREE_NODE) &&& FREE_NODE = 0 := by decide
  rw [this,Nat.and_zero]

@[simp] theorem make_free_base (h : Heap) (nod : Nat) : (make_free h nod).base = h.base := rfl
@[simp] theorem make_free_size (h : Heap) (nod : Nat) : (make_free h nod).size = h.size := rfl

theorem make_free_shape {h : Heap} {l r : List Chunk} {c : Chunk} {bins : Nat → List Nat}
    (shape : Shape h (l ++ c :: r) bins) (before : ∀ k, c.status ≠ .binned k) :
    Shape (make_free h c.addr) (l ++ { c with status := .loose true } :: r) bins := by
  have inside : c ∈ l ++ c :: r := by simp
  refine shape_relabel shape before (by intro k impossible; cases impossible) rfl rfl rfl ?_ ?_
    (by intro impossible; cases impossible)
  · intro d member f kind
    unfold make_free
    rw [load_store (tiles_apart shape.tiles inside member)]
    have : ¬ (d.addr = c.addr ∧ f = .attribute) := by
      rintro ⟨same,rfl⟩
      rcases kind with other | other
      · exact other same
      · exact other.1 rfl
    rw [if_neg this]
  · unfold is_free_node make_free
    rw [load_store_same,if_pos rfl]
    simpa [Status.isFree] using free_bit_set _

/-- `HASH_APPEND` before `MAKE_FREE`, the order in which `alloc` and `init_block` run them. -/
theorem append_free_shape {h : Heap} {l r : List Chunk} {c : Chunk} {bins : Nat → List Nat} (k : Nat)
    (shape : Shape h (l ++ c :: r) bins) (unbinned : ∀ k, c.status ≠ .binned k) :
    ∃ bins', Shape (make_free (hash_append h c.addr k) c.addr) (l ++ { c with status := .binned k } :: r) bins' := by
  have inside : c ∈ l ++ c :: r := by simp
  have freed := make_free_shape shape unbinned
  obtain ⟨bins',appended⟩ := hash_append_shape k freed rfl
  have addresses : ∀ d ∈ l ++ { c with status := .binned k } :: r, ∃ e ∈ l ++ c :: r, e.addr = d.addr := by
    intro d member
    rcases List.mem_append.mp member with left | right
    · exact ⟨d,by simp [left],rfl⟩
    · rcases List.mem_cons.mp right with rfl | right
      · exact ⟨c,inside,rfl⟩
      · exact ⟨d,by simp [right],rfl⟩
  refine ⟨bins',shape_congr appended (by simp) (by simp) ?_ ?_⟩
  · rw [hash_append_free_table]
    exact hash_append_free_table h c.addr k
  · intro d member f
    obtain ⟨e,inE,same⟩ := addresses d member
    rw [← same]
    have apart := tiles_apart shape.tiles inside inE
    have ready : h.free_table k ≠ 0 → h.free_table k ≠ c.addr ∧ Apart (h.free_table k) e.addr :=
      fun nonzero => (shape_bucket_head k shape unbinned inE nonzero).2
    have readyC : h.free_table k ≠ 0 → h.free_table k ≠ c.addr ∧ Apart (h.free_table k) c.addr :=
      fun nonzero => (shape_bucket_head k shape unbinned inside nonzero).2
    have left : (make_free (hash_append h c.addr k) c.addr).load e.addr f = _ := load_store apart _ _ _ _
    have right := hash_append_load (h := make_free h c.addr) (k := k) f apart ready
    have middle : (make_free h c.addr).load e.addr f = _ := load_store apart _ _ _ _
    rw [left,right,middle,hash_append_load f apart ready,hash_append_load _ (.inl rfl) readyC]
    by_cases isC : e.addr = c.addr
    · cases f <;> simp [isC,make_free]
    · simp [isC,make_free]

@[simp] theorem make_occupied_base (h : Heap) (nod : Nat) : (make_occupied h nod).base = h.base := rfl
@[simp] theorem make_occupied_size (h : Heap) (nod : Nat) : (make_occupied h nod).size = h.size := rfl

theorem make_occupied_shape {h : Heap} {l r : List Chunk} {c : Chunk} {bins : Nat → List Nat}
    (shape : Shape h (l ++ c :: r) bins) (before : ∀ k, c.status ≠ .binned k) :
    Shape (make_occupied h c.addr) (l ++ { c with status := .live } :: r) bins := by
  have inside : c ∈ l ++ c :: r := by simp
  refine shape_relabel shape before (by intro k impossible; cases impossible) rfl rfl rfl ?_ ?_ ?_
  · intro d member f kind
    have apart := tiles_apart shape.tiles inside member
    unfold make_occupied
    rw [load_store apart,load_store apart,load_store apart]
    by_cases same : d.addr = c.addr
    · rcases kind with other | ⟨one,two,three⟩
      · exact absurd same other
      · simp [one,two,three]
    · simp [same]
  · unfold is_free_node make_occupied
    rw [load_store_same,if_neg (by decide),load_store_same,if_neg (by decide),load_store_same,if_pos rfl,
      free_bit_clear]
    rfl
  · intro _
    unfold make_occupied
    constructor
    · rw [load_store_same,if_neg (by decide),load_store_same,if_pos rfl]
    · rw [load_store_same,if_pos rfl]

/-! ### Splitting and joining chunks -/

theorem split_load {h : Heap} {nod nod2 siz siz2 x : Nat} (f : Field) (other : nod2 ≠ nod)
    (apart : Apart nod nod2) (apartX : Apart nod x) (apartX2 : Apart nod2 x)
    (next : h.load nod .next ≠ 0 → h.load nod .next ≠ nod ∧ h.load nod .next ≠ nod2 ∧ Apart (h.load nod .next) x) :
    (split h nod nod2 siz siz2).load x f =
      if x = nod2 ∧ f = .size then siz2
      else if x = nod2 ∧ f = .next then h.load nod .next
      else if x = nod2 ∧ f = .pre then nod
      else if x = nod ∧ f = .size then siz
      else if x = nod ∧ f = .next then nod2
      else if h.load nod .next ≠ 0 ∧ x = h.load nod .next ∧ f = .pre then nod2
      else h.load x f := by
  have apart' : Apart nod2 nod := by
    rcases apart with e | e | e
    · exact .inl e.symm
    · exact .inr (.inr e)
    · exact .inr (.inl e)
  unfold split
  dsimp only
  have first : ((h.store nod2 .size siz2).store nod .size siz).load nod .next = h.load nod .next := by
    rw [load_store_same,load_store apart']; simp
  rw [first]
  have second : (((h.store nod2 .size siz2).store nod .size siz).store nod2 .next (h.load nod .next)).load nod2 .next =
      h.load nod .next := by rw [load_store_same,if_pos rfl]
  rw [second]
  by_cases last : h.load nod .next = 0
  · rw [if_neg (not_not.mpr last),load_store apartX2,load_store apartX,load_store apartX2,load_store apartX,
      load_store apartX2]
    by_cases x2 : x = nod2
    · subst x2
      cases f <;> simp [other,last]
    · by_cases x1 : x = nod
      · subst x1; cases f <;> simp [Ne.symm other,last]
      · simp [x1,x2,last]
  · obtain ⟨notNod,notNod2,apartN⟩ := next last
    rw [if_pos last,load_store apartX2,load_store apartX,load_store apartN,load_store apartX2,load_store apartX,
      load_store apartX2]
    by_cases x2 : x = nod2
    · subst x2
      cases f <;> simp [other,Ne.symm notNod2]
    · by_cases x1 : x = nod
      · subst x1; cases f <;> simp [Ne.symm other,Ne.symm notNod]
      · simp [x1,x2,last]

theorem split_frame (h : Heap) (nod nod2 siz siz2 : Nat) : (split h nod nod2 siz siz2).base = h.base ∧
    (split h nod nod2 siz siz2).size = h.size ∧ (split h nod nod2 siz siz2).free_table = h.free_table := by
  unfold split
  dsimp only
  split
  · exact ⟨rfl,rfl,rfl⟩
  · exact ⟨rfl,rfl,rfl⟩

/-- The word `next` of a chunk is the chunk behind it. -/
theorem next_mem {h : Heap} {l r : List Chunk} {c : Chunk} {bins : Nat → List Nat} (shape : Shape h (l ++ c :: r) bins)
    (nonzero : h.load c.addr .next ≠ 0) : ∃ d ∈ r, d.addr = h.load c.addr .next := by
  have linked : Linked (h.load · .next) (h.load · .pre) 0 (l.map (·.addr) ++ c.addr :: r.map (·.addr)) 0 := by
    simpa using shape.linked
  have nextAddr := (linked_at linked).2
  rw [nextAddr] at nonzero ⊢
  exact List.mem_map.mp (List.mem_of_head? (head_of_nonzero nonzero))

/-- A header inside a chunk is away from every other one. -/
theorem inner_apart {h : Heap} {l r : List Chunk} {c d : Chunk} {bins : Nat → List Nat} {x : Nat}
    (shape : Shape h (l ++ c :: r) bins) (behind : c.addr + sizeofNode ≤ x) (within : x + sizeofNode ≤ c.stop)
    (member : d ∈ l ++ r) : d.addr ≠ x ∧ Apart x d.addr := by
  have different : c ≠ d := fun same => shape_others shape d member (by rw [same])
  have inside : c ∈ l ++ c :: r := by simp
  rcases (tiles_separate shape.tiles inside (mem_around member)).resolve_left different with le | le
  · unfold sizeofNode at *
    exact ⟨by omega,.inr (.inl (by unfold sizeofNode; omega))⟩
  · unfold Chunk.stop sizeofNode at *
    exact ⟨by omega,.inr (.inr (by unfold sizeofNode; omega))⟩

/-- The words of the headers when a chunk is cut in two. -/
theorem split_loads {h : Heap} {l r : List Chunk} {c : Chunk} {bins : Nat → List Nat} {siz nod2 : Nat}
    (shape : Shape h (l ++ c :: r) bins) (room : siz + sizeofNode ≤ c.size) (nod2Eq : c.addr + sizeofNode + siz = nod2) :
    (∀ f, (split h c.addr nod2 siz (c.size - siz - sizeofNode)).load c.addr f =
      if f = .size then siz else if f = .next then nod2 else h.load c.addr f) ∧
    (∀ f, (split h c.addr nod2 siz (c.size - siz - sizeofNode)).load nod2 f =
      if f = .size then c.size - siz - sizeofNode else if f = .next then h.load c.addr .next
      else if f = .pre then c.addr else h.load nod2 f) ∧
    ∀ d ∈ l ++ r, ∀ f, (split h c.addr nod2 siz (c.size - siz - sizeofNode)).load d.addr f =
      if h.load c.addr .next ≠ 0 ∧ d.addr = h.load c.addr .next ∧ f = .pre then nod2 else h.load d.addr f := by
  have inside : c ∈ l ++ c :: r := by simp
  have other : nod2 ≠ c.addr := by unfold sizeofNode at *; omega
  have apart12 : Apart c.addr nod2 := .inr (.inl (by omega))
  have inner : ∀ d ∈ l ++ r, d.addr ≠ nod2 ∧ Apart nod2 d.addr := fun d member =>
    inner_apart shape (by omega) (by unfold Chunk.stop; omega) member
  have nextFacts : ∀ x, (x = nod2 ∨ ∃ d ∈ l ++ c :: r, d.addr = x) → h.load c.addr .next ≠ 0 →
      h.load c.addr .next ≠ c.addr ∧ h.load c.addr .next ≠ nod2 ∧ Apart (h.load c.addr .next) x := by
    intro x kind nonzero
    obtain ⟨d,inR,same⟩ := next_mem shape nonzero
    have inD : d ∈ l ++ r := List.mem_append_right _ inR
    obtain ⟨different,apart⟩ := inner d inD
    rw [← same]
    refine ⟨shape_others shape d inD,different,?_⟩
    rcases kind with rfl | ⟨e,inE,rfl⟩
    · rcases apart with eq | lt | gt
      · exact .inl eq.symm
      · exact .inr (.inr lt)
      · exact .inr (.inl gt)
    · exact tiles_apart shape.tiles (mem_around inD) inE
  have bothApart : ∀ x, (x = nod2 ∨ ∃ d ∈ l ++ c :: r, d.addr = x) → Apart c.addr x ∧ Apart nod2 x := by
    intro x kind
    constructor
    · rcases kind with rfl | ⟨d,inD,rfl⟩
      · exact apart12
      · exact tiles_apart shape.tiles inside inD
    · rcases kind with rfl | ⟨d,inD,rfl⟩
      · exact .inl rfl
      · rcases List.mem_append.mp inD with left | right
        · exact (inner d (List.mem_append_left _ left)).2
        · rcases List.mem_cons.mp right with rfl | right
          · exact .inr (.inr (by omega))
          · exact (inner d (List.mem_append_right _ right)).2
  refine ⟨fun f => ?_,fun f => ?_,fun d member f => ?_⟩
  · have kind : c.addr = nod2 ∨ ∃ d ∈ l ++ c :: r, d.addr = c.addr := .inr ⟨c,inside,rfl⟩
    rw [split_load f other apart12 (bothApart _ kind).1 (bothApart _ kind).2 (nextFacts _ kind)]
    have notNext : ¬ (h.load c.addr .next ≠ 0 ∧ c.addr = h.load c.addr .next ∧ f = .pre) := fun both =>
      (nextFacts _ kind both.1).1 both.2.1.symm
    rw [if_neg notNext]
    simp [Ne.symm other]
  · have kind : nod2 = nod2 ∨ ∃ d ∈ l ++ c :: r, d.addr = nod2 := .inl rfl
    rw [split_load f other apart12 (bothApart _ kind).1 (bothApart _ kind).2 (nextFacts _ kind)]
    have notNext : ¬ (h.load c.addr .next ≠ 0 ∧ nod2 = h.load c.addr .next ∧ f = .pre) := fun both =>
      (nextFacts _ kind both.1).2.1 both.2.1.symm
    rw [if_neg notNext]
    simp [other]
  · have kind : d.addr = nod2 ∨ ∃ e ∈ l ++ c :: r, e.addr = d.addr := .inr ⟨d,mem_around member,rfl⟩
    rw [split_load f other apart12 (bothApart _ kind).1 (bothApart _ kind).2 (nextFacts _ kind)]
    simp [(inner d member).1,shape_others shape d member]

/-- The second part comes behind the first in the list of the chunks. -/
theorem split_linked {h : Heap} {l r : List Chunk} {c : Chunk} {bins : Nat → List Nat} {siz nod2 : Nat}
    (shape : Shape h (l ++ c :: r) bins) (room : siz + sizeofNode ≤ c.size) (nod2Eq : c.addr + sizeofNode + siz = nod2) :
    Linked ((split h c.addr nod2 siz (c.size - siz - sizeofNode)).load · .next)
      ((split h c.addr nod2 siz (c.size - siz - sizeofNode)).load · .pre) 0
      (l.map (·.addr) ++ c.addr :: nod2 :: r.map (·.addr)) 0 := by
  have old : Linked (h.load · .next) (h.load · .pre) 0 (l.map (·.addr) ++ c.addr :: r.map (·.addr)) 0 := by
    simpa using shape.linked
  have distinct : (l.map (·.addr) ++ c.addr :: r.map (·.addr)).Nodup := by simpa using tiles_nodup shape.tiles
  have nextAddr := (linked_at old).2
  obtain ⟨loadsC,loads2,loadsD⟩ := split_loads shape room nod2Eq
  refine linked_insert old distinct ?_ ?_ ?_ ?_ ?_ ?_
  · rw [loadsC]; simp
  · rw [loads2]; simp
  · rw [loads2]; simp
  · intro x first
    have isNext : h.load c.addr .next = x := nextAddr.trans (headD_of_head first)
    obtain ⟨d,inR,rfl⟩ := List.mem_map.mp (List.mem_of_head? first)
    have positive := shape_positive shape d (by simp [inR])
    rw [loadsD d (by simp [inR]),isNext]
    simp [Nat.ne_of_gt positive]
  · intro x member
    rw [← List.map_append] at member
    obtain ⟨d,inD,rfl⟩ := List.mem_map.mp member
    rw [loadsD d inD]
    simp
  · intro x member notFirst
    have keep : ∀ d ∈ l ++ r, d.addr = x →
        (split h c.addr nod2 siz (c.size - siz - sizeofNode)).load x .pre = h.load x .pre := by
      rintro d inD rfl
      rw [loadsD d inD,if_neg]
      rintro ⟨nonzero,isNext,_⟩
      exact not_named nextAddr notFirst nonzero isNext
    rcases List.mem_append.mp member with left | right
    · obtain ⟨d,inD,same⟩ := List.mem_map.mp left
      exact keep d (by simp [inD]) same
    · rcases List.mem_cons.mp right with rfl | right
      · rw [loadsC]; simp
      · obtain ⟨d,inD,same⟩ := List.mem_map.mp right
        exact keep d (by simp [inD]) same

/-- A chunk is cut in two; the second part stands in no bucket and holds whatever
    flag was in memory. -/
theorem split_shape {h : Heap} {l r : List Chunk} {c : Chunk} {bins : Nat → List Nat} (siz : Nat)
    (shape : Shape h (l ++ c :: r) bins) (status : c.status = .live) (room : siz + sizeofNode ≤ c.size) :
    ∃ free, Shape (split h c.addr (c.addr + sizeofNode + siz) siz (c.size - siz - sizeofNode))
      (l ++ { c with size := siz } :: ⟨c.addr + sizeofNode + siz,c.size - siz - sizeofNode,.loose free⟩ :: r) bins := by
  have inside : c ∈ l ++ c :: r := by simp
  generalize nod2Eq : c.addr + sizeofNode + siz = nod2
  have linkedNew := split_linked shape room nod2Eq
  obtain ⟨loadsC,loads2,loadsD⟩ := split_loads shape room nod2Eq
  obtain ⟨sameBase,sameSize,sameTable⟩ := split_frame h c.addr nod2 siz (c.size - siz - sizeofNode)
  generalize split h c.addr nod2 siz (c.size - siz - sizeofNode) = h' at *
  have newMember : ∀ d, d ∈ l ++ { c with size := siz } :: ⟨nod2,c.size - siz - sizeofNode,
      .loose (is_free_node h nod2)⟩ :: r ↔ d ∈ l ++ r ∨ d = { c with size := siz } ∨
      d = ⟨nod2,c.size - siz - sizeofNode,.loose (is_free_node h nod2)⟩ := by
    intro d
    rw [List.perm_middle.mem_iff,List.mem_cons,List.perm_middle.mem_iff,List.mem_cons,← or_assoc]
    exact or_comm
  have binLoads : ∀ k, ∀ a ∈ bins k, ∀ f, f ≠ .pre → h'.load a f = h.load a f := by
    intro k a member f notPre
    rcases (members_split shape k a).mp member with ⟨_,binned⟩ | ⟨d,inD,rfl,_⟩
    · rw [status] at binned; cases binned
    · rw [loadsD d inD f]; simp [notPre]
  refine ⟨is_free_node h nod2,?_⟩
  constructor
  · rw [sameBase,sameSize]
    obtain ⟨mid,left,⟨first,right⟩⟩ := (tiles_append ..).mp shape.tiles
    refine (tiles_append ..).mpr ⟨mid,left,first,?_,?_⟩
    · exact nod2Eq.symm
    · have stop : Chunk.stop ⟨nod2,c.size - siz - sizeofNode,.loose (is_free_node h nod2)⟩ = c.stop := by
        unfold Chunk.stop; simp only; omega
      rw [stop]; exact right
  · rw [List.map_append,List.map_cons,List.map_cons]
    exact linkedNew
  · intro d member
    rcases (newMember d).mp member with inD | rfl | rfl
    · rw [loadsD d inD]; simpa using shape.sizes d (mem_around inD)
    · rw [loadsC]; simp
    · rw [loads2]; simp
  · intro d member
    unfold is_free_node
    rcases (newMember d).mp member with inD | rfl | rfl
    · rw [loadsD d inD]; simpa [is_free_node] using shape.flags d (mem_around inD)
    · rw [loadsC]; simpa [is_free_node] using shape.flags c inside
    · rw [loads2]; simp [Status.isFree,is_free_node]
  · intro d member live
    rcases (newMember d).mp member with inD | rfl | rfl
    · rw [loadsD d inD,loadsD d inD]; simpa using shape.magics d (mem_around inD) live
    · rw [loadsC,loadsC]; simpa using shape.magics c inside live
    · cases live
  · intro k; rw [sameTable]; exact shape.heads k
  · intro k
    exact linked_congr (shape.chains k) (fun a member => binLoads k a member _ (by decide))
      (fun a member => binLoads k a member _ (by decide))
  · exact shape.distinct
  · intro k a
    rw [members_split shape k a]
    simp only [newMember]
    constructor
    · rintro (⟨_,binned⟩ | ⟨d,inD,rfl,binned⟩)
      · rw [status] at binned; cases binned
      · exact ⟨d,.inl inD,rfl,binned⟩
    · rintro ⟨d,inD | rfl | rfl,rfl,binned⟩
      · exact .inr ⟨d,inD,rfl,binned⟩
      · exact absurd (status.symm.trans binned) (by intro impossible; cases impossible)
      · cases binned

theorem join_load {h : Heap} {a b x : Nat} (f : Field) (other : a ≠ b) (apart : Apart a b) (apartX : Apart a x)
    (next : h.load b .next ≠ 0 → h.load b .next ≠ a ∧ Apart (h.load b .next) x) :
    (join h a b).load x f =
      if x = a ∧ f = .size then add (h.load a .size) (add (h.load b .size) sizeofNode)
      else if x = a ∧ f = .next then h.load b .next
      else if h.load b .next ≠ 0 ∧ x = h.load b .next ∧ f = .pre then a
      else h.load x f := by
  unfold join
  dsimp only
  generalize add (h.load a .size) (add (h.load b .size) sizeofNode) = total
  have first : (h.store a .size total).load b .next = h.load b .next := by rw [load_store apart]; simp
  rw [first]
  have second : ((h.store a .size total).store a .next (h.load b .next)).load a .next = h.load b .next := by
    rw [load_store_same,if_pos rfl]
  rw [second]
  by_cases last : h.load b .next = 0
  · rw [if_neg (not_not.mpr last),load_store apartX,load_store apartX]
    by_cases xa : x = a
    · subst xa; cases f <;> simp [last]
    · simp [xa,last]
  · obtain ⟨notA,apartN⟩ := next last
    rw [if_pos last,load_store apartN,load_store apartX,load_store apartX]
    by_cases xa : x = a
    · subst xa; cases f <;> simp [Ne.symm notA]
    · simp [xa,last]

theorem join_frame (h : Heap) (nod nod2 : Nat) : (join h nod nod2).base = h.base ∧ (join h nod nod2).size = h.size ∧
    (join h nod nod2).free_table = h.free_table := by
  unfold join
  dsimp only
  split
  · exact ⟨rfl,rfl,rfl⟩
  · exact ⟨rfl,rfl,rfl⟩

/-- The words of the headers when two neighbours are joined. -/
theorem join_loads {h : Heap} {l r : List Chunk} {a b : Chunk} {bins : Nat → List Nat}
    (shape : Shape h (l ++ a :: b :: r) bins) (fits : a.size + (b.size + sizeofNode) < modulus) :
    (∀ f, (join h a.addr b.addr).load a.addr f =
      if f = .size then a.size + (b.size + sizeofNode) else if f = .next then h.load b.addr .next
      else h.load a.addr f) ∧
    ∀ d ∈ l ++ r, ∀ f, (join h a.addr b.addr).load d.addr f =
      if h.load b.addr .next ≠ 0 ∧ d.addr = h.load b.addr .next ∧ f = .pre then a.addr else h.load d.addr f := by
  have inA : a ∈ l ++ a :: b :: r := by simp
  have inB : b ∈ l ++ a :: b :: r := by simp
  have shape' : Shape h ((l ++ [a]) ++ b :: r) bins := by simpa using shape
  have notA : ∀ d ∈ l ++ b :: r, d.addr ≠ a.addr := shape_others shape
  have other : a.addr ≠ b.addr := (notA b (by simp)).symm
  have loads : ∀ d ∈ l ++ a :: b :: r, ∀ f, (join h a.addr b.addr).load d.addr f =
      if d.addr = a.addr ∧ f = .size then a.size + (b.size + sizeofNode)
      else if d.addr = a.addr ∧ f = .next then h.load b.addr .next
      else if h.load b.addr .next ≠ 0 ∧ d.addr = h.load b.addr .next ∧ f = .pre then a.addr
      else h.load d.addr f := by
    intro d inD f
    have total : add (h.load a.addr .size) (add (h.load b.addr .size) sizeofNode) = a.size + (b.size + sizeofNode) := by
      rw [shape.sizes a inA,shape.sizes b inB,add_exact (a := b.size) (by omega),add_exact fits]
    rw [join_load f other (tiles_apart shape.tiles inA inB) (tiles_apart shape.tiles inA inD),total]
    intro nonzero
    obtain ⟨e,inR,same⟩ := next_mem shape' nonzero
    rw [← same]
    exact ⟨notA e (by simp [inR]),tiles_apart shape.tiles (by simp [inR]) inD⟩
  constructor
  · intro f
    rw [loads a inA f]
    have notNext : ¬ (h.load b.addr .next ≠ 0 ∧ a.addr = h.load b.addr .next ∧ f = .pre) := by
      rintro ⟨nonzero,isNext,_⟩
      obtain ⟨e,inR,same⟩ := next_mem shape' nonzero
      exact notA e (by simp [inR]) (by rw [same,isNext])
    rw [if_neg notNext]
    simp
  · intro d member f
    rw [loads d (mem_around (mem_around member)) f]
    simp [notA d (mem_around member)]

/-- The second neighbour leaves the list of the chunks. -/
theorem join_linked {h : Heap} {l r : List Chunk} {a b : Chunk} {bins : Nat → List Nat}
    (shape : Shape h (l ++ a :: b :: r) bins) (fits : a.size + (b.size + sizeofNode) < modulus) :
    Linked ((join h a.addr b.addr).load · .next) ((join h a.addr b.addr).load · .pre) 0
      (l.map (·.addr) ++ a.addr :: r.map (·.addr)) 0 := by
  have linked : Linked (h.load · .next) (h.load · .pre) 0 ((l.map (·.addr) ++ [a.addr]) ++ b.addr :: r.map (·.addr)) 0 := by
    simpa using shape.linked
  have distinct : ((l.map (·.addr) ++ [a.addr]) ++ b.addr :: r.map (·.addr)).Nodup := by
    simpa using tiles_nodup shape.tiles
  obtain ⟨backB,nextAddr⟩ := linked_at linked
  obtain ⟨loadsA,loadsD⟩ := join_loads shape fits
  have removed : Linked ((join h a.addr b.addr).load · .next) ((join h a.addr b.addr).load · .pre) 0
      ((l.map (·.addr) ++ [a.addr]) ++ r.map (·.addr)) 0 := by
    refine linked_remove linked distinct ?_ ?_ ?_ ?_
    · intro x last
      have isA : a.addr = x := by simpa using last
      rw [← isA,loadsA]; simp
    · intro x first
      have isNext : h.load b.addr .next = x := nextAddr.trans (headD_of_head first)
      obtain ⟨d,inR,rfl⟩ := List.mem_map.mp (List.mem_of_head? first)
      have positive := shape_positive shape d (by simp [inR])
      rw [loadsD d (by simp [inR]),isNext]
      simpa [Nat.ne_of_gt positive] using backB.symm
    · intro x member notLast
      have notSame : x ≠ a.addr := by rintro rfl; exact notLast (by simp)
      have inLR : x ∈ (l ++ r).map (·.addr) := by simpa [notSame] using member
      obtain ⟨d,inD,rfl⟩ := List.mem_map.mp inLR
      rw [loadsD d inD]; simp
    · intro x member notFirst
      by_cases isA : x = a.addr
      · rw [isA,loadsA]; simp
      · have inLR : x ∈ (l ++ r).map (·.addr) := by simpa [isA] using member
        obtain ⟨d,inD,rfl⟩ := List.mem_map.mp inLR
        rw [loadsD d inD,if_neg]
        rintro ⟨nonzero,isNext,_⟩
        exact not_named nextAddr notFirst nonzero isNext
  simpa using removed

/-- Two neighbours that stand in no bucket become one chunk. -/
theorem join_shape {h : Heap} {l r : List Chunk} {a b : Chunk} {bins : Nat → List Nat} {fa fb : Bool}
    (shape : Shape h (l ++ a :: b :: r) bins) (statusA : a.status = .loose fa) (statusB : b.status = .loose fb)
    (fits : a.size + (b.size + sizeofNode) < modulus) :
    Shape (join h a.addr b.addr) (l ++ { a with size := a.size + (b.size + sizeofNode) } :: r) bins := by
  have inA : a ∈ l ++ a :: b :: r := by simp
  have linkedNew := join_linked shape fits
  obtain ⟨loadsA,loadsD⟩ := join_loads shape fits
  obtain ⟨sameBase,sameSize,sameTable⟩ := join_frame h a.addr b.addr
  generalize join h a.addr b.addr = h' at *
  have newMember : ∀ d, d ∈ l ++ { a with size := a.size + (b.size + sizeofNode) } :: r ↔
      d ∈ l ++ r ∨ d = { a with size := a.size + (b.size + sizeofNode) } := by
    intro d
    rw [List.perm_middle.mem_iff,List.mem_cons]
    exact or_comm
  have inBins : ∀ k x, x ∈ bins k ↔ ∃ d ∈ l ++ r, d.addr = x ∧ d.status = .binned k := by
    intro k x
    rw [shape.members]
    constructor
    · rintro ⟨d,inD,rfl,binned⟩
      rcases List.mem_append.mp inD with left | right
      · exact ⟨d,by simp [left],rfl,binned⟩
      · rcases List.mem_cons.mp right with rfl | right
        · rw [statusA] at binned; cases binned
        · rcases List.mem_cons.mp right with rfl | right
          · rw [statusB] at binned; cases binned
          · exact ⟨d,by simp [right],rfl,binned⟩
    · rintro ⟨d,inD,rfl,binned⟩; exact ⟨d,mem_around (mem_around inD),rfl,binned⟩
  have binLoads : ∀ k, ∀ x ∈ bins k, ∀ f, f ≠ .pre → h'.load x f = h.load x f := by
    intro k x member f notPre
    obtain ⟨d,inD,rfl,_⟩ := (inBins k x).mp member
    rw [loadsD d inD f]; simp [notPre]
  constructor
  · rw [sameBase,sameSize]
    obtain ⟨mid,left,⟨first,⟨second,right⟩⟩⟩ := (tiles_append ..).mp shape.tiles
    refine (tiles_append ..).mpr ⟨mid,left,first,?_⟩
    have stop : Chunk.stop { a with size := a.size + (b.size + sizeofNode) } = b.stop := by
      unfold Chunk.stop at *; simp only; omega
    rw [stop]; exact right
  · rw [List.map_append,List.map_cons]
    exact linkedNew
  · intro d member
    rcases (newMember d).mp member with inD | rfl
    · rw [loadsD d inD]; simpa using shape.sizes d (mem_around (mem_around inD))
    · rw [loadsA]; simp
  · intro d member
    unfold is_free_node
    rcases (newMember d).mp member with inD | rfl
    · rw [loadsD d inD]; simpa [is_free_node] using shape.flags d (mem_around (mem_around inD))
    · rw [loadsA]; simpa [is_free_node] using shape.flags a inA
  · intro d member live
    rcases (newMember d).mp member with inD | rfl
    · rw [loadsD d inD,loadsD d inD]; simpa using shape.magics d (mem_around (mem_around inD)) live
    · exact absurd (statusA.symm.trans live) (by intro impossible; cases impossible)
  · intro k; rw [sameTable]; exact shape.heads k
  · intro k
    exact linked_congr (shape.chains k) (fun x member => binLoads k x member _ (by decide))
      (fun x member => binLoads k x member _ (by decide))
  · exact shape.distinct
  · intro k x
    rw [inBins k x]
    simp only [newMember]
    constructor
    · rintro ⟨d,inD,rfl,binned⟩; exact ⟨d,.inl inD,rfl,binned⟩
    · rintro ⟨d,inD | rfl,rfl,binned⟩
      · exact ⟨d,inD,rfl,binned⟩
      · exact absurd (statusA.symm.trans binned) (by intro impossible; cases impossible)

end GridOS.Malloc
