import GridOS.Intervals
import GridOS.BlkbufLayout

/-!
The allocator of blocks over whole runs: memory is added, blocks are handed out and given back in any order. A run keeps
the memory that the allocator was given and the objects that were handed out and not given back.
-/
namespace GridOS.Blkbuf
open GridOS.Words GridOS.Bits GridOS.Bitmap GridOS.Intervals

/-! ### One instance -/

/-- The object `p` lies in the instance: its bit is set. -/
def Holds (node_size : Nat) (i : block_instance) (p : Nat) : Prop :=
  ∃ b < i.bitmap.mask_count, test_bit b i.bitmap.bitmap = true ∧ p = data_area node_size i + b * node_size

/-- No block of the instance is free. -/
def Full (i : block_instance) : Prop := ∀ b < i.bitmap.mask_count, test_bit b i.bitmap.bitmap = true

/-- The instance lies in memory of `size` bytes at `base`: the blocks first, all that manages them behind, and the
    counter of the free blocks agrees with the bits. -/
structure Placed (node_size base size : Nat) (i : block_instance) : Prop where
  first : data_area node_size i = base
  behind : i.addr = base + i.bitmap.mask_count * node_size
  fits : need node_size i.bitmap.mask_count ≤ size
  free : i.free_count = (clearBits i.bitmap).card

section
variable {node_size base size p : Nat} {i : block_instance}

theorem holds_inside (placed : Placed node_size base size i) (holds : Holds node_size i p) :
    data_area node_size i ≤ p ∧ p + node_size ≤ i.addr := by
  obtain ⟨b,inside,_,rfl⟩ := holds
  have upTo := Nat.mul_le_mul_right node_size (Nat.succ_le_of_lt inside)
  rw [Nat.succ_mul] at upTo
  rw [placed.behind,placed.first]
  omega

theorem holds_in_area (positive : 0 < node_size) (placed : Placed node_size base size i) (holds : Holds node_size i p) :
    InArea node_size i p := by
  have inside := holds_inside placed holds
  exact ⟨inside.1,by omega⟩

/-- The search has found nothing and moved its hint to the start. -/
def rewound (i : block_instance) : block_instance := { i with bitmap := { i.bitmap with last_bit := 0 } }

/-- The block is handed out. -/
def claimed (i : block_instance) (bit : Nat) : block_instance :=
  { i with
    bitmap := { i.bitmap with bitmap := set_bit bit i.bitmap.bitmap, last_bit := bit + 1 }
    free_count := i.free_count - 1 }

theorem holds_claimed {bit : Nat} (inside : bit < i.bitmap.mask_count) :
    Holds node_size (claimed i bit) p ↔ p = data_area node_size i + bit * node_size ∨ Holds node_size i p := by
  constructor
  · rintro ⟨b,below,set,rfl⟩
    have same : test_bit b (set_bit bit i.bitmap.bitmap) = true := set
    rw [test_bit_set_bit,Bool.or_eq_true,decide_eq_true_eq] at same
    rcases same with rfl | old
    · exact .inl rfl
    · exact .inr ⟨b,below,old,rfl⟩
  · rintro (rfl | ⟨b,below,set,rfl⟩)
    · exact ⟨bit,inside,by simp [claimed],rfl⟩
    · exact ⟨b,below,by simp [claimed,set],rfl⟩

theorem placed_claimed (placed : Placed node_size base size i) {bit : Nat} (inside : bit < i.bitmap.mask_count)
    (clear : test_bit bit i.bitmap.bitmap = false) : Placed node_size base size (claimed i bit) where
  first := placed.first
  behind := placed.behind
  fits := placed.fits
  free := by
    have one := clearBits_claimed (claimed_one (bit + 1) inside clear)
    have free := placed.free
    change i.free_count - 1 = _
    unfold claimed
    dsimp only
    omega

/-- The bit that a free looks at is that of the object. -/
theorem dealloc_bit_index (positive : 0 < node_size) {b : Nat} (word : data_area node_size i + b * node_size < modulus) :
    sub (data_area node_size i + b * node_size) (data_area node_size i) / node_size = b := by
  rw [sub_exact (Nat.le_add_right ..) word,Nat.add_sub_cancel_left,Nat.mul_div_cancel b positive]

/-- An object that is given back. -/
theorem freed (positive : 0 < node_size) (placed : Placed node_size base size i) (top : i.addr < modulus)
    (holds : Holds node_size i p) : Placed node_size base size (dealloc node_size i p) ∧
      ∀ q, Holds node_size (dealloc node_size i p) q ↔ q ≠ p ∧ Holds node_size i q := by
  have inside := holds_inside placed holds
  obtain ⟨bit,below,set,rfl⟩ := holds
  have index := dealloc_bit_index (i := i) (b := bit) positive (by omega)
  obtain ⟨_,released⟩ := cl_bitmap_dealloc_bit_spec set
  have same : dealloc node_size i (data_area node_size i + bit * node_size) =
      { i with bitmap := (cl_bitmap_dealloc_bit i.bitmap bit).2, free_count := i.free_count + 1 } := by
    rw [dealloc,index]
  rw [same]
  refine ⟨⟨placed.first,?_,?_,?_⟩,fun q => ?_⟩
  · dsimp only
    rw [released.mask]
    exact placed.behind
  · dsimp only
    rw [released.mask]
    exact placed.fits
  · have one := clearBits_claimed (claimed_of_released released (Nat.succ_le_of_lt below)
      (fun j low high => by rw [show j = bit by omega]; exact set))
    have free := placed.free
    dsimp only
    omega
  · constructor
    · rintro ⟨b,other,still,rfl⟩
      dsimp only at other still ⊢
      rw [released.bits,Bool.and_eq_true,Bool.not_eq_true',decide_eq_false_iff_not] at still
      rw [released.mask] at other
      refine ⟨fun same => still.1 ?_,b,other,still.2,rfl⟩
      have blocks : b * node_size = bit * node_size := Nat.add_left_cancel same
      have bits := Nat.eq_of_mul_eq_mul_right positive blocks
      omega
    · rintro ⟨differ,b,other,still,rfl⟩
      refine ⟨b,by rw [released.mask]; exact other,?_,rfl⟩
      have elsewhere : ¬(bit ≤ b ∧ b < bit + 1) := by
        intro here
        rw [show b = bit by omega] at differ
        exact differ rfl
      rw [released.bits,decide_eq_false elsewhere,still]
      rfl

end

/-! ### The list of the instances -/

/-- The blocks of the two instances do not meet. -/
def Separate (a b : Nat × Nat) : Prop := a.2 ≤ b.1 ∨ b.2 ≤ a.1

instance : Std.Symm Separate where
  symm _ _ := Or.symm

/-- Where the blocks of an instance begin and end. -/
def area (node_size : Nat) (i : block_instance) : Nat × Nat := (data_area node_size i,i.addr)

/-- All instances are full, or the first one that is not hands out a block. -/
theorem allocate_spec (node_size : Nat) {l : List block_instance}
    (few : ∀ i ∈ l, i.bitmap.mask_count ≤ HAL_BITMAP_ALLOC_BIT_ERROR) :
    (allocate node_size l = (none,l.map rewound) ∧ ∀ i ∈ l, Full i) ∨
    ∃ before i after bit, l = before ++ i :: after ∧ bit < i.bitmap.mask_count ∧ test_bit bit i.bitmap.bitmap = false ∧
      allocate node_size l = (some (add (bit * node_size) (data_area node_size i)),
        before.map rewound ++ claimed i bit :: after) := by
  induction l with
  | nil => exact .inl ⟨rfl,by simp⟩
  | cons i rest ih =>
    rw [allocate]
    rcases cl_bitmap_alloc_bit_spec i.bitmap with ⟨bit,got,inside,clear,_⟩ | ⟨got,full⟩
    · have valid : bit ≠ HAL_BITMAP_ALLOC_BIT_ERROR := by
        have most := few i (by simp)
        omega
      rw [got]
      dsimp only
      rw [if_pos valid]
      exact .inr ⟨[],i,rest,bit,rfl,inside,clear,rfl⟩
    · rw [got]
      dsimp only
      rw [if_neg (not_not.mpr rfl)]
      rcases ih (fun j member => few j (by simp [member])) with ⟨none,others⟩ | ⟨before,j,after,bit,rfl,inside,clear,done⟩
      · rw [none]
        refine .inl ⟨rfl,?_⟩
        intro j member
        rcases List.mem_cons.mp member with rfl | later
        · exact full
        · exact others j later
      · rw [done]
        exact .inr ⟨i :: before,j,after,bit,rfl,inside,clear,rfl⟩

/-- The pointer is in no instance, or the first one that it is in takes it back. -/
theorem deallocate_spec (node_size p : Nat) (l : List block_instance) :
    (deallocate node_size p l = none ∧ ∀ i ∈ l, ¬InArea node_size i p) ∨
    ∃ before i after, l = before ++ i :: after ∧ InArea node_size i p ∧
      deallocate node_size p l = some (before ++ dealloc node_size i p :: after) := by
  induction l with
  | nil => exact .inl ⟨rfl,by simp⟩
  | cons i rest ih =>
    rw [deallocate]
    by_cases here : InArea node_size i p
    · rw [if_pos here]
      exact .inr ⟨[],i,rest,rfl,here,rfl⟩
    · rw [if_neg here]
      rcases ih with ⟨none,others⟩ | ⟨before,j,after,rfl,inside,done⟩
      · rw [none]
        refine .inl ⟨rfl,?_⟩
        intro j member
        rcases List.mem_cons.mp member with rfl | later
        · exact here
        · exact others j later
      · rw [done]
        exact .inr ⟨i :: before,j,after,rfl,inside,rfl⟩

/-! ### Runs -/

/-- The allocator, the memory it was given, and the objects that are handed out. -/
structure State where
  bkb : cl_bkb
  memory : List (Nat × Nat)
  live : List Nat

inductive Act
  | extend (fuel : Nat) (content : Nat → Words) (base size : Nat)
  | alloc
  | dealloc (p : Nat)

/-- One step; `none` when the fitting loop has not ended within the fuel. -/
def step (s : State) : Act → Option State
  | .extend fuel content base size => (cl_bkb_extend fuel content s.bkb base size).map (fun bkb =>
      { s with bkb, memory := (base,size) :: s.memory })
  | .alloc =>
    let r := cl_bkb_alloc s.bkb
    some { s with bkb := r.2, live := if r.1 = 0 then s.live else r.1 :: s.live }
  | .dealloc p =>
    let r := cl_bkb_dealloc s.bkb p
    some { s with bkb := r.2, live := if r.1 = 0 then s.live else s.live.erase p }

/-- Memory that is added lies in the address space, meets no other memory of the allocator and admits one node. -/
def Given (s : State) : Act → Prop
  | .extend _ _ base size => 0 < base ∧ base + size ≤ modulus ∧ need s.bkb.node_size 1 ≤ size ∧
      ∀ m ∈ s.memory, Separate (base,base + size) (m.1,m.1 + m.2)
  | _ => True

/-- The estimate for new memory does not wrap and its count is an `int`; a pointer that is given back is that of a live
    object or points at no block. -/
def Tame (s : State) : Act → Prop
  | .extend _ _ _ size => need s.bkb.node_size (size / s.bkb.node_size) < modulus ∧ size < need s.bkb.node_size 2147483648
  | .alloc => True
  | .dealloc p => p ∈ s.live ∨ ∀ i ∈ s.bkb.nexts ++ s.bkb.pres, ¬InArea s.bkb.node_size i p

inductive TameRun (node_size : Nat) : State → Prop
  | init : TameRun node_size ⟨cl_bkb_init node_size,[],[]⟩
  | act {s s' : State} {act : Act} (run : TameRun node_size s) (given : Given s act) (tame : Tame s act)
      (done : step s act = some s') : TameRun node_size s'

/-- Live objects are apart and inside the blocks of an instance, no block is handed out exactly when all instances are
    full, the counters agree with the bits, and a free refuses exactly a pointer that is not live, with no change, if and
    only if the free is one of those that the run may go on with. -/
structure Right (s : State) : Prop where
  inside : ∀ p ∈ s.live, ∃ i ∈ s.bkb.nexts ++ s.bkb.pres, data_area s.bkb.node_size i ≤ p ∧ p + s.bkb.node_size ≤ i.addr
  apart : s.live.Pairwise (Apart s.bkb.node_size)
  alloc_null : (cl_bkb_alloc s.bkb).1 = 0 ↔ ∀ i ∈ s.bkb.nexts ++ s.bkb.pres, Full i
  free_count : ∀ i ∈ s.bkb.nexts ++ s.bkb.pres, i.free_count = (clearBits i.bitmap).card
  dealloc_null : ∀ p, (((cl_bkb_dealloc s.bkb p).1 = 0 ↔ p ∉ s.live) ∧
    (p ∉ s.live → (cl_bkb_dealloc s.bkb p).2 = s.bkb)) ↔ Tame s (.dealloc p)

/-! ### The invariant -/

structure Inv (node_size : Nat) (s : State) : Prop where
  node : s.bkb.node_size = node_size
  pres : s.bkb.pres = []
  memory : ∀ m ∈ s.memory, 0 < m.1 ∧ m.1 + m.2 ≤ modulus
  placed : ∀ i ∈ s.bkb.nexts, ∃ m ∈ s.memory, Placed node_size m.1 m.2 i
  areas : (s.bkb.nexts.map (area node_size)).Pairwise Separate
  live : ∀ p, p ∈ s.live ↔ ∃ i ∈ s.bkb.nexts, Holds node_size i p
  apart : s.live.Pairwise (Apart node_size)

section
variable {node_size : Nat} {s s' : State}

/-- Where an instance of a reached state lies. -/
theorem Inv.within (inv : Inv node_size s) {i : block_instance} (member : i ∈ s.bkb.nexts) : ∃ base size,
    Placed node_size base size i ∧ (base,size) ∈ s.memory ∧ 0 < base ∧ i.addr + sizeof_instance ≤ base + size ∧
      base + size ≤ modulus := by
  obtain ⟨⟨base,size⟩,given,placed⟩ := inv.placed i member
  obtain ⟨positive,top⟩ := inv.memory _ given
  refine ⟨base,size,placed,given,positive,?_,top⟩
  have fits := placed.fits
  have behind := placed.behind
  unfold need at fits
  omega

theorem Inv.few (inv : Inv node_size s) (positive : 0 < node_size) {i : block_instance} (member : i ∈ s.bkb.nexts) :
    i.bitmap.mask_count ≤ HAL_BITMAP_ALLOC_BIT_ERROR := by
  obtain ⟨base,size,placed,_,low,inside,top⟩ := inv.within member
  have blocks := Nat.le_mul_of_pos_right i.bitmap.mask_count positive
  have behind := placed.behind
  unfold HAL_BITMAP_ALLOC_BIT_ERROR sizeof_instance modulus at *
  omega

/-- Something that one of the instances is: the one in the middle, or another one. -/
theorem exists_middle {P : block_instance → Prop} {before after : List block_instance} {i : block_instance} :
    (∃ j ∈ before ++ i :: after, P j) ↔ (∃ j ∈ before ++ after, P j) ∨ P i := by
  simp only [List.mem_append,List.mem_cons]
  constructor
  · rintro ⟨j,early | rfl | late,here⟩
    · exact .inl ⟨j,.inl early,here⟩
    · exact .inr here
    · exact .inl ⟨j,.inr late,here⟩
  · rintro (⟨j,early | late,here⟩ | here)
    · exact ⟨j,.inl early,here⟩
    · exact ⟨j,.inr (.inr late),here⟩
    · exact ⟨i,.inr (.inl rfl),here⟩

theorem mem_middle {before after : List block_instance} {j : block_instance} (i : block_instance) (other : j ∈ before ++ after) :
    j ∈ before ++ i :: after := by
  rw [List.mem_append] at other ⊢
  exact other.imp_right (List.mem_cons_of_mem i)

theorem separate_others {before after : List block_instance} {i j : block_instance}
    (areas : ((before ++ i :: after).map (area node_size)).Pairwise Separate) (other : j ∈ before ++ after) :
    Separate (area node_size i) (area node_size j) := by
  rw [List.map_append,List.map_cons] at areas
  obtain ⟨_,behind,across⟩ := List.pairwise_append.mp areas
  rcases List.mem_append.mp other with early | late
  · exact Or.symm (across _ (List.mem_map_of_mem early) _ (List.mem_cons_self ..))
  · exact (List.pairwise_cons.mp behind).1 _ (List.mem_map_of_mem late)

theorem insert_nexts (bkb : cl_bkb) (buf : block_instance) : (insert_instance bkb buf).nexts.Perm (buf :: bkb.nexts) := by
  unfold insert_instance
  cases nexts : bkb.nexts with
  | nil => exact List.Perm.refl _
  | cons prefer rest => exact List.Perm.swap ..

/-- An instance in new memory, all of whose blocks are free. -/
theorem new_placed (content : Nat → Words) {base size count : Nat} (fits : need node_size count ≤ size)
    (top : base + size ≤ modulus) (int : count < 2147483648) :
    Placed node_size base size (new_instance node_size content base size count) ∧
      ∀ p, ¬Holds node_size (new_instance node_size content base size count) p := by
  have clear : ∀ b < count, test_bit b (new_instance node_size content base size count).bitmap.bitmap = false :=
    fun b inside => cl_bitmap_init_clear _ _ inside
  have blocks : count * node_size + sizeof_instance ≤ size := by unfold need at fits; omega
  have address : add base (count * node_size) = base + count * node_size :=
    add_exact (by unfold sizeof_instance at blocks; omega)
  have counted : signed count = count := signed_exact (by omega) (by omega)
  constructor
  · constructor
    · have bytes : unsigned ((count : Int) * node_size) = count * node_size := by
        rw [← Nat.cast_mul]
        unfold unsigned sizeof_instance modulus at *
        omega
      unfold data_area new_instance
      dsimp only
      rw [address,counted,bytes,sub_exact (Nat.le_add_left ..) (by unfold sizeof_instance at blocks; omega),
        Nat.add_sub_cancel]
    · exact address
    · exact fits
    · have all : clearBits (new_instance node_size content base size count).bitmap = Finset.range count :=
        Finset.filter_true_of_mem (fun b inside => clear b (Finset.mem_range.mp inside))
      rw [all,Finset.card_range]
      exact counted
  · rintro p ⟨b,inside,set,_⟩
    rw [clear b inside] at set
    cases set

/-- Memory that the allocator can use: it is in the address space, apart from what the allocator has, the manager fits,
    and the estimate neither wraps nor passes an `int`. -/
structure Usable (node_size : Nat) (s : State) (base size : Nat) : Prop where
  low : 0 < base
  top : base + size ≤ modulus
  apart : ∀ m ∈ s.memory, Separate (base,base + size) (m.1,m.1 + m.2)
  room : sizeof_instance ≤ size
  whole : need node_size (size / node_size) < modulus
  int : size < need node_size 2147483648

/-- The instance that is made of usable memory. -/
theorem extend_outcome {fuel : Nat} {content : Nat → Words} {base size : Nat} {bkb : cl_bkb} (positive : 0 < node_size)
    (inv : Inv node_size s) (usable : Usable node_size s base size)
    (done : cl_bkb_extend fuel content s.bkb base size = some bkb) :
    ∃ count, bkb = insert_instance s.bkb (new_instance node_size content base size count) ∧ need node_size count ≤ size ∧
      count < 2147483648 ∧ (1 ≤ count ↔ need node_size 1 ≤ size) := by
  obtain ⟨count,fitted,rfl⟩ := Option.map_eq_some_iff.mp done
  rw [inv.node] at fitted ⊢
  have word : size < modulus := by
    have low := usable.low
    have top := usable.top
    omega
  obtain ⟨fits,most⟩ := fit_rounds_fits usable.room (lt_of_le_of_lt (Nat.div_le_self ..) word) usable.whole fitted
  have int := usable.int
  refine ⟨count,rfl,fits,?_,fun some_ => (need_mono node_size some_).trans fits,fun one => most 1 (le_estimate positive one) one⟩
  by_contra many
  have more := need_mono node_size (not_lt.mp many)
  omega

theorem extended_inv {fuel : Nat} {content : Nat → Words} {base size : Nat} {bkb : cl_bkb} (positive : 0 < node_size)
    (inv : Inv node_size s) (usable : Usable node_size s base size)
    (done : cl_bkb_extend fuel content s.bkb base size = some bkb) :
    Inv node_size { s with bkb, memory := (base,size) :: s.memory } := by
  obtain ⟨count,rfl,fits,few,_⟩ := extend_outcome positive inv usable done
  obtain ⟨placed,empty⟩ := new_placed content fits usable.top few
  generalize new_instance node_size content base size count = buf at *
  have perm := insert_nexts s.bkb buf
  constructor
  · unfold insert_instance
    split <;> exact inv.node
  · unfold insert_instance
    split <;> exact inv.pres
  · intro m member
    rcases List.mem_cons.mp member with rfl | old
    · exact ⟨usable.low,usable.top⟩
    · exact inv.memory m old
  · intro i member
    rcases List.mem_cons.mp (perm.mem_iff.mp member) with rfl | old
    · exact ⟨_,List.mem_cons_self ..,placed⟩
    · obtain ⟨m,there,others⟩ := inv.placed i old
      exact ⟨m,List.mem_cons_of_mem _ there,others⟩
  · refine ((perm.map (area node_size)).pairwise_iff (fun separate => Or.symm separate)).mpr ?_
    rw [List.map_cons,List.pairwise_cons]
    refine ⟨fun a member => ?_,inv.areas⟩
    obtain ⟨i,old,rfl⟩ := List.mem_map.mp member
    obtain ⟨base',size',placed',there,_,inside,_⟩ := inv.within old
    have separate := usable.apart _ there
    have first := placed.first
    have behind := placed.behind
    have first' := placed'.first
    have fits := placed.fits
    unfold need at fits
    unfold Separate area at *
    dsimp only at *
    omega
  · intro p
    rw [inv.live]
    constructor
    · rintro ⟨i,member,holds⟩
      exact ⟨i,perm.mem_iff.mpr (List.mem_cons_of_mem _ member),holds⟩
    · rintro ⟨i,member,holds⟩
      rcases List.mem_cons.mp (perm.mem_iff.mp member) with rfl | old
      · exact absurd holds (empty p)
      · exact ⟨i,old,holds⟩
  · exact inv.apart

theorem extend_inv {fuel : Nat} {content : Nat → Words} {base size : Nat} (positive : 0 < node_size) (inv : Inv node_size s)
    (given : Given s (.extend fuel content base size)) (tame : Tame s (.extend fuel content base size))
    (done : step s (.extend fuel content base size) = some s') : Inv node_size s' := by
  obtain ⟨low,top,one,apart⟩ := given
  obtain ⟨whole,int⟩ := tame
  rw [inv.node] at whole int one
  obtain ⟨bkb,extended,rfl⟩ := Option.map_eq_some_iff.mp done
  have room : sizeof_instance ≤ size := by unfold need at one; omega
  exact extended_inv positive inv ⟨low,top,apart,room,whole,int⟩ extended

/-- `cl_bkb_alloc` in a reached state: the null pointer when all instances are full, else a block of the first one that is
    not. -/
theorem alloc_outcome (positive : 0 < node_size) (inv : Inv node_size s) :
    (cl_bkb_alloc s.bkb = (0,{ s.bkb with nexts := s.bkb.nexts.map rewound }) ∧ ∀ i ∈ s.bkb.nexts, Full i) ∨
    ∃ before i after bit, s.bkb.nexts = before ++ i :: after ∧ bit < i.bitmap.mask_count ∧
      test_bit bit i.bitmap.bitmap = false ∧ 0 < data_area node_size i + bit * node_size ∧
      cl_bkb_alloc s.bkb = (data_area node_size i + bit * node_size,
        { s.bkb with nexts := before.map rewound ++ claimed i bit :: after }) := by
  unfold cl_bkb_alloc
  rcases allocate_spec s.bkb.node_size (fun i member => inv.few positive member) with
    ⟨none,full⟩ | ⟨before,i,after,bit,split,inside,clear,done⟩
  · rw [none,inv.pres]
    refine .inl ⟨?_,full⟩
    simp only [allocate,← inv.pres]
  · have member : i ∈ s.bkb.nexts := by simp [split]
    obtain ⟨base,size,placed,_,low,room,top⟩ := inv.within member
    have blocks := Nat.mul_le_mul_right node_size (Nat.le_of_lt inside)
    have first := placed.first
    have behind := placed.behind
    rw [done,inv.node,add_exact (by unfold sizeof_instance at room; omega),Nat.add_comm (bit * node_size)]
    refine .inr ⟨before,i,after,bit,split,inside,clear,by omega,?_⟩
    simp only [← inv.node]

/-- Instances whose hints have moved to the start. -/
theorem Inv.rewind (inv : Inv node_size s) {before rest : List block_instance} (split : s.bkb.nexts = before ++ rest) :
    Inv node_size { s with bkb := { s.bkb with nexts := before.map rewound ++ rest } } where
  node := inv.node
  pres := inv.pres
  memory := inv.memory
  placed := by
    intro i member
    rcases List.mem_append.mp member with moved | old
    · obtain ⟨j,old,rfl⟩ := List.mem_map.mp moved
      obtain ⟨m,there,placed⟩ := inv.placed j (by simp [split,old])
      exact ⟨m,there,placed.first,placed.behind,placed.fits,placed.free⟩
    · exact inv.placed i (by simp [split,old])
  areas := by
    have areas := inv.areas
    rw [split,List.map_append] at areas
    rw [List.map_append,List.map_map]
    exact areas
  live := by
    intro p
    rw [inv.live,split]
    constructor
    · rintro ⟨i,member,holds⟩
      rcases List.mem_append.mp member with early | late
      · exact ⟨rewound i,List.mem_append_left _ (List.mem_map_of_mem early),holds⟩
      · exact ⟨i,List.mem_append_right _ late,holds⟩
    · rintro ⟨i,member,holds⟩
      rcases List.mem_append.mp member with moved | late
      · obtain ⟨j,early,rfl⟩ := List.mem_map.mp moved
        exact ⟨j,List.mem_append_left _ early,holds⟩
      · exact ⟨i,List.mem_append_right _ late,holds⟩
  apart := inv.apart

/-- One instance changes; its blocks stay where they are. -/
theorem Inv.change (inv : Inv node_size s) {before after : List block_instance} {i : block_instance} (i' : block_instance)
    {live : List Nat} (split : s.bkb.nexts = before ++ i :: after)
    (placed : ∀ base size, Placed node_size base size i → Placed node_size base size i')
    (place : area node_size i' = area node_size i)
    (holds : ∀ p, p ∈ live ↔ (∃ j ∈ before ++ after, Holds node_size j p) ∨ Holds node_size i' p)
    (apart : live.Pairwise (Apart node_size)) :
    Inv node_size { s with bkb := { s.bkb with nexts := before ++ i' :: after }, live } where
  node := inv.node
  pres := inv.pres
  memory := inv.memory
  placed := by
    intro j member
    rcases List.mem_append.mp member with early | late
    · exact inv.placed j (by simp [split,early])
    · rcases List.mem_cons.mp late with rfl | late
      · obtain ⟨m,there,old⟩ := inv.placed i (by simp [split])
        exact ⟨m,there,placed _ _ old⟩
      · exact inv.placed j (by simp [split,late])
  areas := by
    have areas := inv.areas
    rw [split,List.map_append,List.map_cons] at areas
    rw [List.map_append,List.map_cons,place]
    exact areas
  live := by
    intro p
    rw [holds p]
    exact exists_middle.symm
  apart := apart

/-- The live objects, by the instance in the middle of the list and the others. -/
theorem Inv.live_split (inv : Inv node_size s) {before after : List block_instance} {i : block_instance}
    (split : s.bkb.nexts = before ++ i :: after) (p : Nat) :
    p ∈ s.live ↔ (∃ j ∈ before ++ after, Holds node_size j p) ∨ Holds node_size i p := by
  rw [inv.live,split,exists_middle]

/-- Two objects of one instance are apart. -/
theorem apart_same {i : block_instance} {p q : Nat} (holds : Holds node_size i p) (holds' : Holds node_size i q)
    (differ : p ≠ q) : Apart node_size p q := by
  obtain ⟨b,_,_,rfl⟩ := holds
  obtain ⟨c,_,_,rfl⟩ := holds'
  rcases Nat.lt_trichotomy b c with less | rfl | more
  · have blocks := Nat.mul_le_mul_right node_size (Nat.succ_le_of_lt less)
    rw [Nat.succ_mul] at blocks
    exact .inl (by omega)
  · exact absurd rfl differ
  · have blocks := Nat.mul_le_mul_right node_size (Nat.succ_le_of_lt more)
    rw [Nat.succ_mul] at blocks
    exact .inr (by omega)

/-- Objects of two instances whose blocks do not meet are apart. -/
theorem apart_other {i j : block_instance} {p q base size base' size' : Nat} (placed : Placed node_size base size i)
    (placed' : Placed node_size base' size' j) (holds : Holds node_size i p) (holds' : Holds node_size j q)
    (separate : Separate (area node_size i) (area node_size j)) : Apart node_size p q := by
  have inside := holds_inside placed holds
  have inside' := holds_inside placed' holds'
  unfold Separate area Apart at *
  dsimp only at separate
  omega

theorem alloc_inv (positive : 0 < node_size) (inv : Inv node_size s) (done : step s .alloc = some s') :
    Inv node_size s' := by
  rw [← Option.some.inj done]
  rcases alloc_outcome positive inv with ⟨got,_⟩ | ⟨before,i,after,bit,split,inside,clear,some_block,got⟩
  · have rewound := inv.rewind (List.append_nil _).symm
    rw [List.append_nil] at rewound
    rw [got]
    exact rewound
  · have moved := inv.rewind split
    obtain ⟨base,size,placed,_⟩ := inv.within (i := i) (by simp [split])
    have claim := placed_claimed placed inside clear
    have fresh : Holds node_size (claimed i bit) (data_area node_size i + bit * node_size) :=
      (holds_claimed inside).mpr (.inl rfl)
    have unused : ¬Holds node_size i (data_area node_size i + bit * node_size) := by
      rintro ⟨b,_,set,same⟩
      have blocks : bit * node_size = b * node_size := Nat.add_left_cancel same
      rw [← Nat.eq_of_mul_eq_mul_right positive blocks,clear] at set
      cases set
    rw [got]
    dsimp only
    rw [if_neg (by omega)]
    refine moved.change (claimed i bit) rfl (fun _ _ old => placed_claimed old inside clear) rfl ?_ ?_
    · intro p
      rw [List.mem_cons,moved.live_split rfl,holds_claimed inside]
      exact or_left_comm
    · refine List.pairwise_cons.mpr ⟨fun q member => ?_,inv.apart⟩
      rcases (moved.live_split rfl q).mp member with ⟨j,other,held⟩ | held
      · obtain ⟨base',size',placed',_⟩ := moved.within (mem_middle i other)
        have separate := separate_others (i := i) moved.areas other
        exact apart_other claim placed' fresh held separate
      · refine apart_same fresh ((holds_claimed inside).mpr (.inr held)) ?_
        rintro rfl
        exact unused held

/-- A free in a reached state, of a live object or of a pointer that points at no block. -/
theorem dealloc_outcome (positive : 0 < node_size) (inv : Inv node_size s) {p : Nat} (tame : Tame s (.dealloc p)) :
    (p ∉ s.live ∧ cl_bkb_dealloc s.bkb p = (0,s.bkb)) ∨
    ∃ before i after, s.bkb.nexts = before ++ i :: after ∧ p ∈ s.live ∧ p ≠ 0 ∧ Holds node_size i p ∧
      cl_bkb_dealloc s.bkb p = (p,{ s.bkb with nexts := before ++ dealloc node_size i p :: after }) := by
  have held_in {i : block_instance} (member : i ∈ s.bkb.nexts) (held : Holds node_size i p) : InArea node_size i p := by
    obtain ⟨base,size,placed,_⟩ := inv.within member
    exact holds_in_area positive placed held
  have node := inv.node
  subst node
  rcases deallocate_spec s.bkb.node_size p s.bkb.nexts with ⟨none,outside⟩ | ⟨before,i,after,split,here,done⟩
  · have dead : p ∉ s.live := by
      intro live
      obtain ⟨i,member,held⟩ := (inv.live p).mp live
      exact outside i member (held_in member held)
    refine .inl ⟨dead,?_⟩
    rw [cl_bkb_dealloc,none,inv.pres]
    rfl
  · have member : i ∈ s.bkb.nexts := by simp [split]
    have live : p ∈ s.live := by
      rcases tame with live | outside
      · exact live
      · exact absurd here (outside i (List.mem_append_left _ member))
    have held : Holds s.bkb.node_size i p := by
      rcases (inv.live_split split p).mp live with ⟨j,other,held⟩ | held
      · have areas := inv.areas
        rw [split] at areas
        have separate := separate_others areas other
        have there := held_in (split ▸ mem_middle i other) held
        unfold Separate area InArea at *
        dsimp only at separate
        omega
      · exact held
    obtain ⟨base,size,placed,_,low,_⟩ := inv.within member
    have inside := holds_inside placed held
    have first := placed.first
    refine .inr ⟨before,i,after,split,live,by omega,held,?_⟩
    rw [cl_bkb_dealloc,done]

/-- A pointer into a block is taken back, live or not. -/
theorem taken_back (inv : Inv node_size s) {p : Nat} {i : block_instance} (member : i ∈ s.bkb.nexts)
    (here : InArea s.bkb.node_size i p) : (cl_bkb_dealloc s.bkb p).1 = p ∧ p ≠ 0 := by
  have node := inv.node
  subst node
  obtain ⟨base,size,placed,_,low,_⟩ := inv.within member
  have first := placed.first
  have start := here.1
  refine ⟨?_,by omega⟩
  rcases deallocate_spec s.bkb.node_size p s.bkb.nexts with ⟨_,outside⟩ | ⟨before,j,after,_,_,done⟩
  · exact absurd here (outside i member)
  · rw [cl_bkb_dealloc,done]

theorem tame_of_refused (inv : Inv node_size s) {p : Nat} (refused : (cl_bkb_dealloc s.bkb p).1 = 0 ↔ p ∉ s.live) :
    Tame s (.dealloc p) := by
  by_cases outside : ∀ i ∈ s.bkb.nexts ++ s.bkb.pres, ¬InArea s.bkb.node_size i p
  · exact .inr outside
  · obtain ⟨i,member,here⟩ : ∃ i ∈ s.bkb.nexts ++ s.bkb.pres, InArea s.bkb.node_size i p := by
      by_contra nowhere
      exact outside (fun i member here => nowhere ⟨i,member,here⟩)
    rw [inv.pres,List.append_nil] at member
    obtain ⟨got,some_block⟩ := taken_back inv member here
    refine .inl (not_not.mp (fun dead => some_block ?_))
    rw [← got]
    exact refused.mpr dead

theorem dealloc_inv (positive : 0 < node_size) (inv : Inv node_size s) {p : Nat} (tame : Tame s (.dealloc p))
    (done : step s (.dealloc p) = some s') : Inv node_size s' := by
  rw [← Option.some.inj done]
  rcases dealloc_outcome positive inv tame with ⟨_,got⟩ | ⟨before,i,after,split,live,some_block,held,got⟩
  · rw [got]
    exact inv
  · have top : i.addr < modulus := by
      obtain ⟨base,size,placed,_,_,room,top⟩ := inv.within (i := i) (by simp [split])
      unfold sizeof_instance at room
      omega
    have distinct : s.live.Nodup := by
      refine inv.apart.imp ?_
      intro a b apart same
      unfold Apart at apart
      omega
    rw [got]
    dsimp only
    rw [if_neg some_block]
    refine inv.change (dealloc node_size i p) split (fun _ _ old => (freed positive old top held).1) rfl ?_
      (inv.apart.sublist List.erase_sublist)
    intro q
    obtain ⟨base,size,placed,_⟩ := inv.within (i := i) (by simp [split])
    rw [distinct.mem_erase_iff,inv.live_split split,(freed positive placed top held).2]
    constructor
    · rintro ⟨differ,others | here⟩
      · exact .inl others
      · exact .inr ⟨differ,here⟩
    · rintro (⟨j,other,there⟩ | ⟨differ,here⟩)
      · refine ⟨?_,.inl ⟨j,other,there⟩⟩
        rintro rfl
        have areas := inv.areas
        rw [split] at areas
        obtain ⟨base',size',placed',_⟩ := inv.within (split ▸ mem_middle i other)
        have separate := separate_others areas other
        have apart := apart_other placed placed' held there separate
        unfold Apart at apart
        omega
      · exact ⟨differ,.inr here⟩

theorem run_inv (positive : 0 < node_size) (run : TameRun node_size s) : Inv node_size s := by
  induction run with
  | init => exact ⟨rfl,rfl,by simp,by simp [cl_bkb_init],List.Pairwise.nil,by simp [cl_bkb_init],List.Pairwise.nil⟩
  | act run given tame done inv =>
    rename_i act
    cases act with
    | extend fuel content base size => exact extend_inv positive inv given tame done
    | alloc => exact alloc_inv positive inv done
    | dealloc p => exact dealloc_inv positive inv tame done

/-- In every run in which the estimates do not wrap and no pointer into a block is given back that is not that of a live
    object, the allocator is right in every state. -/
theorem run_right (positive : 0 < node_size) (run : TameRun node_size s) : Right s := by
  have inv := run_inv positive run
  have node := inv.node
  subst node
  constructor
  · intro p live
    obtain ⟨i,member,held⟩ := (inv.live p).mp live
    obtain ⟨base,size,placed,_⟩ := inv.within member
    exact ⟨i,List.mem_append_left _ member,holds_inside placed held⟩
  · exact inv.apart
  · rw [inv.pres,List.append_nil]
    rcases alloc_outcome positive inv with ⟨got,full⟩ | ⟨before,i,after,bit,split,inside,clear,some_block,got⟩
    · rw [got]
      exact iff_of_true rfl full
    · rw [got]
      refine iff_of_false (by dsimp only; omega) (fun full => ?_)
      rw [full i (by simp [split]) bit inside] at clear
      cases clear
  · intro i member
    rw [inv.pres,List.append_nil] at member
    obtain ⟨base,size,placed,_⟩ := inv.within member
    exact placed.free
  · intro p
    constructor
    · rintro ⟨refused,_⟩
      exact tame_of_refused inv refused
    · intro tame
      rcases dealloc_outcome positive inv tame with ⟨dead,got⟩ | ⟨before,i,after,split,live,some_block,held,got⟩
      · rw [got]
        exact ⟨iff_of_true rfl dead,fun _ => rfl⟩
      · rw [got]
        exact ⟨iff_of_false some_block (not_not.mpr live),fun dead => absurd live dead⟩

/-- A page for blocks of 64 bytes, one of which is handed out. -/
theorem one_block_run : ∃ s, TameRun 64 s ∧ s.live = [4096] ∧
    ∀ s', step s (.dealloc 4096) = some s' → s'.live = [] ∧ (cl_bkb_dealloc s'.bkb 4096).1 = 4096 := by
  have empty : TameRun 64 ⟨cl_bkb_init 64,[],[]⟩ := .init
  have extended := @TameRun.act 64 _ _ (.extend 2 (fun _ _ => 0) 4096 4096) empty
    ⟨by decide,by decide,by decide,by simp⟩ ⟨by decide,by decide⟩ rfl
  have handed := @TameRun.act 64 _ _ .alloc extended trivial trivial rfl
  refine ⟨_,handed,by decide +kernel,?_⟩
  intro s' done
  rw [← Option.some.inj done]
  exact ⟨by decide +kernel,by decide +kernel⟩

/-- Two blocks are handed out, and the first one is given back. -/
theorem run_right_one : ∃ s, TameRun 64 s ∧ s.live = [4160] ∧ Right s := by
  have empty : TameRun 64 ⟨cl_bkb_init 64,[],[]⟩ := .init
  have extended := @TameRun.act 64 _ _ (.extend 2 (fun _ _ => 0) 4096 4096) empty
    ⟨by decide,by decide,by decide,by simp⟩ ⟨by decide,by decide⟩ rfl
  have first := @TameRun.act 64 _ _ .alloc extended trivial trivial rfl
  have second := @TameRun.act 64 _ _ .alloc first trivial trivial rfl
  have freed := @TameRun.act 64 _ _ (.dealloc 4096) second trivial (.inl (by decide +kernel)) rfl
  exact ⟨_,freed,by decide +kernel,run_right (by decide) freed⟩

/-- A block that is given back a second time is not live, and is taken back again. -/
theorem block_freed_twice : ∃ s, TameRun 64 s ∧ 4096 ∉ s.live ∧ (cl_bkb_dealloc s.bkb 4096).1 ≠ 0 := by
  obtain ⟨s,run,live,freed⟩ := one_block_run
  have tame : Tame s (.dealloc 4096) := .inl (by rw [live]; exact List.mem_singleton.mpr rfl)
  obtain ⟨dead,again⟩ := freed _ rfl
  refine ⟨_,@TameRun.act 64 _ _ (.dealloc 4096) run trivial tame rfl,?_,?_⟩
  · rw [dead]
    exact List.not_mem_nil
  · rw [again]
    decide

end

end GridOS.Blkbuf
