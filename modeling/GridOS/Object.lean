import GridOS.BlkbufRuns
import GridOS.ListHead

/-!
Objects of a type, `source/libs/common/object/object.c`. An object is a `struct cl_object` with the memory for its user
behind it, in a block of the type's allocator; the objects of a type are in a list. The user's pointer and the internal
one differ by the header.
-/
namespace GridOS.Object
open GridOS.Words GridOS.Bits GridOS.Bitmap GridOS.Intervals GridOS.Blkbuf GridOS.ListHead

/-- `sizeof(struct cl_object)`: `name`, `type`, `ref` and `list`. -/
def sizeof_cl_object : Nat := 20
/-- Where `type` and `list` are in a `struct cl_object`. -/
def TYPE : Nat := 4
def LIST : Nat := 12

/-- `sizeof(struct cl_object_type)`, and where `unname_objects` is in it. -/
def sizeof_cl_object_type : Nat := 68
def UNNAME_OBJECTS : Nat := 56

/-- A `struct cl_object_type` at the address `addr`. -/
structure cl_object_type where
  addr : Nat
  size : Nat
  obj_allocator : cl_bkb

/-- What the functions of the type do at a creation: the memory that `add_space` hands out, and whether `init` is there,
    whether it succeeds and what it leaves in the memory of the user. -/
structure Outcome where
  add_space : Option (Nat × Nat)
  init : Option (Bool × (Nat → Nat))

/-- `TO_CL_OBJECT`. -/
def TO_CL_OBJECT (object : Nat) : Nat := sub object sizeof_cl_object

section Code
variable (stray : Nat → Nat → Mem → Mem)

/-- `stray` is what a free does to the memory when the word in place of `type` is not the address of a type. -/
def cl_object_delete (type_ : cl_object_type) (object : Nat) (m : Mem) : cl_object_type × Mem :=
  let p := TO_CL_OBJECT object
  let named := m (add p TYPE)
  let m := list_del (add p LIST) m
  if named = type_.addr then ({ type_ with obj_allocator := (cl_bkb_dealloc type_.obj_allocator p).2 },m)
  else (type_,stray named p m)

/-- The code up to the null check: the address of a block, from new memory if need be; `none` when the extension has
    not ended within the fuel. -/
def new_object (fuel : Nat) (content : Nat → Words) (add_space : Option (Nat × Nat)) (bkb : cl_bkb) : Option (Nat × cl_bkb) :=
  let object := cl_bkb_alloc bkb
  if object.1 ≠ 0 then some object else
  match add_space with
  | none => some (0,object.2)
  | some (base,size) => (cl_bkb_extend fuel content object.2 base size).map cl_bkb_alloc

/-- `memset`. -/
def clear_object (object size : Nat) (m : Mem) : Mem :=
  fun a => if object ≤ a ∧ a < object + (size + sizeof_cl_object) then 0 else m a

/-- The object is filled in and put into the list. -/
def enter_object (type_ : cl_object_type) (object : Nat) (m : Mem) : Mem :=
  let m := clear_object object type_.size m
  let m := write (object + TYPE) type_.addr m
  list_add_tail (object + LIST) (type_.addr + UNNAME_OBJECTS) m

/-- The memory behind `init`, which writes to the user's part of the object. -/
def run_init (object size : Nat) (written : Nat → Nat) (m : Mem) : Mem :=
  fun a => if object + sizeof_cl_object ≤ a ∧ a < object + sizeof_cl_object + size then written a else m a

/-- What is returned, the type and the memory. -/
def cl_object_create (fuel : Nat) (content : Nat → Words) (outcome : Outcome) (type_ : cl_object_type) (m : Mem) :
    Option (Nat × cl_object_type × Mem) :=
  (new_object fuel content outcome.add_space type_.obj_allocator).map (fun r =>
    let object := r.1
    let type_ := { type_ with obj_allocator := r.2 }
    if object = 0 then (0,type_,m) else
    let m := enter_object type_ object m
    match outcome.init with
    | none => (object + sizeof_cl_object,type_,m)
    | some (true,written) => (object + sizeof_cl_object,type_,run_init object type_.size written m)
    -- the pointer that is handed over is not the user's
    | some (false,written) => (0,cl_object_delete stray type_ object (run_init object type_.size written m)))

end Code

/-! ### What a creation owes -/

/-- The free blocks of an allocator, and all its blocks. -/
def free_slots (bkb : cl_bkb) : Nat := ((bkb.nexts ++ bkb.pres).map (fun i => (clearBits i.bitmap).card)).sum
def slots (bkb : cl_bkb) : Nat := ((bkb.nexts ++ bkb.pres).map (fun i => i.bitmap.mask_count)).sum

/-- The list of the type has the live objects, each of which names its type. -/
structure Listed (type_ : cl_object_type) (live : List Nat) (m : Mem) (links : List Nat) : Prop where
  ring : Ring m (type_.addr + UNNAME_OBJECTS) links
  objects : links.Perm (live.map (· + LIST))
  typed : ∀ q ∈ live, m (q + TYPE) = type_.addr

/-- With the null pointer the list has the objects that it had, and no block has been used up; with an object that object
    is in the list once more, and its block is handed out. -/
def Settled (type_ : cl_object_type) (links : List Nat) (r : Nat × cl_object_type × Mem) : Prop :=
  if r.1 = 0 then (∃ links', links'.Perm links ∧ Ring r.2.2 (type_.addr + UNNAME_OBJECTS) links') ∧
    free_slots r.2.1.obj_allocator + slots type_.obj_allocator = free_slots type_.obj_allocator + slots r.2.1.obj_allocator
  else ∃ p, r.1 = p + sizeof_cl_object ∧ p + LIST ∉ links ∧
    Ring r.2.2 (type_.addr + UNNAME_OBJECTS) (links ++ [p + LIST]) ∧
    ∃ i ∈ r.2.1.obj_allocator.nexts ++ r.2.1.obj_allocator.pres, Holds r.2.1.obj_allocator.node_size i p

/-- There is a block for the object: one is free, or the new memory has room for one. -/
def Served (s : Blkbuf.State) (outcome : Outcome) : Prop :=
  (∃ i ∈ s.bkb.nexts ++ s.bkb.pres, ¬Full i) ∨
    ∃ base size, outcome.add_space = some (base,size) ∧ need s.bkb.node_size 1 ≤ size

/-! ### Counting the blocks -/

section Slots
variable {node_size : Nat} {s : Blkbuf.State}

theorem full_iff {i : block_instance} : Full i ↔ clearBits i.bitmap = ∅ := by
  rw [clearBits,Finset.filter_eq_empty_iff]
  simp only [Finset.mem_range,Bool.not_eq_false]
  rfl

theorem new_instance_clear (node_size : Nat) (content : Nat → Words) (base size count : Nat) :
    (clearBits (new_instance node_size content base size count).bitmap).card = count := by
  have all : clearBits (new_instance node_size content base size count).bitmap = Finset.range count :=
    Finset.filter_true_of_mem (fun b inside => cl_bitmap_init_clear _ _ (Finset.mem_range.mp inside))
  rw [all,Finset.card_range]

/-- An allocation in a reached state: which blocks are left. -/
theorem alloc_slots (positive : 0 < node_size) (inv : Inv node_size s) :
    slots (cl_bkb_alloc s.bkb).2 = slots s.bkb ∧
    (((cl_bkb_alloc s.bkb).1 = 0 ∧ (∀ i ∈ s.bkb.nexts, Full i) ∧ (∀ i ∈ (cl_bkb_alloc s.bkb).2.nexts, Full i) ∧
        free_slots (cl_bkb_alloc s.bkb).2 = free_slots s.bkb) ∨
      ((cl_bkb_alloc s.bkb).1 ≠ 0 ∧ (∃ i ∈ s.bkb.nexts, ¬Full i) ∧
        free_slots (cl_bkb_alloc s.bkb).2 + 1 = free_slots s.bkb)) := by
  unfold free_slots slots
  rcases alloc_outcome positive inv with ⟨got,full⟩ | ⟨before,i,after,bit,split,inside,clear,some_block,got⟩
  · have still (j : block_instance) (member : j ∈ s.bkb.nexts.map rewound) : Full j := by
      obtain ⟨i,old,rfl⟩ := List.mem_map.mp member
      exact full i old
    rw [got]
    simp only [List.map_append,List.map_map]
    exact ⟨rfl,.inl ⟨trivial,full,still,rfl⟩⟩
  · have one : (clearBits (claimed i bit).bitmap).card + 1 = (clearBits i.bitmap).card :=
      clearBits_claimed (claimed_one (bit + 1) inside clear)
    rw [got,split]
    simp only [List.map_append,List.map_map,List.map_cons,List.sum_append,List.sum_cons]
    refine ⟨rfl,.inr ⟨by omega,⟨i,by simp,fun full => ?_⟩,?_⟩⟩
    · rw [full bit inside] at clear
      cases clear
    · have same : (before.map ((fun i => (clearBits i.bitmap).card) ∘ rewound)).sum =
        (before.map (fun i => (clearBits i.bitmap).card)).sum := rfl
      omega

/-- New memory adds its blocks, all of them free. -/
theorem extend_slots (node_size : Nat) (bkb : cl_bkb) (content : Nat → Words) (base size count : Nat) :
    slots (insert_instance bkb (new_instance node_size content base size count)) = slots bkb + count ∧
    free_slots (insert_instance bkb (new_instance node_size content base size count)) = free_slots bkb + count := by
  have clear := new_instance_clear node_size content base size count
  have mask : (new_instance node_size content base size count).bitmap.mask_count = count := rfl
  generalize new_instance node_size content base size count = buf at *
  have pres : (insert_instance bkb buf).pres = bkb.pres := by unfold insert_instance; split <;> rfl
  have perm : ((insert_instance bkb buf).nexts ++ (insert_instance bkb buf).pres).Perm (buf :: (bkb.nexts ++ bkb.pres)) := by
    rw [pres]
    exact (insert_nexts bkb buf).append_right bkb.pres
  unfold slots free_slots
  constructor
  · rw [(perm.map _).sum_eq,List.map_cons,List.sum_cons,mask,Nat.add_comm]
  · rw [(perm.map _).sum_eq,List.map_cons,List.sum_cons,clear,Nat.add_comm]

/-- The state behind an allocation. -/
theorem alloc_state (positive : 0 < node_size) (inv : Inv node_size s) : Inv node_size { s with
    bkb := (cl_bkb_alloc s.bkb).2
    live := if (cl_bkb_alloc s.bkb).1 = 0 then s.live else (cl_bkb_alloc s.bkb).1 :: s.live } :=
  alloc_inv positive inv rfl

/-- The second search, when none of the old blocks is free: it finds one exactly when the new memory has room for one. -/
theorem second_alloc_spec (positive : 0 < node_size) (inv : Inv node_size s) {fuel base size : Nat} {content : Nat → Words}
    {bkb : cl_bkb} (use : Usable node_size s base size) (none_free : ∀ i ∈ s.bkb.nexts, Full i)
    (extended : cl_bkb_extend fuel content s.bkb base size = some bkb) :
    ((cl_bkb_alloc bkb).1 = 0 ∧ ¬need node_size 1 ≤ size ∧
      free_slots (cl_bkb_alloc bkb).2 + slots s.bkb = free_slots s.bkb + slots (cl_bkb_alloc bkb).2) ∨
    ((cl_bkb_alloc bkb).1 ≠ 0 ∧ need node_size 1 ≤ size ∧
      free_slots (cl_bkb_alloc bkb).2 + 1 + slots s.bkb = free_slots s.bkb + slots (cl_bkb_alloc bkb).2 ∧
      Inv node_size ⟨(cl_bkb_alloc bkb).2,(base,size) :: s.memory,(cl_bkb_alloc bkb).1 :: s.live⟩) := by
  have inv' := extended_inv positive inv use extended
  obtain ⟨count,rfl,fits,few,room⟩ := extend_outcome positive inv use extended
  obtain ⟨more,more_free⟩ := extend_slots node_size s.bkb content base size count
  have perm := insert_nexts s.bkb (new_instance node_size content base size count)
  have open_iff : ¬Full (new_instance node_size content base size count) ↔ 1 ≤ count := by
    rw [full_iff,← Finset.card_eq_zero,new_instance_clear]
    omega
  have state := alloc_state positive inv'
  rw [← room]
  obtain ⟨all,⟨none_there,full,_,same⟩ | ⟨some_there,⟨i,member,open_⟩,one⟩⟩ := alloc_slots positive inv'
  · have no_block : ¬1 ≤ count := by
      rw [← open_iff,not_not]
      exact full _ (perm.mem_iff.mpr (List.mem_cons_self ..))
    exact .inl ⟨none_there,no_block,by dsimp only at *; omega⟩
  · have some_block : 1 ≤ count := by
      rcases List.mem_cons.mp (perm.mem_iff.mp member) with rfl | old
      · exact open_iff.mp open_
      · exact absurd (none_free i old) open_
    rw [if_neg some_there] at state
    exact .inr ⟨some_there,some_block,by dsimp only at *; omega,state⟩

/-- A block for an object is had if and only if one is there or comes with the new memory; without one no block is used
    up, and with one exactly one is. -/
theorem new_object_spec (positive : 0 < node_size) (inv : Inv node_size s) {fuel : Nat} (content : Nat → Words) (outcome : Outcome)
    (usable : ∀ base size, outcome.add_space = some (base,size) → Usable node_size s base size) {p : Nat} {bkb : cl_bkb}
    (done : new_object fuel content outcome.add_space s.bkb = some (p,bkb)) :
    (p = 0 ∧ ¬Served s outcome ∧ free_slots bkb + slots s.bkb = free_slots s.bkb + slots bkb) ∨
    (p ≠ 0 ∧ Served s outcome ∧ free_slots bkb + 1 + slots s.bkb = free_slots s.bkb + slots bkb ∧
      ∃ memory, Inv node_size ⟨bkb,memory,p :: s.live⟩ ∧ ∀ m ∈ memory, m ∈ s.memory ∨ outcome.add_space = some m) := by
  have state := alloc_state positive inv
  unfold Served
  rw [inv.pres,List.append_nil,inv.node]
  obtain ⟨all,⟨none_free,full,still,same⟩ | ⟨some_free,found,one⟩⟩ := alloc_slots positive inv
  · unfold new_object at done
    dsimp only at done
    rw [if_neg (not_not.mpr none_free)] at done
    rw [if_pos none_free] at state
    have none_there : ¬∃ i ∈ s.bkb.nexts, ¬Full i := fun ⟨i,member,open_⟩ => open_ (full i member)
    rw [or_iff_right none_there]
    cases space : outcome.add_space with
    | none =>
      rw [space] at done
      cases done
      exact .inl ⟨rfl,by simp,by omega⟩
    | some memory =>
      obtain ⟨base,size⟩ := memory
      rw [space] at done
      obtain ⟨bkb',extended,again⟩ := Option.map_eq_some_iff.mp done
      obtain ⟨rfl,rfl⟩ := Prod.ext_iff.mp again
      have use := usable base size space
      have use' : Usable node_size { s with bkb := (cl_bkb_alloc s.bkb).2, live := s.live } base size :=
        ⟨use.low,use.top,use.apart,use.room,use.whole,use.int⟩
      have wanted : (∃ base' size', some (base,size) = some (base',size') ∧ need node_size 1 ≤ size') ↔
          need node_size 1 ≤ size := by
        constructor
        · rintro ⟨base',size',same,one⟩
          cases same
          exact one
        · exact fun one => ⟨base,size,rfl,one⟩
      rw [wanted]
      rcases second_alloc_spec positive state use' still extended with ⟨none_got,small,kept⟩ | ⟨got,room,less,inv'⟩
      · exact .inl ⟨none_got,small,by dsimp only at *; omega⟩
      · refine .inr ⟨got,room,by dsimp only at *; omega,(base,size) :: s.memory,inv',?_⟩
        intro m member
        exact (List.mem_cons.mp member).symm.imp id (fun here => by rw [here])
  · unfold new_object at done
    dsimp only at done
    rw [if_pos some_free] at done
    rw [if_neg some_free] at state
    obtain ⟨rfl,rfl⟩ := Prod.ext_iff.mp (Option.some.inj done)
    exact .inr ⟨some_free,.inl found,by omega,s.memory,state,fun m member => .inl member⟩

/-- On usable memory the extension ends, and with it the search for a block. -/
theorem new_object_ends (positive : 0 < node_size) (inv : Inv node_size s) (content : Nat → Words) (outcome : Outcome)
    (usable : ∀ base size, outcome.add_space = some (base,size) → Usable node_size s base size) :
    ∃ fuel r, new_object fuel content outcome.add_space s.bkb = some r := by
  by_cases found : (cl_bkb_alloc s.bkb).1 ≠ 0
  · exact ⟨0,_,if_pos found⟩
  · cases space : outcome.add_space with
    | none => exact ⟨0,_,if_neg found⟩
    | some memory =>
      obtain ⟨base,size⟩ := memory
      have use := usable base size space
      have word : size / node_size < modulus := by
        have low := use.low
        have top := use.top
        have less := Nat.div_le_self size node_size
        omega
      obtain ⟨best,done,_⟩ := fit_rounds_largest use.room word use.whole
      have node : (cl_bkb_alloc s.bkb).2.node_size = node_size := (alloc_state positive inv).node
      refine ⟨size / node_size + 1,?_⟩
      unfold new_object
      dsimp only
      rw [if_neg found,cl_bkb_extend,node,done]
      exact ⟨_,rfl⟩

end Slots

/-! ### The memory of the objects -/

/-- The block of `count` bytes at `p` is apart from what describes the type. -/
def Aside (type_ : cl_object_type) (p count : Nat) : Prop := Separate (type_.addr,type_.addr + sizeof_cl_object_type) (p,p + count)

/-- A block for an object: in the address space, apart from the type and from the objects that are there. -/
structure Fresh (type_ : cl_object_type) (live : List Nat) (p : Nat) : Prop where
  low : 0 < p
  top : p + (type_.size + sizeof_cl_object) + sizeof_instance ≤ modulus
  aside : Aside type_ p (type_.size + sizeof_cl_object)
  apart : ∀ q ∈ live, Apart (type_.size + sizeof_cl_object) p q

section Memory
variable {type_ : cl_object_type} {live links : List Nat} {m : Mem} {p : Nat}

theorem enter_object_allocator (bkb : cl_bkb) :
    enter_object { type_ with obj_allocator := bkb } p m = enter_object type_ p m := rfl

/-- The links of the list are outside of a block that is aside of the type and apart from the objects. -/
theorem Listed.spaced (listed : Listed type_ live m links) (aside : Aside type_ p (type_.size + sizeof_cl_object))
    (apart : ∀ q ∈ live, Apart (type_.size + sizeof_cl_object) p q) :
    ∀ a ∈ (type_.addr + UNNAME_OBJECTS) :: links, a + 8 ≤ p ∨ p + (type_.size + sizeof_cl_object) ≤ a := by
  intro a member
  rcases List.mem_cons.mp member with rfl | other
  · unfold Aside Separate sizeof_cl_object_type UNNAME_OBJECTS at *
    dsimp only at aside
    omega
  · obtain ⟨q,live,rfl⟩ := List.mem_map.mp (listed.objects.mem_iff.mp other)
    have near := apart q live
    unfold Apart sizeof_cl_object LIST at *
    omega

/-- The list with the link of such a block, in any memory that has the list. -/
theorem Listed.add (listed : Listed type_ live m links) (aside : Aside type_ p (type_.size + sizeof_cl_object))
    (apart : ∀ q ∈ live, Apart (type_.size + sizeof_cl_object) p q) {m' : Mem}
    (ring : Ring m' (type_.addr + UNNAME_OBJECTS) links) :
    Ring (list_add_tail (p + LIST) (type_.addr + UNNAME_OBJECTS) m') (type_.addr + UNNAME_OBJECTS) (links ++ [p + LIST]) := by
  have before : Ring m' (type_.addr + UNNAME_OBJECTS) (links ++ []) := by rwa [List.append_nil]
  refine before.list_add_tail (fun a member => ?_)
  rw [List.append_nil] at member
  have outside := listed.spaced aside apart a member
  unfold Spaced LIST sizeof_cl_object at *
  omega

/-- The list with the new object, which was in it nowhere. -/
theorem Listed.enter (listed : Listed type_ live m links) (fresh : Fresh type_ live p) :
    Ring (enter_object type_ p m) (type_.addr + UNNAME_OBJECTS) (links ++ [p + LIST]) ∧ p + LIST ∉ links := by
  have spaced := listed.spaced fresh.aside fresh.apart
  constructor
  · refine listed.add fresh.aside fresh.apart (listed.ring.congr (fun a member => ?_))
    have outside := spaced a member
    simp only [write_apply,clear_object,TYPE] at *
    unfold sizeof_cl_object at *
    constructor
    · rw [if_neg (by omega),if_neg (by omega)]
    · rw [if_neg (by omega),if_neg (by omega)]
  · intro member
    have outside := spaced _ (List.mem_cons_of_mem _ member)
    unfold LIST sizeof_cl_object at outside
    omega

/-- What `init` writes touches no link. -/
theorem Listed.init (listed : Listed type_ live m links) (fresh : Fresh type_ live p) (written : Nat → Nat) {m' : Mem}
    (ring : Ring m' (type_.addr + UNNAME_OBJECTS) (links ++ [p + LIST])) :
    Ring (run_init p type_.size written m') (type_.addr + UNNAME_OBJECTS) (links ++ [p + LIST]) := by
  refine ring.congr (fun a member => ?_)
  have outside : a + 8 ≤ p + sizeof_cl_object ∨ p + (type_.size + sizeof_cl_object) ≤ a := by
    rw [← List.cons_append] at member
    rcases List.mem_append.mp member with old | new
    · have outside := listed.spaced fresh.aside fresh.apart a old
      omega
    · rw [List.mem_singleton.mp new]
      unfold LIST sizeof_cl_object
      omega
  unfold run_init
  constructor
  · rw [if_neg (by omega)]
  · rw [if_neg (by omega)]

/-- The only words of memory that name the type are in its objects. -/
def NamedOnly (type_ : cl_object_type) (live : List Nat) (m : Mem) : Prop :=
  ∀ a, m a = type_.addr → ∃ q ∈ live, a = q + TYPE

/-- What `cl_object_delete` takes for the type of an object when it is given the internal pointer. -/
theorem named_live (fresh : Fresh type_ live p) (only : NamedOnly type_ live m) (live_top : ∀ q ∈ live, q + TYPE < modulus)
    (written : Nat → Nat)
    (named : run_init p type_.size written (enter_object type_ p m) (add (TO_CL_OBJECT p) TYPE) = type_.addr) :
    TO_CL_OBJECT p ∈ live := by
  have low := fresh.low
  have top := fresh.top
  have aside := fresh.aside
  have place : add (TO_CL_OBJECT p) TYPE < p ∨ p + (type_.size + sizeof_cl_object) ≤ add (TO_CL_OBJECT p) TYPE := by
    unfold add TO_CL_OBJECT sub TYPE sizeof_cl_object sizeof_instance modulus at *
    omega
  have word : m (add (TO_CL_OBJECT p) TYPE) = type_.addr := by
    have other : p + LIST ≠ type_.addr := by
      unfold Aside Separate LIST sizeof_cl_object sizeof_cl_object_type at *
      dsimp only at aside
      omega
    rw [run_init,if_neg (by omega),enter_object,list_add_tail_apply] at named
    split at named
    · exact absurd named other
    · rw [if_neg (by unfold LIST sizeof_cl_object at *; omega),if_neg (by unfold LIST sizeof_cl_object at *; omega)] at named
      split at named
      · exact absurd named other
      · rw [write_apply,if_neg (by unfold TYPE sizeof_cl_object at *; omega),clear_object,if_neg (by omega)] at named
        exact named
  obtain ⟨q,member,same⟩ := only _ word
  have below := live_top q member
  have here : TO_CL_OBJECT p = q := by
    unfold add TO_CL_OBJECT sub TYPE sizeof_cl_object modulus at *
    omega
  rwa [here]

/-- Memory with the objects in the list and nothing else. -/
def listed_memory (type_ : cl_object_type) : List Nat → Mem
  | [] => INIT_LIST_HEAD (type_.addr + UNNAME_OBJECTS) (fun _ => 0)
  | q :: rest => write (q + TYPE) type_.addr
      (list_add_tail (q + LIST) (type_.addr + UNNAME_OBJECTS) (listed_memory type_ rest))

section Added
variable {q : Nat} {rest : List Nat}
  (listed : Listed type_ rest (listed_memory type_ rest) ((rest.map (· + LIST)).reverse))
  (aside : ∀ r ∈ q :: rest, Aside type_ r (type_.size + sizeof_cl_object))
  (others : ∀ r ∈ rest, Apart (type_.size + sizeof_cl_object) q r)

include listed in
/-- The entry behind which the next one is put. -/
theorem listed_memory_last : prev (listed_memory type_ rest) (type_.addr + UNNAME_OBJECTS) ∈
    (type_.addr + UNNAME_OBJECTS) :: (rest.map (· + LIST)).reverse :=
  (listed.ring.circle.next_prev (List.mem_cons_self ..)).2

include listed aside others in
theorem listed_memory_ring :
    Ring (listed_memory type_ (q :: rest)) (type_.addr + UNNAME_OBJECTS) (((q :: rest).map (· + LIST)).reverse) := by
  have here := aside q (List.mem_cons_self ..)
  have spaced := listed.spaced here others
  rw [List.map_cons,List.reverse_cons]
  refine (listed.add here others listed.ring).congr (fun a member => ?_)
  have other : a ≠ q + TYPE ∧ a + 4 ≠ q + TYPE := by
    rw [← List.cons_append] at member
    rcases List.mem_append.mp member with old | new
    · have outside := spaced a old
      unfold TYPE sizeof_cl_object at *
      omega
    · rw [List.mem_singleton.mp new]
      unfold LIST TYPE
      omega
  rw [listed_memory,write_apply,write_apply,if_neg other.1,if_neg other.2]
  exact ⟨rfl,rfl⟩

include listed aside others in
/-- The new entry leaves the types of the others. -/
theorem listed_memory_typed (apart : rest.Pairwise (Apart (type_.size + sizeof_cl_object))) :
    ∀ r ∈ q :: rest, listed_memory type_ (q :: rest) (r + TYPE) = type_.addr := by
  intro r member
  rw [listed_memory,write_apply]
  split
  · rfl
  · next other =>
    have old : r ∈ rest := (List.mem_cons.mp member).resolve_left (fun same => other (by rw [same]))
    have near := others r old
    have place := aside r member
    have far : ∀ b ∈ (type_.addr + UNNAME_OBJECTS) :: (rest.map (· + LIST)).reverse,
        r + TYPE ≠ b ∧ r + TYPE ≠ b + 4 := by
      intro b link
      rcases List.mem_cons.mp link with rfl | link
      · unfold Aside Separate TYPE UNNAME_OBJECTS sizeof_cl_object sizeof_cl_object_type at *
        dsimp only at place
        omega
      · obtain ⟨r',old',rfl⟩ := List.mem_map.mp (List.mem_reverse.mp link)
        by_cases same : r = r'
        · unfold TYPE LIST
          omega
        · have near := apart.forall old old' same
          unfold Apart TYPE LIST sizeof_cl_object at *
          omega
    rw [list_add_tail_apply,if_neg (far _ (listed_memory_last listed)).1,
      if_neg (by unfold Apart TYPE LIST sizeof_cl_object at *; omega),
      if_neg (by unfold Apart TYPE LIST sizeof_cl_object at *; omega),if_neg (far _ (List.mem_cons_self ..)).2]
    exact listed.typed r old

include listed aside in
/-- No link is where the type is, so that only the new word for it names the type. -/
theorem listed_memory_named (only : NamedOnly type_ rest (listed_memory type_ rest)) :
    NamedOnly type_ (q :: rest) (listed_memory type_ (q :: rest)) := by
  have here := aside q (List.mem_cons_self ..)
  have differ : ∀ a ∈ (type_.addr + UNNAME_OBJECTS) :: (rest.map (· + LIST)).reverse, a ≠ type_.addr := by
    intro a member
    rcases List.mem_cons.mp member with rfl | other
    · unfold UNNAME_OBJECTS
      omega
    · obtain ⟨r,live,rfl⟩ := List.mem_map.mp (List.mem_reverse.mp other)
      have place := aside r (List.mem_cons_of_mem q live)
      unfold Aside Separate LIST sizeof_cl_object sizeof_cl_object_type at *
      dsimp only at place
      omega
  have other : q + LIST ≠ type_.addr := by
    unfold Aside Separate LIST sizeof_cl_object sizeof_cl_object_type at *
    dsimp only at here
    omega
  intro a named
  rw [listed_memory,write_apply] at named
  split at named
  · next at_type => exact ⟨q,List.mem_cons_self ..,at_type⟩
  · rw [list_add_tail_apply] at named
    split at named
    · exact absurd named other
    split at named
    · exact absurd named (differ _ (listed_memory_last listed))
    split at named
    · exact absurd named (differ _ (List.mem_cons_self ..))
    split at named
    · exact absurd named other
    · obtain ⟨r,member,same⟩ := only a named
      exact ⟨r,List.mem_cons_of_mem q member,same⟩

end Added

/-- Any objects that are apart and aside of the type can be all that is in memory. -/
theorem listed_memory_listed (some_ : 0 < type_.addr) (aside : ∀ q ∈ live, Aside type_ q (type_.size + sizeof_cl_object))
    (apart : live.Pairwise (Apart (type_.size + sizeof_cl_object))) :
    Listed type_ live (listed_memory type_ live) ((live.map (· + LIST)).reverse) ∧
      NamedOnly type_ live (listed_memory type_ live) := by
  induction live with
  | nil =>
    refine ⟨⟨?_,List.Perm.refl _,by simp⟩,?_⟩
    · refine ⟨?_,List.pairwise_singleton ..⟩
      simp [Circle.Circled,listed_memory,INIT_LIST_HEAD,next,prev,write_apply]
    · intro a named
      simp only [listed_memory,INIT_LIST_HEAD,write_apply,UNNAME_OBJECTS] at named
      split at named
      · omega
      · split at named <;> omega
  | cons q rest ih =>
    obtain ⟨others,apart⟩ := List.pairwise_cons.mp apart
    obtain ⟨listed,only⟩ := ih (fun r member => aside r (List.mem_cons_of_mem q member)) apart
    exact ⟨⟨listed_memory_ring listed aside others,List.reverse_perm _,listed_memory_typed listed aside others apart⟩,
      listed_memory_named listed aside only⟩

/-- The clean-up behind an `init` that fails frees nothing of the allocator, or takes another object out of the list. -/
theorem delete_unsettled (stray : Nat → Nat → Mem → Mem) (listed : Listed type_ live m links) (fresh : Fresh type_ live p)
    (only : NamedOnly type_ live m) (live_top : ∀ q ∈ live, q + LIST < modulus) (written : Nat → Nat) {bkb : cl_bkb}
    (used : free_slots bkb + 1 + slots type_.obj_allocator = free_slots type_.obj_allocator + slots bkb) :
    ¬Settled type_ links (0,cl_object_delete stray { type_ with obj_allocator := bkb } p
      (run_init p type_.size written (enter_object { type_ with obj_allocator := bkb } p m))) := by
  obtain ⟨entered,absent⟩ := listed.enter fresh
  have ring := listed.init fresh written entered
  rintro settled
  unfold Settled at settled
  rw [if_pos rfl] at settled
  obtain ⟨⟨links',same,after⟩,kept⟩ := settled
  rw [enter_object_allocator] at after kept
  unfold cl_object_delete at after kept
  dsimp only at after kept
  by_cases named : run_init p type_.size written (enter_object type_ p m) (add (TO_CL_OBJECT p) TYPE) = type_.addr
  · -- the block before it is an object, and it is that object that leaves the list
    have other := named_live fresh only (fun q member => by have := live_top q member; unfold LIST TYPE at *; omega) written named
    have field : add (TO_CL_OBJECT p) LIST = TO_CL_OBJECT p + LIST := add_exact (live_top _ other)
    obtain ⟨l,r,split⟩ := List.append_of_mem (listed.objects.mem_iff.mpr (List.mem_map_of_mem (f := (· + LIST)) other))
    have left : Ring (list_del (TO_CL_OBJECT p + LIST) (run_init p type_.size written (enter_object type_ p m)))
        (type_.addr + UNNAME_OBJECTS) (l ++ (r ++ [p + LIST])) := by
      refine Ring.list_del ?_
      rw [split,List.append_assoc] at ring
      exact ring
    rw [if_pos named,field] at after
    have lists := left.unique after
    refine absent (same.mem_iff.mp ?_)
    rw [← lists]
    simp
  · rw [if_neg named] at kept
    dsimp only at kept
    omega

end Memory

/-! ### Creations -/

section Creations
variable {s : Blkbuf.State} {type_ : cl_object_type}

/-- A state of the allocator with the type that it belongs to: all memory of the allocator is aside of the type. -/
structure Belongs (s : Blkbuf.State) (type_ : cl_object_type) : Prop where
  run : TameRun (type_.size + sizeof_cl_object) s
  allocator : type_.obj_allocator = s.bkb
  some_ : 0 < type_.addr
  aside : ∀ b ∈ s.memory, Aside type_ b.1 b.2

/-- What the creation owes whatever is in memory beside the list, whatever a free that goes astray does. -/
def Owed (content : Nat → Words) (outcome : Outcome) (s : Blkbuf.State) (type_ : cl_object_type) : Prop :=
  ∀ stray m links, Listed type_ s.live m links → ∃ fuel r,
    cl_object_create stray fuel content outcome type_ m = some r ∧ Settled type_ links r

/-- A live object is in the address space with the manager of its memory behind it, and aside of the type. -/
theorem live_placed {node_size : Nat} (inv : Blkbuf.Inv node_size s) {q : Nat} (live : q ∈ s.live) :
    0 < q ∧ q + node_size + sizeof_instance ≤ modulus ∧ ∃ b ∈ s.memory, b.1 ≤ q ∧ q + node_size ≤ b.1 + b.2 := by
  obtain ⟨i,member,held⟩ := (inv.live q).mp live
  obtain ⟨base,size,placed,there,low,room,top⟩ := inv.within member
  have inside := holds_inside placed held
  have first := placed.first
  exact ⟨by omega,by omega,_,there,by dsimp only; omega,by dsimp only; omega⟩

theorem Aside.within {p count : Nat} {b : Nat × Nat} (aside : Aside type_ b.1 b.2) (low : b.1 ≤ p)
    (high : p + count ≤ b.1 + b.2) : Aside type_ p count := by
  unfold Aside Separate at *
  dsimp only at *
  omega

/-- The block that a creation gets. -/
theorem fresh_of_inv {bkb : cl_bkb} {memory : List (Nat × Nat)} {p : Nat} (aside : ∀ b ∈ memory, Aside type_ b.1 b.2)
    (inv : Blkbuf.Inv (type_.size + sizeof_cl_object) ⟨bkb,memory,p :: s.live⟩) : Fresh type_ s.live p := by
  obtain ⟨low,top,b,there,above,below⟩ := live_placed inv (List.mem_cons_self ..)
  exact ⟨low,top,(aside b there).within above below,(List.pairwise_cons.mp inv.apart).1⟩

section Owes
variable {outcome : Outcome} (belongs : Belongs s type_) (usable : ∀ base size, outcome.add_space = some (base,size) →
  Usable (type_.size + sizeof_cl_object) s base size ∧ Aside type_ base size)
include belongs usable

theorem aside_all {memory : List (Nat × Nat)} (from_ : ∀ b ∈ memory, b ∈ s.memory ∨ outcome.add_space = some b) :
    ∀ b ∈ memory, Aside type_ b.1 b.2 := by
  intro b member
  rcases from_ b member with old | new
  · exact belongs.aside b old
  · exact (usable b.1 b.2 new).2

/-- A failing `init` is not undone. -/
theorem not_owed (content : Nat → Words) (served : Served s outcome) {written : Nat → Nat}
    (fails : outcome.init = some (false,written)) : ¬Owed content outcome s type_ := by
  have positive : 0 < type_.size + sizeof_cl_object := by unfold sizeof_cl_object; omega
  have inv := run_inv positive belongs.run
  intro owed
  have asides : ∀ q ∈ s.live, Aside type_ q (type_.size + sizeof_cl_object) := by
    intro q live
    obtain ⟨_,_,b,there,above,below⟩ := live_placed inv live
    exact (belongs.aside b there).within above below
  obtain ⟨listed,only⟩ := listed_memory_listed belongs.some_ asides inv.apart
  obtain ⟨fuel,r,created,settled⟩ := owed (fun _ _ m => m) _ _ listed
  obtain ⟨⟨p,bkb⟩,done,rfl⟩ := Option.map_eq_some_iff.mp created
  rcases new_object_spec positive inv content outcome (fun base size space => (usable base size space).1)
    (belongs.allocator ▸ done) with ⟨_,unserved,_⟩ | ⟨some_block,_,used,memory,inv',from_⟩
  · exact unserved served
  · rw [fails] at settled
    dsimp only at settled
    rw [if_neg some_block] at settled
    refine delete_unsettled _ listed (fresh_of_inv (aside_all belongs usable from_) inv') only ?_ written ?_ settled
    · intro q live
      obtain ⟨_,top,_⟩ := live_placed inv live
      unfold LIST sizeof_cl_object sizeof_instance at *
      omega
    · rw [belongs.allocator]
      exact used

theorem owed_of_succeeds (content : Nat → Words)
    (succeeds : Served s outcome → ∀ written, outcome.init ≠ some (false,written)) : Owed content outcome s type_ := by
  have positive : 0 < type_.size + sizeof_cl_object := by unfold sizeof_cl_object; omega
  have inv := run_inv positive belongs.run
  have use := fun base size space => (usable base size space).1
  intro stray m links listed
  obtain ⟨fuel,⟨p,bkb⟩,done⟩ := new_object_ends positive inv content outcome use
  rw [← belongs.allocator] at done
  refine ⟨fuel,_,by rw [cl_object_create,done,Option.map_some],?_⟩
  dsimp only
  rcases new_object_spec positive inv content outcome use (belongs.allocator ▸ done) with
    ⟨none_there,_,kept⟩ | ⟨some_block,served,_,memory,inv',from_⟩
  · rw [if_pos none_there]
    unfold Settled
    rw [if_pos rfl,belongs.allocator]
    exact ⟨⟨links,List.Perm.refl links,listed.ring⟩,kept⟩
  · have fresh := fresh_of_inv (aside_all belongs usable from_) inv'
    obtain ⟨entered,absent⟩ := listed.enter fresh
    obtain ⟨i,member,held⟩ := (inv'.live p).mp (List.mem_cons_self ..)
    have there : ∃ i ∈ bkb.nexts ++ bkb.pres, Holds bkb.node_size i p :=
      ⟨i,List.mem_append_left _ member,by rw [show bkb.node_size = _ from inv'.node]; exact held⟩
    have given : p + sizeof_cl_object ≠ 0 := by unfold sizeof_cl_object; omega
    rw [if_neg some_block]
    cases called : outcome.init with
    | none =>
      unfold Settled
      rw [if_neg given]
      exact ⟨p,rfl,absent,entered,there⟩
    | some result =>
      obtain ⟨ok,written⟩ := result
      cases ok with
      | true =>
        unfold Settled
        rw [if_neg given]
        exact ⟨p,rfl,absent,listed.init fresh written entered,there⟩
      | false => exact absurd called (succeeds served written)

end Owes

/-- A creation owes the list and the blocks exactly when its `init` does not fail, or there is no block to call it for. -/
theorem create_owed_iff (content : Nat → Words) (outcome : Outcome) (belongs : Belongs s type_)
    (usable : ∀ base size, outcome.add_space = some (base,size) →
      Usable (type_.size + sizeof_cl_object) s base size ∧ Aside type_ base size) :
    Owed content outcome s type_ ↔ (Served s outcome → ∀ written, outcome.init ≠ some (false,written)) :=
  ⟨fun owed served _ fails => not_owed belongs usable content served fails owed,owed_of_succeeds belongs usable content⟩

/-- A type of objects of 44 bytes that has no memory yet. -/
def bare_type : cl_object_type := ⟨65536,44,cl_bkb_init 64⟩

theorem bare_belongs : Belongs ⟨cl_bkb_init 64,[],[]⟩ bare_type := ⟨.init,rfl,by decide,by simp⟩

/-- A page for it. -/
theorem page_usable {init : Option (Bool × (Nat → Nat))} : ∀ base size, (Outcome.mk (some (4096,4096)) init).add_space = some (base,size) →
    Usable (bare_type.size + sizeof_cl_object) ⟨cl_bkb_init 64,[],[]⟩ base size ∧ Aside bare_type base size := by
  intro base size same
  cases same
  exact ⟨⟨by decide,by decide,by simp,by decide,by decide,by decide⟩,.inr (by decide)⟩

theorem create_owed_page : Owed (fun _ _ => 0) ⟨some (4096,4096),some (true,fun _ => 7)⟩ ⟨cl_bkb_init 64,[],[]⟩ bare_type := by
  refine (create_owed_iff _ _ bare_belongs page_usable).mpr (fun _ written failed => ?_)
  cases failed

/-- The first object of a type, whose `init` fails, stays in the list or keeps its block. -/
theorem create_unsettled : ¬Owed (fun _ _ => 0) ⟨some (4096,4096),some (false,fun _ => 7)⟩ ⟨cl_bkb_init 64,[],[]⟩ bare_type := by
  refine not_owed bare_belongs page_usable _ (.inr ⟨4096,4096,rfl,by decide⟩) rfl

end Creations

end GridOS.Object
