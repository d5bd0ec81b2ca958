import GridOS.MallocRequests
import GridOS.Object
import GridOS.Handle
import GridOS.Tree

/-!
Handles of files. `ke_handle_create` and the others take the pointer that `fss_open` of `source/subsystem/fs/main.c`
returns for one to the memory behind a `struct cl_object`, but a `struct fss_file` begins with its own and is at the start
of its block in the heap of `source/libs/common/malloc.c`. The reference counter that they change is a word of that heap,
which is given here with the words of its headers.
-/
namespace GridOS.FileHandle
open GridOS.Words GridOS.Malloc GridOS.Handle GridOS.Object

/-- Where `ref` is in a `struct cl_object`. -/
def REF : Nat := 8

/-- The address of the counter that `cl_object_inc_ref` and `cl_object_dec_ref` change. -/
def ref_word (object : Nat) : Nat := Words.add (TO_CL_OBJECT object) REF

/-- The `int` in a word, and the word that holds it. -/
def toInt (word : Nat) : Int := if word < 2147483648 then word else word - modulus
def ofInt (c : Int) : Nat := (c % modulus).toNat

/-- The heap, and the process whose handles they are. -/
structure State where
  heap : Heap
  current : ko_process

/-- The kernel as the handles see it: the counter of an object is a word of the heap. -/
def State.kernel (s : State) : Kernel := ⟨s.current,fun object => toInt (s.heap.mem (ref_word object))⟩

/-- The counter of the object is put back into the heap. -/
def State.put_back (s : State) (object : Nat) (k : Kernel) : State where
  heap := { s.heap with mem := Function.update s.heap.mem (ref_word object) (ofInt (k.counter object)) }
  current := k.current

inductive Call
  | create (malloc : Option Nat)
  | translate (handle : Nat)
  | put (handle : Nat)

/-- A call on the file; `none` when it does not return, or when the handle is that of another object. -/
def step (file : Nat) (s : State) : Call → Option State
  | .create malloc => (ke_handle_create s.kernel file malloc).map (fun r => s.put_back file r.2)
  | .translate handle => match ke_handle_translate s.kernel handle with
    | none => none
    | some (object,k) =>
      if object = file then some (s.put_back file k) else if object = 0 then some { s with current := k.current } else none
  | .put handle => some (s.put_back file (ke_handle_put s.kernel handle file))

/-- The calls one after the other. -/
def calls_on (file : Nat) (s : State) (calls : List Call) : Option State := calls.foldlM (step file) s

/-! ### Files -/

section Files
variable {ι : Type} [DecidableEq ι]

/-- `private` of each file, 0 while the driver has not opened it; `fOpen` answers for the driver. What is returned is the
    file, if there is one. -/
def fss_open (t : Tree.Files ι) (fOpen : Nat → List Char → Nat) (private_ : ι → Nat) (current_dir : ι) (name : List Char) :
    Except Tree.Fault (Option ι × (ι → Nat)) := do
  match ← Tree.fss_loop_file t current_dir name with
  | none => return (none,private_)
  | some f =>
    if private_ f ≠ 0 then return (some f,private_) else
    match (t.file f).parent with
    | none => .error .null_file
    | some parent =>
      let opened := fOpen (private_ parent) (t.file f).name
      return (if opened = 0 then none else some f,Function.update private_ f opened)

end Files

/-- The blocks of a new file and of its name, of `sizeof_fss_file` bytes and `len` bytes and one more; `none` when a search
    of the heap has not ended within the fuel. -/
def fss_file_new (fuel : Nat) (h : Heap) (sizeof_fss_file len : Nat) : Option (Nat × Heap) :=
  match memalloc fuel h sizeof_fss_file with
  | none => none
  | some (file,h) => match memalloc fuel h (len + 1) with
    | none => none
    | some (file_name,h) =>
      if file ≠ 0 ∧ file_name ≠ 0 then some (file,h) else
      let h := if file ≠ 0 then (memfree h file).2 else h
      some (0,if file_name ≠ 0 then (memfree h file_name).2 else h)

/-- The words of a header that an allocator relies on. -/
def guarded : List Field := [.size,.attribute,.p_magic,.n_magic]

/-- The counter of the file is inside its block, and the calls leave every header as it is. -/
structure Stays (file sizeof_fss_file : Nat) (s : State) (calls : List Call) : Prop where
  inside : file ≤ ref_word file ∧ ref_word file + 4 ≤ file + sizeof_fss_file
  headers : ∀ s', calls_on file s calls = some s' → ∀ nod, Node s.heap nod → ∀ field ∈ guarded,
    s'.heap.load nod field = s.heap.load nod field

/-! ### The word in front of a block -/

section Blocks
variable {big size : Nat} (top : big + size < modulus) (large : sizeofBlock + sizeofNode < size)
variable {whole : Bool} {h : Heap} {live : List (Nat × Nat)} {freed : List Nat} {p n : Nat}

include top large in
/-- The header in front of a block. -/
theorem live_node (run : RequestRun big size whole h live freed) (owned : (p,n) ∈ live) :
    sizeofNode < p ∧ p < modulus ∧ Node h (p - sizeofNode) ∧ is_free_node h (p - sizeofNode) = false := by
  obtain ⟨⟨cs,bins,inv⟩,_⟩ := request_run_invariant top large run
  obtain ⟨l,c,r,split,isLive,pointer,_,_⟩ := live_chunk inv owned
  have member : c ∈ cs := by simp [split]
  obtain ⟨low,high⟩ := tiles_bounds inv.shape.tiles c member
  have node := ((invariant_room large inv).node_iff c.addr).mpr (List.mem_map_of_mem member)
  have flag := inv.shape.flags c member
  rw [isLive] at flag
  have same : p - sizeofNode = c.addr := by omega
  have block : sizeofBlock = 64 := rfl
  have base := inv.base
  have extent := inv.extent
  unfold Chunk.stop at high
  rw [same]
  exact ⟨by omega,by omega,node,flag⟩

/-- The counter in front of a pointer is the word `attribute` of a header there. -/
theorem ref_word_eq (low : sizeofNode < p) (word : p < modulus) :
    ref_word p = p - sizeofNode + Field.attribute.offset := by
  have header : sizeofNode = 32 := rfl
  have object : sizeof_cl_object = 20 := rfl
  rw [ref_word,TO_CL_OBJECT,sub_exact (by omega) word,REF,add_exact (by unfold modulus at *; omega)]
  show p - 20 + 8 = p - sizeofNode + 20
  omega

end Blocks

/-- The pointer was handed out for `n` bytes, in a heap that a run of the allocator reaches. -/
def Made (big size n p : Nat) : Prop :=
  ∃ whole h live freed, RequestRun big size whole h live freed ∧ (p,n) ∈ live

/-- A new file is at the start of a block of its size. -/
theorem fss_file_new_made {big size : Nat} {whole : Bool} {h h' : Heap} {live : List (Nat × Nat)} {freed : List Nat}
    {fuel sizeof_fss_file len file : Nat} (run : RequestRun big size whole h live freed)
    (fits : sizeof_fss_file + sizeofNode + 3 < modulus) (short : len + 1 + sizeofNode + 3 < modulus)
    (done : fss_file_new fuel h sizeof_fss_file len = some (file,h')) (served : file ≠ 0) :
    Made big size sizeof_fss_file file := by
  rw [fss_file_new] at done
  split at done
  · cases done
  · rename_i first h₁ got
    split at done
    · cases done
    · rename_i second h₂ named
      split at done
      · rename_i both
        obtain ⟨rfl,rfl⟩ := Prod.mk.inj (Option.some.inj done)
        have header : 0 < sizeofNode := by decide
        have one := RequestRun.alloc run (by omega) (.inl fits) got
        rw [if_neg both.1] at one
        have two := RequestRun.alloc one (by omega) (.inl short) named
        rw [if_neg both.2] at two
        exact ⟨_,_,_,_,two,by simp⟩
      · obtain ⟨rfl,_⟩ := Prod.mk.inj (Option.some.inj done)
        exact absurd rfl served

/-! ### The calls -/

section Calls
variable {file : Nat} {s s' : State}

/-- A call changes no word of the heap but the counter. -/
theorem step_frame {call : Call} (done : step file s call = some s') {a : Nat} (elsewhere : a ≠ ref_word file) :
    s'.heap.mem a = s.heap.mem a := by
  have kept : ∀ k, (s.put_back file k).heap.mem a = s.heap.mem a := by
    intro k
    simp [State.put_back,elsewhere]
  cases call with
  | create malloc =>
    obtain ⟨r,_,rfl⟩ := Option.map_eq_some_iff.mp done
    exact kept r.2
  | translate handle =>
    simp only [step] at done
    split at done
    · cases done
    · split at done
      · cases done
        exact kept _
      · split at done
        · cases done
          rfl
        · cases done
  | put handle =>
    cases done
    exact kept _

theorem calls_frame {calls : List Call} (done : calls_on file s calls = some s') {a : Nat} (elsewhere : a ≠ ref_word file) :
    s'.heap.mem a = s.heap.mem a := by
  induction calls generalizing s with
  | nil =>
    cases done
    rfl
  | cons call rest ih =>
    obtain ⟨between,first,rest_done⟩ := Option.bind_eq_some_iff.mp (List.foldlM_cons.symm.trans done)
    exact (ih rest_done).trans (step_frame first elsewhere)

/-- One more reference makes an even word odd. -/
theorem inc_odd {word : Nat} (even : word % 2 = 0) : ofInt (atomic_inc (toInt word)) % 2 = 1 := by
  unfold ofInt atomic_inc toInt INT_MAX INT_MIN modulus
  split <;> split <;> omega

/-- A handle for the file marks its block as free. -/
theorem create_marks_free {malloc : Option Nat} {handle : Nat} {k : Kernel} {p : Nat}
    (at_header : ref_word file = p + Field.attribute.offset)
    (occupied : is_free_node s.heap p = false) (done : ke_handle_create s.kernel file malloc = some (handle,k))
    (served : handle ≠ KE_INVALID_HANDLE) : is_free_node (s.put_back file k).heap p = true := by
  have even : s.heap.mem (ref_word file) % 2 = 0 := by
    rw [at_header]
    simpa [is_free_node,Heap.load,FREE_NODE,Nat.and_one_is_mod] using occupied
  have counted : k.counter file = atomic_inc (toInt (s.heap.mem (ref_word file))) := by
    simp only [ke_handle_create] at done
    split at done
    · cases done
    · obtain ⟨rfl,_⟩ := Prod.mk.inj (Option.some.inj done)
      exact absurd rfl served
    · rename_i handle_table k₁ locked
      have same : k₁.counter = s.kernel.counter := by
        simp only [get_handle_table] at locked
        split at locked
        · cases locked
        · exact (congrArg Kernel.counter (Prod.mk.inj (Option.some.inj locked)).2).symm
      split at done
      · cases done
      · split at done
        · obtain ⟨rfl,_⟩ := Prod.mk.inj (Option.some.inj done)
          exact absurd rfl served
        · obtain ⟨_,rfl⟩ := Prod.mk.inj (Option.some.inj done)
          simp [put_handle_table,cl_object_inc_ref,set_handle_table,same,State.kernel]
  have odd := inc_odd even
  rw [← counted] at odd
  simp [is_free_node,Heap.load,FREE_NODE,Nat.and_one_is_mod,State.put_back,at_header,odd]

end Calls

/-- Wherever the file is, whatever has become of the heap and whatever is called: the counter of the file is never inside
    its block. It is the word `attribute` of the header in front of the block, and that is the only word that the calls
    change. -/
theorem never_stays {ι : Type} [DecidableEq ι] {big size : Nat} (top : big + size < modulus)
    (large : sizeofBlock + sizeofNode < size) {t : Tree.Files ι} {address : ι → Nat} {sizeof_fss_file : Nat}
    (made : ∀ f, Made big size sizeof_fss_file (address f)) {fOpen : Nat → List Char → Nat} {private_ private' : ι → Nat}
    {current_dir f : ι} {name : List Char} (_opened : fss_open t fOpen private_ current_dir name = .ok (some f,private'))
    (s : State) (calls : List Call) : ¬Stays (address f) sizeof_fss_file s calls ∧
      ∀ s', calls_on (address f) s calls = some s' →
        ∀ a, s'.heap.mem a ≠ s.heap.mem a → a = address f - sizeofNode + Field.attribute.offset := by
  obtain ⟨whole,h,live,freed,run,owned⟩ := made f
  obtain ⟨low,word,_,_⟩ := live_node top large run owned
  have at_header := ref_word_eq low word
  refine ⟨fun stays => ?_,fun s' done a changed => ?_⟩
  · have inside := stays.inside.1
    have header : Field.attribute.offset < sizeofNode := by decide
    omega
  · by_contra elsewhere
    exact changed (calls_frame done (at_header ▸ elsewhere))

/-- The first handle for a file that is alive marks its block as free. -/
theorem handle_marks_free {big size : Nat} (top : big + size < modulus) (large : sizeofBlock + sizeofNode < size)
    {whole : Bool} {h : Heap} {live : List (Nat × Nat)} {freed : List Nat} (run : RequestRun big size whole h live freed)
    {file n : Nat} (owned : (file,n) ∈ live) {current : ko_process} {malloc : Option Nat} {handle : Nat} {k : Kernel}
    (done : ke_handle_create (State.kernel ⟨h,current⟩) file malloc = some (handle,k)) (served : handle ≠ KE_INVALID_HANDLE) :
    is_free_node (State.put_back ⟨h,current⟩ file k).heap (file - sizeofNode) = true := by
  obtain ⟨low,word,_,occupied⟩ := live_node top large run owned
  exact create_marks_free (ref_word_eq low word) occupied done served

/-- A root directory, in the first block of a heap of 1024 bytes at 4096. -/
def root_only : Tree.Files Unit := ⟨fun _ => ⟨['r'],.FSS_FILE_TYPE_DIR,none,[]⟩,[(['0',':'],())]⟩

theorem root_opened : fss_open root_only (fun _ _ => 0) (fun _ => 1) () ['/'] = .ok (some (),fun _ => 1) := by
  have found : Tree.fss_loop_file root_only () ['/'] = .ok (some ()) := by
    rw [Tree.fss_loop_file_eq]
    simp [Tree.volumeLabel,Tree.labelled,Tree.separator,Tree.loop_file_l1,Tree.get_unix,Tree.fss_volumn_search,root_only]
  rw [fss_open,found]
  rfl

theorem root_made : Made 4096 1024 100 4192 := by
  obtain ⟨⟨p,h⟩,done,pointer⟩ := Option.map_eq_some_iff.mp (show (fss_file_new 3
    (memalloc_init_allocation (fun _ => 0) 4096 1024).2 100 1).map (·.1) = some 4192 by decide +kernel)
  obtain rfl : p = 4192 := pointer
  exact fss_file_new_made fresh_run (by decide) (by decide) done (by decide)

/-- The state of that heap before its first block, in a process without a table. -/
def bare_state : State := ⟨(memalloc_init_allocation (fun _ => 0) 4096 1024).2,⟨none,false⟩⟩

theorem never_stays_root : ¬Stays 4192 100 bare_state [.put 0] :=
  (never_stays (by decide) (by decide) (fun _ : Unit => root_made) root_opened bare_state [.put 0]).1

/-- A handle is made for the root directory: the header in front of it says that its block is free. -/
theorem first_handle_marks : ∃ h s', calls_on 4192 ⟨h,fresh_session.kernel.current⟩ [.create none] = some s' ∧
    h.load 4160 .attribute = 0 ∧ s'.heap.load 4160 .attribute = FREE_NODE ∧
    ¬Stays 4192 100 ⟨h,fresh_session.kernel.current⟩ [.create none] := by
  have ran : (memalloc 2 (memalloc_init_allocation (fun _ => 0) 4096 1024).2 100).map (fun r => (r.2.load 4160 .attribute,
      (calls_on 4192 ⟨r.2,fresh_session.kernel.current⟩ [.create none]).map (fun s => s.heap.load 4160 .attribute))) =
      some (0,some 1) := by decide +kernel
  obtain ⟨⟨p,h⟩,done,rest⟩ := Option.map_eq_some_iff.mp ran
  obtain ⟨before,after⟩ := Prod.mk.inj rest
  obtain ⟨s',called,marked⟩ := Option.map_eq_some_iff.mp after
  refine ⟨h,s',called,before,marked,?_⟩
  intro stays
  exact absurd stays.inside.1 (by decide)

end GridOS.FileHandle
