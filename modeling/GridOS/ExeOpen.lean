import GridOS.SubSectionRuns
import GridOS.VmRuns
import GridOS.ThreadSync
import GridOS.Object

/-!
Opening an image by its name, `kp_exe_open_by_name` of `source/kernel/process/exe.c`: the search in the list of executables,
the section that `kp_exe_bind` makes in the process, a sub-section for every segment, and the references that are taken and
dropped. Objects are named by the pointers of their users. What the image holds, and what memory there is for
sections, is given.
-/
namespace GridOS.ExeOpen
open GridOS.Words GridOS.Handle GridOS.Vm GridOS.ListHead GridOS.SubSection GridOS.ThreadSync
open GridOS.Object (sizeof_cl_object)

def KS_TYPE_EXE : Nat := 4

def TO_USER_OBJECT (p : Nat) : Nat := p + sizeof_cl_object

/-- A `struct cl_object` at `addr` in the list of its type. -/
structure cl_object where
  addr : Nat
  name : Option (List Char)

structure elf_segment where
  vstart : Nat
  vsize : Nat
  fsize : Nat
  foffset : Nat
  writable : Bool

/-- What the functions of the ELF library give for an image: its base and size, and its segments. -/
structure Image where
  elf_get_mapping_base : Nat × Nat
  elf_read_segment : Nat → Option elf_segment

/-- The process, the list of the executables with their images, and what `p` of `cl_object_search_name` holds before anything
    is assigned to it; `ks` and `subs` are what `cl_object_create` has for the section and for each sub-section. `walk`
    bounds the walks over the list of sub-sections. -/
structure Env where
  arch : Arch
  cpl : Cpl
  who : Nat
  exes : List cl_object
  stray : Nat
  image : Nat → Image
  ks : Option Nat
  subs : Nat → Option Nat
  walk : Nat

/-- The counters of the objects, the sections of the process, and the memory of the sections. -/
structure State where
  counter : Nat → Int
  vm_list : List VmNode
  mem : Mem

def inc_ref (object : Nat) (s : State) : State :=
  { s with counter := Function.update s.counter object (atomic_inc (s.counter object)) }

def dec_ref (object : Nat) (s : State) : State :=
  { s with counter := Function.update s.counter object (atomic_dec (s.counter object)) }

/-- The counter behind the `memset` of `cl_object_create`. -/
def clear_ref (object : Nat) (s : State) : State := { s with counter := Function.update s.counter object 0 }

section Code
variable (env : Env)

/-- The loop of `cl_object_search_name`, with what `p` holds. -/
def search (name : List Char) : Nat → List cl_object → Nat
  | p, [] => p
  | _, object :: rest => if object.name = some name then object.addr else search name 0 rest

/-- `cl_object_search_name` on the executables, up to the reference. -/
def found (name : List Char) : Option Nat :=
  let p := search name env.stray env.exes
  if p ≠ 0 then some (TO_USER_OBJECT p) else none

def kp_exe_search_by_name (name : List Char) (s : State) : Option Nat × State :=
  match found env name with
  | some ke => (some ke,inc_ref ke s)
  | none => (none,s)

/-- The section in memory when it has its place. -/
def enter_section (p : Nat) (node : VmNode) (m : Mem) : Mem :=
  let m := object_init p (clear_object p m)
  let m := write (p + TYPE) KS_TYPE_EXE m
  let m := write (p + PROT) KM_PROT_READ m
  write (p + START) node.start (write (p + SIZE) node.size m)

/-- The section and its start. A section without a place is closed again. -/
def ks_create (base size : Nat) (s : State) : Option (Nat × Nat) × State :=
  match env.ks with
  | none => (none,s)
  | some p =>
    let s := clear_ref p s
    match km_vm_create env.arch env.cpl s.vm_list .exe base size with
    | none => (none,dec_ref p s)
    | some (node,vm_list) => (some (p,node.start),{ s with vm_list, mem := enter_section p node s.mem })

/-- A segment where it is to be in the process. -/
def segment (what need_base i : Nat) : Option Segment :=
  ((env.image what).elf_read_segment i).map (fun seg =>
    ⟨env.subs i,add seg.vstart need_base,seg.vsize,seg.fsize,seg.foffset,seg.writable⟩)

/-- What the creation of a sub-section does to the counter of the new object. -/
def count_sub (object : Option Nat) (made : Bool) (s : State) : State :=
  match object with
  | none => s
  | some sub => if made then clear_ref sub s else dec_ref sub (clear_ref sub s)

/-- The loop over the segments: the number of the segments when it breaks off at their end, no number for the jump to `err`;
    `none` when it has not ended within the fuel. -/
def bind_segments (what ks need_base : Nat) : Nat → Nat → State → Option (Option Nat × State)
  | 0, _, _ => none
  | fuel+1, i, s =>
    match segment env what need_base i with
    | none => some (some i,s)
    | some seg =>
      let made := bind_segment env.walk ks seg s.mem
      let s := count_sub seg.object made.1.isSome { s with mem := made.2 }
      if made.1.isSome then bind_segments what ks need_base fuel (i + 1) s else some (none,s)

/-- The base, 0 for a failure. -/
def kp_exe_bind (fuel what : Nat) (s : State) : Option (Nat × State) :=
  let (base,size) := (env.image what).elf_get_mapping_base
  match ks_create env base size s with
  | (none,s) => some (0,s)
  | (some (ks,start),s) =>
    -- the executable is referred to by the section, and the section by the process
    let s := inc_ref ks (inc_ref what s)
    let need_base := if base ≠ 0 then 0 else start
    match bind_segments env what ks need_base fuel 0 s with
    | none => none
    | some (none,s) => some (0,s)
    | some (some i,s) => if i = 0 then some (0,s) else some (if base ≠ 0 then base else need_base,s)

/-- `map_base` is what is written there, if anything is. -/
structure Result where
  ret : Option Nat
  map_base : Option Nat
  state : State

def kp_exe_open_by_name (fuel : Nat) (name : List Char) (s : State) : Option Result :=
  match kp_exe_search_by_name env name s with
  | (none,s) => some ⟨none,none,s⟩
  | (some ke,s) =>
    match kp_exe_bind env fuel ke s with
    | none => none
    -- the reference that is dropped is not that of the executable
    | some (0,s) => some ⟨none,some 0,dec_ref env.who s⟩
    | some (base,s) => some ⟨some ke,some base,dec_ref ke s⟩

/-! ### The claim on a failure -/

/-- The object is none of those that are made in the call. -/
def Existing (object : Nat) : Prop := env.ks ≠ some object ∧ ∀ i, env.subs i ≠ some object

/-- When the call fails, the counters of the objects that were there and the sections of the process are as before. -/
def Neutral (name : List Char) (s : State) : Prop :=
  ∀ fuel r, kp_exe_open_by_name env fuel name s = some r → r.ret = none →
    (∀ object, Existing env object → r.state.counter object = s.counter object) ∧ r.state.vm_list = s.vm_list

/-- There is no memory for the section, or no place for it in the process. -/
def Refused (what : Nat) (vm_list : List VmNode) : Prop :=
  env.ks = none ∨ km_vm_create env.arch env.cpl vm_list .exe (env.image what).elf_get_mapping_base.1
    (env.image what).elf_get_mapping_base.2 = none

/-- There is an object for the segment and a place in the section. -/
def Placed (ks : Nat) (seg : Segment) (m : Mem) : Prop :=
  ∃ sub, seg.object = some sub ∧ granted env.walk ks seg (prepared sub m) ≠ 0

/-- There is none for the segment that comes `n` after the segment `i`, when the ones before it have been placed. -/
def Unplaced (what ks need_base : Nat) : Nat → Nat → Mem → Prop
  | 0, i, m => ∃ seg, segment env what need_base i = some seg ∧ ¬Placed env ks seg m
  | n+1, i, m => ∃ seg, segment env what need_base i = some seg ∧ Placed env ks seg m ∧
      Unplaced what ks need_base n (i + 1) (bind_segment env.walk ks seg m).2

/-- The image has no segment, or one of its segments cannot be placed in the section. -/
def Unbound (what ks : Nat) (node : VmNode) (m : Mem) : Prop :=
  (env.image what).elf_read_segment 0 = none ∨
    ∃ n, Unplaced env what ks (if (env.image what).elf_get_mapping_base.1 ≠ 0 then 0 else node.start) n 0
      (enter_section ks node m)

/-- The image cannot be bound to the process. -/
def Fails (what : Nat) (s : State) : Prop :=
  Refused env what s.vm_list ∨ ∃ ks node vm_list, env.ks = some ks ∧
    km_vm_create env.arch env.cpl s.vm_list .exe (env.image what).elf_get_mapping_base.1
      (env.image what).elf_get_mapping_base.2 = some (node,vm_list) ∧ Unbound env what ks node s.mem

end Code

/-! ### The loop over the segments -/

section Loop
variable {env : Env} {what ks need_base fuel i : Nat} {s s' : State}

/-- The counters of the objects that were there, and the sections of the process, are the same. -/
structure Same (env : Env) (s s' : State) : Prop where
  counter : ∀ object, Existing env object → s'.counter object = s.counter object
  vm_list : s'.vm_list = s.vm_list

theorem Same.refl (env : Env) (s : State) : Same env s s := ⟨fun _ _ => rfl,rfl⟩

theorem Same.trans {s'' : State} (first : Same env s s') (second : Same env s' s'') : Same env s s'' :=
  ⟨fun object existing => (second.counter object existing).trans (first.counter object existing),
    second.vm_list.trans first.vm_list⟩

/-- The counters of new objects are of no account. -/
theorem same_update {object : Nat} {counter : Nat → Int} (new : ¬Existing env object) (c : Int) (same : counter = s.counter)
    (m : Mem) : Same env s ⟨Function.update counter object c,s.vm_list,m⟩ := by
  refine ⟨fun other existing => ?_,rfl⟩
  have different : other ≠ object := by
    rintro rfl
    exact new existing
  rw [same]
  exact Function.update_of_ne different _ _

theorem new_sub {sub : Nat} (object : env.subs i = some sub) : ¬Existing env sub := fun existing => existing.2 i object

theorem new_ks (object : env.ks = some ks) : ¬Existing env ks := fun existing => existing.1 object

theorem segment_object {seg : Segment} (read : segment env what need_base i = some seg) : seg.object = env.subs i := by
  obtain ⟨elf,_,rfl⟩ := Option.map_eq_some_iff.mp read
  rfl

theorem count_sub_same {object : Option Nat} (from_pool : object = env.subs i) (made : Bool) (m : Mem) :
    Same env s (count_sub object made { s with mem := m }) := by
  cases given : object with
  | none => exact ⟨fun _ _ => rfl,rfl⟩
  | some sub =>
    have new := new_sub (from_pool.symm.trans given)
    cases made with
    | true => exact same_update new 0 rfl m
    | false =>
      simp only [count_sub,dec_ref,clear_ref,Function.update_self,Function.update_idem]
      exact same_update new _ rfl m

/-- A segment is bound when it can be placed. -/
theorem bind_segment_isSome {seg : Segment} {m : Mem} : (bind_segment env.walk ks seg m).1.isSome = true ↔ Placed env ks seg m := by
  cases object : seg.object with
  | none => simp [Placed,bind_segment,ks_sub_create,object]
  | some sub =>
    rw [bind_segment_eq object]
    by_cases refused : granted env.walk ks seg (prepared sub m) = 0
    · simp [Placed,object,refused]
    · simp [Placed,object,refused]

/-- The memory behind a round of the loop. -/
theorem count_sub_mem (object : Option Nat) (made : Bool) (s : State) : (count_sub object made s).mem = s.mem := by
  cases object with
  | none => rfl
  | some sub => cases made with
    | true => rfl
    | false => rfl

theorem bind_segments_same {ended : Option Nat} (done : bind_segments env what ks need_base fuel i s = some (ended,s')) :
    Same env s s' := by
  induction fuel generalizing i s with
  | zero => cases done
  | succ fuel ih =>
    rw [bind_segments] at done
    split at done
    · cases done
      exact .refl env _
    · rename_i seg read
      have round := count_sub_same (s := s) (segment_object read) (bind_segment env.walk ks seg s.mem).1.isSome
        (bind_segment env.walk ks seg s.mem).2
      dsimp only at done
      split at done
      · exact round.trans (ih done)
      · cases done
        exact round

/-- The loop ends behind the last segment, or at one that cannot be placed. -/
theorem bind_segments_cases {ended : Option Nat} (done : bind_segments env what ks need_base fuel i s = some (ended,s')) :
    (∃ n, ended = some (i + n) ∧ segment env what need_base (i + n) = none) ∨
      ended = none ∧ ∃ n, Unplaced env what ks need_base n i s.mem := by
  induction fuel generalizing i s with
  | zero => cases done
  | succ fuel ih =>
    rw [bind_segments] at done
    split at done
    · rename_i last
      cases done
      exact .inl ⟨0,rfl,last⟩
    · rename_i seg read
      dsimp only at done
      split at done
      · rename_i made
        have placed := bind_segment_isSome.mp made
        rcases ih done with ⟨n,rfl,last⟩ | ⟨rfl,n,unplaced⟩
        · have shift : i + 1 + n = i + (n + 1) := by omega
          exact .inl ⟨n + 1,by rw [shift],shift ▸ last⟩
        · rw [count_sub_mem] at unplaced
          exact .inr ⟨rfl,n + 1,seg,read,placed,unplaced⟩
      · rename_i refused
        cases done
        exact .inr ⟨rfl,0,seg,read,fun placed => refused (bind_segment_isSome.mpr placed)⟩

/-- The loop reaches the segment that cannot be placed. -/
theorem bind_segments_unplaced {n : Nat} (unplaced : Unplaced env what ks need_base n i s.mem) :
    ∃ s', bind_segments env what ks need_base (n + 1) i s = some (none,s') := by
  induction n generalizing i s with
  | zero =>
    obtain ⟨seg,read,refused⟩ := unplaced
    rw [← bind_segment_isSome] at refused
    rw [bind_segments,read]
    dsimp only
    rw [if_neg refused]
    exact ⟨_,rfl⟩
  | succ n ih =>
    obtain ⟨seg,read,placed,rest⟩ := unplaced
    rw [bind_segments,read]
    dsimp only
    rw [if_pos (bind_segment_isSome.mpr placed)]
    refine ih ?_
    rwa [count_sub_mem]

end Loop

/-! ### The section and the references -/

section Open
variable {env : Env} {what ks fuel : Nat} {s s' : State} {node : VmNode} {vm_list : List VmNode} {name : List Char}

theorem bind_refused (fuel : Nat) (refused : Refused env what s.vm_list) :
    ∃ s', kp_exe_bind env fuel what s = some (0,s') ∧ Same env s s' := by
  simp only [kp_exe_bind,ks_create]
  cases object : env.ks with
  | none => exact ⟨s,rfl,.refl env s⟩
  | some p =>
    have no_place := refused.resolve_left (by simp [object])
    simp only [clear_ref,no_place]
    refine ⟨_,rfl,?_⟩
    simp only [dec_ref,Function.update_self,Function.update_idem]
    exact same_update (new_ks object) _ rfl s.mem

/-- The state in front of the loop over the segments. -/
def entered (what ks : Nat) (node : VmNode) (vm_list : List VmNode) (s : State) : State :=
  inc_ref ks (inc_ref what { clear_ref ks s with vm_list, mem := enter_section ks node s.mem })

theorem bind_made (object : env.ks = some ks) (place : km_vm_create env.arch env.cpl s.vm_list .exe
    (env.image what).elf_get_mapping_base.1 (env.image what).elf_get_mapping_base.2 = some (node,vm_list)) :
    kp_exe_bind env fuel what s =
      let base := (env.image what).elf_get_mapping_base.1
      match bind_segments env what ks (if base ≠ 0 then 0 else node.start) fuel 0 (entered what ks node vm_list s) with
      | none => none
      | some (none,s) => some (0,s)
      | some (some i,s) => if i = 0 then some (0,s) else some (if base ≠ 0 then base else if base ≠ 0 then 0 else node.start,s) := by
  have created : ks_create env (env.image what).elf_get_mapping_base.1 (env.image what).elf_get_mapping_base.2 s =
      (some (ks,node.start),{ clear_ref ks s with vm_list, mem := enter_section ks node s.mem }) := by
    simp [ks_create,object,clear_ref,place]
  simp only [kp_exe_bind,created]
  rfl

/-- An image that cannot be bound leaves its section in the process. -/
theorem bind_unbound (object : env.ks = some ks) (place : km_vm_create env.arch env.cpl s.vm_list .exe
    (env.image what).elf_get_mapping_base.1 (env.image what).elf_get_mapping_base.2 = some (node,vm_list))
    (unbound : Unbound env what ks node s.mem) : ∃ fuel s', kp_exe_bind env fuel what s = some (0,s') ∧ s'.vm_list = vm_list := by
  rcases unbound with none_read | ⟨n,unplaced⟩
  · refine ⟨1,entered what ks node vm_list s,?_,rfl⟩
    rw [bind_made object place]
    simp [bind_segments,segment,none_read]
  · obtain ⟨s',done⟩ := bind_segments_unplaced (s := entered what ks node vm_list s) unplaced
    refine ⟨n + 1,s',?_,(bind_segments_same done).vm_list⟩
    rw [bind_made object place]
    simp only [done]

theorem unbound_of_bind (object : env.ks = some ks) (place : km_vm_create env.arch env.cpl s.vm_list .exe
    (env.image what).elf_get_mapping_base.1 (env.image what).elf_get_mapping_base.2 = some (node,vm_list))
    (failed : kp_exe_bind env fuel what s = some (0,s')) : Unbound env what ks node s.mem := by
  rw [bind_made object place] at failed
  dsimp only at failed
  split at failed
  · cases failed
  · rename_i ended
    rcases bind_segments_cases ended with ⟨n,absurd_,_⟩ | ⟨_,n,unplaced⟩
    · cases absurd_
    · exact .inr ⟨n,unplaced⟩
  · rename_i i _ ended
    split at failed
    · rename_i zero
      rcases bind_segments_cases ended with ⟨n,counted,last⟩ | ⟨absurd_,_⟩
      · obtain rfl : n = 0 := by
          have := Option.some.inj counted
          omega
        exact .inl (by simpa [segment] using last)
      · cases absurd_
    · have start := (km_vm_create_made place).2
      have zero := (Prod.mk.inj (Option.some.inj failed)).1
      split at zero
      · rename_i base
        exact absurd zero base
      · exact absurd zero start

theorem open_found (search : found env name = some what) : kp_exe_open_by_name env fuel name s =
    match kp_exe_bind env fuel what (inc_ref what s) with
    | none => none
    | some (0,s) => some ⟨none,some 0,dec_ref env.who s⟩
    | some (base,s) => some ⟨some what,some base,dec_ref what s⟩ := by
  simp only [kp_exe_open_by_name,kp_exe_search_by_name,search]

theorem atomic_dec_ne (c : Int) : atomic_dec c ≠ c := by
  unfold atomic_dec INT_MIN INT_MAX
  split <;> omega

/-- A failure behind the search takes a reference from the process. -/
theorem not_neutral (existing : Existing env env.who) (search : found env name = some what) (fails : Fails env what s)
    (other : ¬(what = env.who ∧ Refused env what s.vm_list)) : ¬Neutral env name s := by
  intro neutral
  by_cases refused : Refused env what s.vm_list
  · obtain ⟨s',bound,same⟩ := bind_refused (s := inc_ref what s) 0 refused
    have kept := (neutral 0 ⟨none,some 0,dec_ref env.who s'⟩ (by rw [open_found search,bound]; rfl) rfl).1 env.who existing
    have before := same.counter env.who existing
    have different : env.who ≠ what := fun same => other ⟨same.symm,refused⟩
    rw [show (inc_ref what s).counter env.who = s.counter env.who from Function.update_of_ne different _ _] at before
    rw [show (dec_ref env.who s').counter env.who = atomic_dec (s'.counter env.who) from Function.update_self .., before] at kept
    exact atomic_dec_ne _ kept
  · obtain ⟨ks,node,vm_list,object,place,unbound⟩ := fails.resolve_left refused
    obtain ⟨fuel,s',bound,after⟩ := bind_unbound (s := inc_ref what s) object place unbound
    have kept := (neutral fuel ⟨none,some 0,dec_ref env.who s'⟩ (by rw [open_found search,bound]; rfl) rfl).2
    exact (km_vm_create_made place).1 (after.symm.trans kept)

/-- A failed call is neutral exactly when it fails at the search; or it fails at the section of what is no executable but the
    process itself. -/
theorem open_neutral_iff (existing : Existing env env.who) (counters : ∀ object, IsInt (s.counter object)) :
    Neutral env name s ↔ ∀ what, found env name = some what →
      ¬Fails env what s ∨ what = env.who ∧ Refused env what s.vm_list := by
  constructor
  · intro neutral what search
    by_contra none
    push Not at none
    exact not_neutral existing search none.1 (fun both => none.2 both.1 both.2) neutral
  · intro condition fuel r done failed
    cases search : found env name with
    | none =>
      simp only [kp_exe_open_by_name,kp_exe_search_by_name,search] at done
      cases done
      exact ⟨fun _ _ => rfl,rfl⟩
    | some what =>
      rw [open_found search] at done
      rcases condition what search with works | ⟨rfl,refused⟩
      · split at done
        · cases done
        · rename_i s' bound
          refine absurd ?_ works
          by_cases refused : Refused env what s.vm_list
          · exact .inl refused
          · unfold Refused at refused
            push Not at refused
            obtain ⟨ks,object⟩ := Option.ne_none_iff_exists'.mp refused.1
            obtain ⟨⟨node,vm_list⟩,place⟩ := Option.ne_none_iff_exists'.mp refused.2
            exact .inr ⟨ks,node,vm_list,object,place,unbound_of_bind (s := inc_ref what s) object place bound⟩
        · cases done
          cases failed
      · obtain ⟨s',bound,same⟩ := bind_refused (s := inc_ref env.who s) fuel refused
        rw [bound] at done
        cases done
        refine ⟨fun object there => ?_,same.vm_list⟩
        have before := same.counter object there
        by_cases process : object = env.who
        · rw [process] at before ⊢
          rw [show (dec_ref env.who s').counter env.who = atomic_dec (s'.counter env.who) from Function.update_self ..,before,
            show (inc_ref env.who s).counter env.who = atomic_inc (s.counter env.who) from Function.update_self ..]
          exact dec_inc (counters env.who)
        · rw [show (dec_ref env.who s').counter object = s'.counter object from Function.update_of_ne process _ _,before]
          exact Function.update_of_ne process _ _

end Open

/-- An executable `a` at 1020 and a process at 5000, without memory for a section. -/
def no_section : Env := ⟨.i386,.user,5000,[⟨1000,some ['a']⟩],0,fun _ => ⟨(0,4096),fun _ => none⟩,none,fun _ => none,4⟩

def unreferred : State := ⟨fun _ => 0,[],fun _ => 0⟩

theorem open_neutral_unknown : Neutral no_section ['b'] unreferred := by
  have counters : ∀ object, IsInt (unreferred.counter object) := by
    intro object
    show IsInt 0
    exact ⟨by decide,by decide⟩
  refine (open_neutral_iff ⟨by simp [no_section],by simp [no_section]⟩ counters).mpr ?_
  intro what known
  simp [found,search,no_section] at known

/-- The process loses a reference and the executable keeps one. -/
theorem process_dropped : ∃ r, kp_exe_open_by_name no_section 0 ['a'] unreferred = some r ∧ r.ret = none ∧
    r.state.counter 5000 = -1 ∧ r.state.counter 1020 = 1 ∧ ¬Neutral no_section ['a'] unreferred := by
  refine ⟨_,rfl,rfl,by decide,by decide,?_⟩
  intro neutral
  have kept := (neutral 0 _ rfl rfl).1 5000 ⟨by simp [no_section],by simp [no_section]⟩
  exact absurd kept (by decide)

end GridOS.ExeOpen
