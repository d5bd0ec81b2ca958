import GridOS.I2pRuns
import Mathlib.Data.Set.Card

/-!
The handles of `source/kernel/handle.c` and the reference counters of the objects
behind them. A call is `none` when it does not return: it spins on a lock that is
held, or it follows a null pointer. The runs also count, for every object, the
translations that have not been put yet.
-/
namespace GridOS.Handle
open GridOS.Words GridOS.I2p

/-- `(-1UL)`. -/
def KE_INVALID_HANDLE : Nat := 4294967295
def INT_MAX : Int := 2147483647
def INT_MIN : Int := -2147483648

/-- The parts of a `struct ko_process` that handles use; `handle_lock` is true while it is
    held. -/
structure ko_process where
  handle_table : Option Table
  handle_lock : Bool

/-- The current process, and `ref.counter` of the object at each address. -/
structure Kernel where
  current : ko_process
  counter : Nat → Int

def atomic_inc (counter : Int) : Int := if counter = INT_MAX then INT_MIN else counter + 1
def atomic_dec (counter : Int) : Int := if counter = INT_MIN then INT_MAX else counter - 1

def cl_object_inc_ref (k : Kernel) (object : Nat) : Kernel :=
  { k with counter := Function.update k.counter object (atomic_inc (k.counter object)) }
def cl_object_dec_ref (k : Kernel) (object : Nat) : Kernel :=
  { k with counter := Function.update k.counter object (atomic_dec (k.counter object)) }

def get_handle_table (k : Kernel) : Option (Option Table × Kernel) :=
  if k.current.handle_lock then none
  else some (k.current.handle_table,{ k with current.handle_lock := true })
def put_handle_table (k : Kernel) : Kernel := { k with current.handle_lock := false }

/-- The table at its place in the process after it has changed. -/
def set_handle_table (k : Kernel) (handle_table : Table) : Kernel :=
  { k with current.handle_table := some handle_table }

def ke_handle_create (k : Kernel) (kobject : Nat) (malloc : Option Nat) : Option (Nat × Kernel) :=
  match get_handle_table k with
  | none => none
  -- the lock stays held
  | some (none,k) => some (KE_INVALID_HANDLE,k)
  | some (some handle_table,k) =>
    match i2p_alloc handle_table kobject malloc with
    | none => none
    | some (h,handle_table) =>
      let k := set_handle_table k handle_table
      if h = COMMON_I2P_ALLOC_ERROR then some (KE_INVALID_HANDLE,put_handle_table k)
      else some (h,put_handle_table (cl_object_inc_ref k kobject))

def ke_handle_delete (k : Kernel) (handle : Nat) : Option (Bool × Kernel) :=
  match get_handle_table k with
  | none => none
  | some (none,_) => none
  | some (some handle_table,k) =>
    match i2p_dealloc handle_table handle with
    | none => none
    | some (r,handle_table) => some (r,put_handle_table (set_handle_table k handle_table))

def ke_handle_translate (k : Kernel) (handle : Nat) : Option (Nat × Kernel) :=
  match get_handle_table k with
  | none => none
  | some (none,_) => none
  | some (some handle_table,k) =>
    match i2p_find handle_table handle with
    | none => none
    | some kobject => some (kobject,put_handle_table (if kobject ≠ 0 then cl_object_inc_ref k kobject else k))

def ke_handle_put (k : Kernel) (_handle kobject : Nat) : Kernel := cl_object_dec_ref k kobject

/-- The counter's part of `cl_object_close`, before the object may be deleted. -/
def cl_object_close (k : Kernel) (object : Nat) : Kernel := cl_object_dec_ref k object

/-- `none` also for the panic. -/
def ke_handle_and_object_destory (k : Kernel) (handle kobject : Nat) : Option Kernel :=
  if k.counter kobject < 2 then none
  else (ke_handle_delete (ke_handle_put k handle kobject) handle).map (fun r => cl_object_close r.2 kobject)

def ke_handle_init (k : Kernel) (malloc : Option Nat) : Kernel := { k with current.handle_table := i2p_create malloc }

/-! ### Runs -/

inductive Call
  | create (kobject : Nat) (malloc : Option Nat)
  | translate (handle : Nat)
  | put (handle kobject : Nat)
  | delete (handle : Nat)

/-- The kernel, and how many translations of each object are outstanding. -/
structure Session where
  kernel : Kernel
  outstanding : Nat → Nat

def step (s : Session) : Call → Option Session
  | .create kobject malloc => (ke_handle_create s.kernel kobject malloc).map (fun r => { s with kernel := r.2 })
  | .translate handle => (ke_handle_translate s.kernel handle).map (fun r => {
      kernel := r.2
      outstanding := if r.1 = 0 then s.outstanding
        else Function.update s.outstanding r.1 (s.outstanding r.1 + 1) })
  | .put handle kobject => some {
      kernel := ke_handle_put s.kernel handle kobject
      outstanding := Function.update s.outstanding kobject (s.outstanding kobject - 1) }
  | .delete handle => (ke_handle_delete s.kernel handle).map (fun r => { s with kernel := r.2 })

/-- What callers and `malloc` promise: handles are made for objects, no translation is put
    twice, and the memory of a new node is free. -/
def Permitted (s : Session) : Call → Prop
  | .create kobject malloc => kobject ≠ 0 ∧ ∀ t, s.kernel.current.handle_table = some t → Answers t.nodes malloc
  | .translate handle => handle < modulus
  | .put _ kobject => 0 < s.outstanding kobject
  | .delete handle => handle < modulus

/-- The table's handles to an object. -/
def handles (k : Kernel) (object : Nat) : Set Nat :=
  { h | h < modulus ∧ ∃ t, k.current.handle_table = some t ∧ i2p_find t h = some object }

/-- The counter of every object is that of `start` and one more for each handle and each
    outstanding translation; without either it is that of `start`. The lock is free. -/
structure Counted (start s : Session) : Prop where
  counter : ∀ object, object ≠ 0 → s.kernel.counter object =
    start.kernel.counter object + (handles s.kernel object).ncard + s.outstanding object
  returned : ∀ object, object ≠ 0 → handles s.kernel object = ∅ → s.outstanding object = 0 →
    s.kernel.counter object = start.kernel.counter object
  unlocked : s.kernel.current.handle_lock = false

/-- A call that keeps the counters right: the process has a table, the counter of an object
    that is referred to once more is not the largest, and no handle that is deleted refers
    to an object. -/
def Tame (s : Session) : Call → Prop
  | .create kobject _ => s.kernel.current.handle_table.isSome ∧ s.kernel.counter kobject < INT_MAX
  | .translate handle => ∃ t, s.kernel.current.handle_table = some t ∧
      ∀ object, i2p_find t handle = some object → object ≠ 0 → s.kernel.counter object < INT_MAX
  | .put _ _ => True
  | .delete handle => ∃ t, s.kernel.current.handle_table = some t ∧ i2p_find t handle = some 0

/-- A process behind `ke_handle_init`, before its first handle. -/
structure Started (s : Session) : Prop where
  table : ∃ before malloc, Answers [] malloc ∧ s.kernel = ke_handle_init before malloc
  unlocked : s.kernel.current.handle_lock = false
  counters : ∀ object, INT_MIN ≤ s.kernel.counter object ∧ s.kernel.counter object ≤ INT_MAX
  outstanding : s.outstanding = fun _ => 0

/-- The states that tame calls reach from `start`. -/
inductive TameRun (start : Session) : Session → Prop
  | start : TameRun start start
  | call {s s' : Session} {call : Call} (run : TameRun start s) (permitted : Permitted s call) (tame : Tame s call)
      (done : step s call = some s') : TameRun start s'

/-! ### The handles to an object -/

section Handles
variable {k : Kernel} {t : Table} {m : Nat → Option Nat}

theorem handles_eq (table : k.current.handle_table = some t) (valid : Valid t m) {object : Nat} (real : object ≠ 0) :
    handles k object = { h | m h = some object } := by
  ext h
  constructor
  · rintro ⟨word,t',same,found⟩
    obtain rfl := Option.some.inj (table.symm.trans same)
    rw [valid_find valid word] at found
    have stored := Option.some.inj found
    cases entry : m h with
    | none => rw [entry] at stored; exact absurd stored.symm real
    | some p => rw [entry] at stored; exact entry.trans (congrArg some stored)
  · intro entry
    have below := valid_beyond valid (h := h) (by rw [show m h = some object from entry]; rfl)
    have few := valid_few valid
    have word : h < modulus := by
      rw [modulus]
      omega
    refine ⟨word,t,table,?_⟩
    rw [valid_find valid word,show m h = some object from entry]
    rfl

theorem handles_none (table : k.current.handle_table = none) (object : Nat) : handles k object = ∅ := by
  ext h
  simp [handles,table]

theorem finite_entries (valid : Valid t m) (object : Nat) : { h | m h = some object }.Finite := by
  refine (Set.finite_Iio (MAX_COUNT_PER_ARRAY * t.nodes.length)).subset ?_
  intro h entry
  exact valid_beyond valid (by rw [show m h = some object from entry]; rfl)

/-- One more entry is one more handle to its object and to no other. -/
theorem entries_update {h kobject : Nat} (valid : Valid t m) (free : m h = none) (object : Nat) :
    { i | Function.update m h (some kobject) i = some object }.ncard =
      { i | m i = some object }.ncard + if object = kobject then 1 else 0 := by
  by_cases same : object = kobject
  · have grown : { i | Function.update m h (some kobject) i = some object } = insert h { i | m i = some object } := by
      ext i
      by_cases new : i = h
      · simp [new,same]
      · simp [new]
    rw [grown,Set.ncard_insert_of_notMem (by simp [free]) (finite_entries valid object),if_pos same]
  · have unchanged : { i | Function.update m h (some kobject) i = some object } = { i | m i = some object } := by
      ext i
      by_cases new : i = h
      · simp [new,free,Ne.symm same]
      · simp [new]
    rw [unchanged,if_neg same,Nat.add_zero]

/-- One entry less is one handle less to its object and to no other. -/
theorem entries_remove {h kobject : Nat} (valid : Valid t m) (entry : m h = some kobject) (object : Nat) :
    { i | Function.update m h none i = some object }.ncard + (if object = kobject then 1 else 0) =
      { i | m i = some object }.ncard := by
  have kept : { i | Function.update m h none i = some object } = { i | m i = some object } \ {h} := by
    ext i
    by_cases gone : i = h
    · simp [gone]
    · simp [gone]
  by_cases same : object = kobject
  · rw [kept,if_pos same,Set.ncard_sdiff_singleton_add_one (by simp [entry,same]) (finite_entries valid object)]
  · rw [kept,if_neg same,Set.sdiff_singleton_eq_self (by simp [entry,Ne.symm same]),Nat.add_zero]

/-! ### The calls -/

theorem get_handle_table_free (unlocked : k.current.handle_lock = false) (table : k.current.handle_table = some t) :
    get_handle_table k = some (some t,{ k with current.handle_lock := true }) := by
  simp [get_handle_table,unlocked,table]

theorem ke_handle_create_spec (unlocked : k.current.handle_lock = false) (table : k.current.handle_table = some t)
    (valid : Valid t m) (kobject : Nat) {malloc : Option Nat} (answers : Answers t.nodes malloc) :
    ∃ h k', ke_handle_create k kobject malloc = some (h,k') ∧ k'.current.handle_lock = false ∧
      ((k'.current.handle_table = some t ∧ k'.counter = k.counter) ∨
        ∃ t', k'.current.handle_table = some t' ∧ m h = none ∧ Valid t' (Function.update m h (some kobject)) ∧
          k'.counter = Function.update k.counter kobject (atomic_inc (k.counter kobject))) := by
  obtain ⟨h,t',done,outcome⟩ := alloc_valid kobject malloc valid answers
  simp only [ke_handle_create,get_handle_table_free unlocked table,done]
  split at outcome
  · obtain ⟨refused,rfl⟩ := outcome
    rw [if_pos refused]
    exact ⟨_,_,rfl,rfl,.inl ⟨rfl,rfl⟩⟩
  · obtain ⟨served,free,_,valid'⟩ := outcome
    rw [if_neg served]
    exact ⟨_,_,rfl,rfl,.inr ⟨t',rfl,free,valid',rfl⟩⟩

theorem ke_handle_translate_spec (unlocked : k.current.handle_lock = false) (table : k.current.handle_table = some t)
    {handle kobject : Nat} (found : i2p_find t handle = some kobject) :
    ke_handle_translate k handle = some (kobject,if kobject ≠ 0 then cl_object_inc_ref k kobject else k) := by
  simp only [ke_handle_translate,get_handle_table_free unlocked table,found]
  obtain ⟨⟨table,lock⟩,counter⟩ := k
  obtain rfl : lock = false := unlocked
  split <;> rfl

/-- Whatever the handle, `ke_handle_delete` leaves the counters as they are. -/
theorem ke_handle_delete_spec (unlocked : k.current.handle_lock = false) (table : k.current.handle_table = some t)
    (valid : Valid t m) {handle : Nat} (word : handle < modulus) :
    ∃ r t', ke_handle_delete k handle = some (r,{ k with current.handle_table := some t' }) ∧
      Valid t' (Function.update m handle none) := by
  simp only [ke_handle_delete,get_handle_table_free unlocked table]
  obtain ⟨⟨table,lock⟩,counter⟩ := k
  obtain rfl : lock = false := unlocked
  cases entry : m handle with
  | none =>
    rw [dealloc_dead_same valid word entry]
    refine ⟨_,t,rfl,?_⟩
    rw [Function.update_eq_self_iff.mpr entry.symm]
    exact valid
  | some kobject =>
    obtain ⟨t',done,valid'⟩ := dealloc_live_valid valid word (by rw [entry]; rfl)
    rw [done]
    exact ⟨_,t',rfl,valid'⟩

end Handles

section Runs
variable {start s s' : Session}

/-- What every state of a tame run keeps: the table stands for a map to objects, and each
    counter is in step with it. -/
structure Inv (start s : Session) : Prop where
  unlocked : s.kernel.current.handle_lock = false
  table : ∀ t, s.kernel.current.handle_table = some t → ∃ m, Valid t m ∧ ∀ h, m h ≠ some 0
  counter : ∀ object, object ≠ 0 → s.kernel.counter object =
    start.kernel.counter object + (handles s.kernel object).ncard + s.outstanding object

theorem Inv.counted (inv : Inv start s) : Counted start s := by
  refine ⟨inv.counter,?_,inv.unlocked⟩
  intro object real no_handles none_outstanding
  rw [inv.counter object real,no_handles,Set.ncard_empty,none_outstanding]
  simp

theorem started_inv (started : Started start) : Inv start start := by
  obtain ⟨before,malloc,answers,same⟩ := started.table
  have table : ∀ t, start.kernel.current.handle_table = some t → ∃ m, Valid t m ∧ ∀ h, m h ≠ some 0 := by
    intro t made
    rw [same] at made
    exact ⟨_,run_valid (.create answers made),by simp⟩
  refine ⟨started.unlocked,table,?_⟩
  intro object real
  have none_yet : handles start.kernel object = ∅ := by
    cases made : start.kernel.current.handle_table with
    | none => exact handles_none made object
    | some t =>
      rw [same] at made ⊢
      rw [handles_eq made (run_valid (.create answers made)) real]
      simp
  rw [none_yet,Set.ncard_empty,started.outstanding]
  simp

theorem create_inv {kobject : Nat} {malloc : Option Nat} (inv : Inv start s)
    (permitted : Permitted s (.create kobject malloc)) (tame : Tame s (.create kobject malloc)) :
    ∃ s', step s (.create kobject malloc) = some s' ∧ Inv start s' := by
  obtain ⟨t,table⟩ := Option.isSome_iff_exists.mp tame.1
  obtain ⟨m,valid,objects⟩ := inv.table t table
  obtain ⟨h,k',done,unlocked,outcome⟩ := ke_handle_create_spec inv.unlocked table valid kobject (permitted.2 t table)
  refine ⟨_,by rw [step,done,Option.map_some],?_⟩
  rcases outcome with ⟨table',same⟩ | ⟨t',table',free,valid',grown⟩
  · refine ⟨unlocked,?_,?_⟩
    · intro t' here
      exact inv.table t' (by rw [table,← table']; exact here)
    · intro object real
      show k'.counter object = start.kernel.counter object + (handles k' object).ncard + s.outstanding object
      rw [same,inv.counter object real,handles_eq table valid real,handles_eq table' valid real]
  · refine ⟨unlocked,?_,?_⟩
    · intro t'' here
      obtain rfl := Option.some.inj (table'.symm.trans here)
      refine ⟨_,valid',?_⟩
      intro i
      by_cases new : i = h
      · rw [new,Function.update_self]
        exact fun zero => permitted.1 (Option.some.inj zero)
      · rw [Function.update_of_ne new]
        exact objects i
    · intro object real
      show k'.counter object = start.kernel.counter object + (handles k' object).ncard + s.outstanding object
      have before := inv.counter object real
      rw [handles_eq table valid real] at before
      rw [grown,handles_eq table' valid' real,entries_update valid free]
      by_cases same : object = kobject
      · have room := tame.2
        rw [same] at before ⊢
        rw [Function.update_self,atomic_inc,if_neg (by omega),before,if_pos rfl]
        omega
      · rw [Function.update_of_ne same,before,if_neg same,Nat.add_zero]

theorem translate_inv {handle : Nat} (inv : Inv start s) (permitted : Permitted s (.translate handle))
    (tame : Tame s (.translate handle)) : ∃ s', step s (.translate handle) = some s' ∧ Inv start s' := by
  obtain ⟨t,table,room⟩ := tame
  obtain ⟨m,valid,objects⟩ := inv.table t table
  have found := valid_find valid permitted
  refine ⟨_,by rw [step,ke_handle_translate_spec inv.unlocked table found,Option.map_some],?_⟩
  by_cases null : (m handle).getD 0 = 0
  · rw [if_neg (by simpa using null),if_pos null]
    exact inv
  · rw [if_pos null,if_neg null]
    refine ⟨inv.unlocked,inv.table,?_⟩
    intro object real
    have before := inv.counter object real
    have below := room _ found null
    show Function.update s.kernel.counter ((m handle).getD 0) _ object =
      start.kernel.counter object + (handles s.kernel object).ncard +
        (Function.update s.outstanding ((m handle).getD 0) (s.outstanding ((m handle).getD 0) + 1) object : Nat)
    by_cases same : object = (m handle).getD 0
    · rw [same] at before ⊢
      rw [Function.update_self,Function.update_self,atomic_inc,if_neg (by omega),before]
      omega
    · rw [Function.update_of_ne same,Function.update_of_ne same,before]

theorem put_inv {handle kobject : Nat} (started : Started start) (inv : Inv start s)
    (permitted : Permitted s (.put handle kobject)) : ∃ s', step s (.put handle kobject) = some s' ∧ Inv start s' := by
  refine ⟨_,rfl,inv.unlocked,inv.table,?_⟩
  intro object real
  have before := inv.counter object real
  show Function.update s.kernel.counter kobject _ object =
    start.kernel.counter object + (handles s.kernel object).ncard + (Function.update s.outstanding kobject _ object : Nat)
  by_cases same : object = kobject
  · have floor := (started.counters object).1
    have some_outstanding : 0 < s.outstanding kobject := permitted
    rw [same] at before floor ⊢
    rw [Function.update_self,Function.update_self,atomic_dec,if_neg (by omega),before]
    omega
  · rw [Function.update_of_ne same,Function.update_of_ne same,before]

theorem delete_inv {handle : Nat} (inv : Inv start s) (permitted : Permitted s (.delete handle))
    (tame : Tame s (.delete handle)) : ∃ s', step s (.delete handle) = some s' ∧ Inv start s' := by
  obtain ⟨t,table,dead⟩ := tame
  obtain ⟨m,valid,objects⟩ := inv.table t table
  have vacant : m handle = none := by
    rw [valid_find valid permitted] at dead
    cases entry : m handle with
    | none => rfl
    | some kobject =>
      rw [entry] at dead
      exact absurd (entry.trans dead) (objects handle)
  obtain ⟨r,t',done,valid'⟩ := ke_handle_delete_spec inv.unlocked table valid permitted
  rw [Function.update_eq_self_iff.mpr vacant.symm] at valid'
  refine ⟨{ s with kernel := { s.kernel with current.handle_table := some t' } },?_,inv.unlocked,?_,?_⟩
  · rw [step,done]
    rfl
  · intro t'' here
    obtain rfl := Option.some.inj here
    exact ⟨m,valid',objects⟩
  · intro object real
    have before := inv.counter object real
    rw [handles_eq table valid real] at before
    rw [handles_eq rfl valid' real]
    exact before

/-- `ke_handle_and_object_destory` drops the reference of the handle that it deletes. -/
theorem destory_inv {t : Table} {handle kobject : Nat} (inv : Inv start s) (word : handle < modulus)
    (table : s.kernel.current.handle_table = some t) (found : i2p_find t handle = some kobject) (real : kobject ≠ 0)
    (translated : 0 < s.outstanding kobject) (referred : 2 ≤ s.kernel.counter kobject) :
    ∃ k', ke_handle_and_object_destory s.kernel handle kobject = some k' ∧
      Inv start ⟨k',Function.update s.outstanding kobject (s.outstanding kobject - 1)⟩ := by
  obtain ⟨m,valid,objects⟩ := inv.table t table
  have entry : m handle = some kobject := by
    have member : handle ∈ handles s.kernel kobject := ⟨word,t,table,found⟩
    rwa [handles_eq table valid real] at member
  obtain ⟨r,t',done,valid'⟩ := ke_handle_delete_spec (k := ke_handle_put s.kernel handle kobject) inv.unlocked table valid word
  refine ⟨cl_object_close (set_handle_table (ke_handle_put s.kernel handle kobject) t') kobject,?_,inv.unlocked,?_,?_⟩
  · rw [ke_handle_and_object_destory,if_neg (by omega),done]
    rfl
  · intro t'' here
    obtain rfl := Option.some.inj here
    refine ⟨_,valid',?_⟩
    intro i
    by_cases gone : i = handle
    · simp [gone]
    · rw [Function.update_of_ne gone]
      exact objects i
  · intro object object_real
    have before := inv.counter object object_real
    have removed := entries_remove valid entry object
    rw [handles_eq table valid object_real] at before
    rw [handles_eq rfl valid' object_real]
    show Function.update (Function.update s.kernel.counter kobject _) kobject
      (atomic_dec (Function.update s.kernel.counter kobject (atomic_dec (s.kernel.counter kobject)) kobject)) object =
      start.kernel.counter object + ({ i | Function.update m handle none i = some object }.ncard : Nat) +
        (Function.update s.outstanding kobject (s.outstanding kobject - 1) object : Nat)
    by_cases same : object = kobject
    · rw [same] at before removed ⊢
      have positive : INT_MIN < 0 := by decide
      rw [if_pos rfl] at removed
      rw [Function.update_self,Function.update_self,Function.update_self,atomic_dec,atomic_dec,
        if_neg (c := s.kernel.counter kobject = INT_MIN) (by omega),if_neg (by omega)]
      omega
    · rw [if_neg same] at removed
      rw [Function.update_of_ne same,Function.update_of_ne same,Function.update_of_ne same]
      omega

/-- A process whose `ke_handle_init` failed: once it has asked for a handle, no call that
    needs the table returns. -/
theorem create_without_table_locks {kobject : Nat} {malloc : Option Nat}
    (table : s.kernel.current.handle_table = none) (done : step s (.create kobject malloc) = some s') :
    ∀ call, (∀ handle object, call ≠ .put handle object) → step s' call = none := by
  have locked : s'.kernel.current.handle_lock = true := by
    cases free : s.kernel.current.handle_lock with
    | true => simp [step,ke_handle_create,get_handle_table,free] at done
    | false =>
      simp [step,ke_handle_create,get_handle_table,free,table] at done
      rw [← done]
  have spins : get_handle_table s'.kernel = none := by rw [get_handle_table,if_pos locked]
  intro call not_put
  cases call with
  | create kobject malloc => rw [step,ke_handle_create,spins]; rfl
  | translate handle => rw [step,ke_handle_translate,spins]; rfl
  | put handle object => exact absurd rfl (not_put handle object)
  | delete handle => rw [step,ke_handle_delete,spins]; rfl

theorem call_inv (started : Started start) (inv : Inv start s) (call : Call) (permitted : Permitted s call)
    (tame : Tame s call) : ∃ s', step s call = some s' ∧ Inv start s' := by
  cases call with
  | create kobject malloc => exact create_inv inv permitted tame
  | translate handle => exact translate_inv inv permitted tame
  | put handle kobject => exact put_inv started inv permitted
  | delete handle => exact delete_inv inv permitted tame

theorem tame_run_inv (started : Started start) (run : TameRun start s) : Inv start s := by
  induction run with
  | start => exact started_inv started
  | call run permitted tame done inv =>
    obtain ⟨s',result,inv'⟩ := call_inv started inv _ permitted tame
    rw [done] at result
    cases result
    exact inv'

/-- In every state of a run of tame calls the counters count the handles and the outstanding
    translations, the lock is free, and every tame call returns. -/
theorem tame_run_counted {start s : Session} (started : Started start) (run : TameRun start s) :
    Counted start s ∧ ∀ call, Permitted s call → Tame s call → ∃ s', step s call = some s' ∧ Counted start s' := by
  have inv := tame_run_inv started run
  refine ⟨inv.counted,?_⟩
  intro call permitted tame
  obtain ⟨s',done,inv'⟩ := call_inv started inv call permitted tame
  exact ⟨s',done,inv'.counted⟩

end Runs

/-- A process with room for its first handles, in a kernel of objects that nothing refers to. -/
def fresh_session : Session where
  kernel := ke_handle_init ⟨⟨none,false⟩,fun _ => 0⟩ (some 4096)
  outstanding := fun _ => 0

theorem fresh_answers : Answers [] (some 4096) := by
  intro addr same
  cases same
  exact ⟨by decide,by simp⟩

theorem refused_answers (nodes : List Node) : Answers nodes none := by
  intro addr same
  cases same

theorem fresh_started : Started fresh_session :=
  ⟨⟨_,some 4096,fresh_answers,rfl⟩,rfl,fun _ => (by decide : INT_MIN ≤ 0 ∧ 0 ≤ INT_MAX),rfl⟩

/-- An object with a handle that has been translated. -/
theorem tame_run_counted_one_handle : ∃ s, TameRun fresh_session s ∧ s.kernel.counter 77 = 2 ∧ s.outstanding 77 = 1 ∧
    Counted fresh_session s := by
  obtain ⟨s₁,created,seen₁⟩ := Option.map_eq_some_iff.mp (show (step fresh_session (.create 77 none)).map
    (fun s => (s.kernel.current.handle_table.bind (i2p_find · 0),s.kernel.counter 77)) = some (some 77,1)
    by decide +kernel)
  obtain ⟨s₂,translated,seen₂⟩ := Option.map_eq_some_iff.mp (show ((step fresh_session (.create 77 none)).bind
    (step · (.translate 0))).map (fun s => (s.kernel.counter 77,s.outstanding 77)) = some (2,1) by decide +kernel)
  rw [created] at translated
  obtain ⟨found,counter₁⟩ := Prod.mk.inj seen₁
  obtain ⟨counter₂,outstanding₂⟩ := Prod.mk.inj seen₂
  have permitted₁ : Permitted fresh_session (.create 77 none) := ⟨by decide,fun t _ => refused_answers t.nodes⟩
  have tame₁ : Tame fresh_session (.create 77 none) := ⟨rfl,(by decide : (0 : Int) < INT_MAX)⟩
  have tame₂ : Tame s₁ (.translate 0) := by
    obtain ⟨t,table,first⟩ := Option.bind_eq_some_iff.mp found
    refine ⟨t,table,?_⟩
    intro object at_zero _
    obtain rfl := Option.some.inj (first.symm.trans at_zero)
    rw [counter₁]
    decide
  have permitted₂ : Permitted s₁ (.translate 0) := (by decide : 0 < modulus)
  have run : TameRun fresh_session s₂ := .call (.call .start permitted₁ tame₁ created) permitted₂ tame₂ translated
  exact ⟨s₂,run,counter₂,outstanding₂,(tame_run_counted fresh_started run).1⟩

/-- A handle to an object is created and deleted: the object has no handle and no outstanding
    translation left, and its counter is one more than before. -/
theorem deleted_handle_keeps_reference : Started fresh_session ∧ Permitted fresh_session (.create 77 none) ∧
    ∃ s s', step fresh_session (.create 77 none) = some s ∧ Permitted s (.delete 0) ∧ step s (.delete 0) = some s' ∧
      handles s'.kernel 77 = ∅ ∧ s'.outstanding 77 = 0 ∧ s'.kernel.counter 77 = fresh_session.kernel.counter 77 + 1 ∧
      ¬Counted fresh_session s' := by
  refine ⟨fresh_started,⟨by decide,fun t _ => refused_answers t.nodes⟩,?_⟩
  obtain ⟨h,k,created,unlocked,outcome⟩ := ke_handle_create_spec (k := fresh_session.kernel) rfl rfl
    (run_valid (.create fresh_answers rfl)) 77 (refused_answers _)
  have seen : (ke_handle_create fresh_session.kernel 77 none).map (fun r => (r.1,r.2.counter 77)) = some (0,1) := by
    decide +kernel
  rw [created] at seen
  obtain ⟨first,counter⟩ := Prod.mk.inj (Option.some.inj seen)
  rcases outcome with ⟨_,same⟩ | ⟨t,table,_,valid,_⟩
  · rw [same] at counter
    exact absurd counter (by decide)
  · obtain rfl : h = 0 := first
    obtain ⟨r,t',deleted,valid'⟩ := ke_handle_delete_spec unlocked table valid (show 0 < modulus by decide)
    have no_handle : handles { k with current.handle_table := some t' } 77 = ∅ := by
      rw [handles_eq rfl valid' (by decide)]
      simp
    refine ⟨{ fresh_session with kernel := k },
      { fresh_session with kernel := { k with current.handle_table := some t' } },?_,(by decide : 0 < modulus),?_,
      no_handle,rfl,counter,?_⟩
    · rw [step,created]
      rfl
    · rw [step,deleted]
      rfl
    · intro counted
      have returned := counted.returned 77 (by decide) no_handle rfl
      rw [show k.counter 77 = 1 from counter] at returned
      exact absurd returned (by decide)

end GridOS.Handle
