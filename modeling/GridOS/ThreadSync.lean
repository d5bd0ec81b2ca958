import GridOS.Handle

/-!
The system call that waits for objects, in `thread_sync_ops` of `source/kernel/srv.c`. The objects and their handles are
put into two arrays on the stack, of which `written` tells what has been filled in. `kt_wait_objects` neither takes nor
drops references and has no handle table, so only its answer is seen.
-/
namespace GridOS.ThreadSync
open GridOS.Words GridOS.I2p GridOS.Handle

def Y_SYNC_MAX_OBJS_COUNT : Int := 64
def KE_WAIT_ERROR : Int := -3

/-- The two arrays. -/
structure Stack where
  sync_handles : Nat → Nat
  sync_objs : Nat → Nat
  written : Nat → Bool

/-- The arrays before anything is written. -/
def unwritten (sync_handles sync_objs : Nat → Nat) : Stack := ⟨sync_handles,sync_objs,fun _ => false⟩

def Stack.write (a : Stack) (i handle object : Nat) : Stack where
  sync_handles := Function.update a.sync_handles i handle
  sync_objs := Function.update a.sync_objs i object
  written := Function.update a.written i true

/-- The loop that translates, with `n` rounds to go; false for the jump to `unwind_translate`, `none` when a translation does
    not return. -/
def translate_objs (sync_objects : Nat → Nat) : Nat → Nat → Kernel → Stack → Option (Bool × Kernel × Stack)
  | 0, _, k, a => some (true,k,a)
  | n+1, i, k, a =>
    match ke_handle_translate k (sync_objects i) with
    | none => none
    | some (object,k) =>
      let a := a.write i (sync_objects i) object
      if object = 0 then some (false,k,a) else translate_objs sync_objects n (i + 1) k a

/-- The loop that puts the objects, with `n` rounds to go. -/
def unwind_translate (a : Stack) : Nat → Nat → Kernel → Kernel
  | 0, _, k => k
  | n+1, i, k =>
    unwind_translate a n (i + 1) (if a.sync_objs i ≠ 0 then ke_handle_put k (a.sync_handles i) (a.sync_objs i) else k)

/-- `stray` tells whether an element was read that had not been written. -/
structure Result where
  ret : Int
  kernel : Kernel
  stray : Bool

/-- The branch `SYSREQ_THREAD_SYNC_WAIT_OBJS`. -/
def wait_objs (kt_wait_objects : Int → (Nat → Nat) → Option Int) (a : Stack) (count : Int) (sync_objects : Nat → Nat)
    (k : Kernel) : Option Result :=
  if count > Y_SYNC_MAX_OBJS_COUNT then some ⟨KE_WAIT_ERROR,k,false⟩ else
  match translate_objs sync_objects count.toNat 0 k a with
  | none => none
  | some (all,k,a) =>
    (if all then kt_wait_objects count a.sync_objs else some KE_WAIT_ERROR).map (fun ret =>
      ⟨ret,unwind_translate a count.toNat 0 k,(List.range count.toNat).any (fun i => !a.written i)⟩)

/-- When the call returns, the counters are as before and every element that was read had been written. -/
def Neutral (kt_wait_objects : Int → (Nat → Nat) → Option Int) (a : Stack) (count : Int) (sync_objects : Nat → Nat)
    (k : Kernel) : Prop :=
  ∀ r, wait_objs kt_wait_objects a count sync_objects k = some r → r.kernel.counter = k.counter ∧ r.stray = false

/-- What the handle is translated to, if the translation returns. -/
def found (k : Kernel) (handle : Nat) : Option Nat := (ke_handle_translate k handle).map Prod.fst

/-- The handle at `p` is the first one of the array that is dead. -/
def FirstDead (k : Kernel) (sync_objects : Nat → Nat) (p : Nat) : Prop :=
  (∀ q < p, ∃ object, found k (sync_objects q) = some object ∧ object ≠ 0) ∧ found k (sync_objects p) = some 0

/-! ### Counters -/

section Counters
variable {counter : Nat → Int}

/-- The counters when each of the objects is referred to once more. -/
def taken (counter : Nat → Int) (objects : List Nat) : Nat → Int :=
  objects.foldl (fun counter object => Function.update counter object (atomic_inc (counter object))) counter

/-- The counters when each of the objects is referred to once less. -/
def dropped (counter : Nat → Int) (objects : List Nat) : Nat → Int :=
  objects.foldl (fun counter object => Function.update counter object (atomic_dec (counter object))) counter

/-- A counter is an `int`. -/
def IsInt (counter : Int) : Prop := INT_MIN ≤ counter ∧ counter ≤ INT_MAX

theorem isInt_inc {c : Int} (int : IsInt c) : IsInt (atomic_inc c) := by
  unfold IsInt atomic_inc INT_MIN INT_MAX at *
  split <;> omega

theorem dec_inc {c : Int} (int : IsInt c) : atomic_dec (atomic_inc c) = c := by
  unfold IsInt atomic_dec atomic_inc INT_MIN INT_MAX at *
  split <;> split <;> omega

theorem isInt_iterate {c : Int} (int : IsInt c) (n : Nat) : IsInt (atomic_inc^[n] c) := by
  induction n with
  | zero => exact int
  | succ n ih =>
    rw [Function.iterate_succ_apply']
    exact isInt_inc ih

theorem dec_inc_iterate {c : Int} (int : IsInt c) (n : Nat) : atomic_dec^[n] (atomic_inc^[n] c) = c := by
  induction n with
  | zero => rfl
  | succ n ih => rw [Function.iterate_succ_apply,Function.iterate_succ_apply',dec_inc (isInt_iterate int n),ih]

/-- The steps that change the counters of a list of objects one after the other. -/
theorem foldl_update (change : Int → Int) (objects : List Nat) (counter : Nat → Int) (object : Nat) :
    objects.foldl (fun counter object => Function.update counter object (change (counter object))) counter object =
      change^[objects.count object] (counter object) := by
  induction objects generalizing counter with
  | nil => rfl
  | cons first rest ih =>
    rw [List.foldl_cons,ih]
    by_cases same : first = object
    · rw [same,Function.update_self,List.count_cons_self,Function.iterate_succ_apply]
    · rw [Function.update_of_ne (Ne.symm same),List.count_cons_of_ne same]

/-- References that are taken and dropped again leave the counters as they were. -/
theorem dropped_taken (ints : ∀ object, IsInt (counter object)) (objects : List Nat) :
    dropped (taken counter objects) objects = counter := by
  funext object
  rw [dropped,foldl_update,taken,foldl_update,dec_inc_iterate (ints object)]

end Counters

/-! ### The two loops -/

section Loops
variable {k k' : Kernel} {a a' : Stack} {sync_objects : Nat → Nat} {n i : Nat} {all : Bool}

/-- What a translation that returns does. -/
theorem translate_cases {handle object : Nat} (done : ke_handle_translate k handle = some (object,k')) :
    k'.current = k.current ∧
      k'.counter = if object = 0 then k.counter else Function.update k.counter object (atomic_inc (k.counter object)) := by
  obtain ⟨⟨table,lock⟩,counter⟩ := k
  cases lock with
  | true => simp [ke_handle_translate,get_handle_table] at done
  | false => cases table with
    | none => simp [ke_handle_translate,get_handle_table] at done
    | some t => cases at_handle : i2p_find t handle with
      | none => simp [ke_handle_translate,get_handle_table,at_handle] at done
      | some kobject =>
        rw [ke_handle_translate_spec rfl rfl at_handle] at done
        obtain ⟨rfl,rfl⟩ := Prod.mk.inj (Option.some.inj done)
        by_cases null : kobject = 0
        · simp [null]
        · simp [null,cl_object_inc_ref]

/-- A translation looks at the process and not at the counters. -/
theorem found_congr (same : k'.current = k.current) (handle : Nat) : found k' handle = found k handle := by
  obtain ⟨⟨table,lock⟩,counter⟩ := k
  obtain ⟨current',counter'⟩ := k'
  obtain rfl := same
  cases lock with
  | true => rfl
  | false => cases table with
    | none => rfl
    | some t => cases at_handle : i2p_find t handle with
      | none => simp [found,ke_handle_translate,get_handle_table,at_handle]
      | some object =>
        rw [found,found,ke_handle_translate_spec rfl rfl at_handle,ke_handle_translate_spec rfl rfl at_handle]
        rfl

/-- What the loop of translations has done when it ends: it has translated a prefix of the handles, whose objects are in the
    array, and behind a dead handle there is a null in the array. -/
structure Translated (sync_objects : Nat → Nat) (n i : Nat) (k : Kernel) (a : Stack) (all : Bool) (k' : Kernel) (a' : Stack)
    (objects : List Nat) : Prop where
  counter : k'.counter = taken k.counter objects
  real : ∀ object ∈ objects, object ≠ 0
  length : if all then objects.length = n else objects.length < n
  here : ∀ j object, objects[j]? = some object → a'.sync_objs (i + j) = object
  live : ∀ j < objects.length, ∃ object, found k (sync_objects (i + j)) = some object ∧ object ≠ 0
  dead : all = false → found k (sync_objects (i + objects.length)) = some 0 ∧ a'.sync_objs (i + objects.length) = 0
  before : ∀ j < i, a'.sync_objs j = a.sync_objs j
  written : ∀ j, a'.written j = true ↔ a.written j = true ∨ i ≤ j ∧ j < i + objects.length + if all then 0 else 1

theorem translate_spec (done : translate_objs sync_objects n i k a = some (all,k',a')) :
    ∃ objects, Translated sync_objects n i k a all k' a' objects := by
  induction n generalizing i k a with
  | zero =>
    obtain ⟨rfl,rest⟩ := Prod.mk.inj (Option.some.inj done)
    obtain ⟨rfl,rfl⟩ := Prod.mk.inj rest
    exact ⟨[],rfl,by simp,by simp,by simp,by simp,by simp,fun _ _ => rfl,by simp⟩
  | succ n ih =>
    rw [translate_objs] at done
    split at done
    · cases done
    · rename_i object k₁ translated
      have at_i : found k (sync_objects i) = some object := by rw [found,translated]; rfl
      obtain ⟨current,counter⟩ := translate_cases translated
      simp only at done
      split at done
      · rename_i null
        obtain ⟨rfl,rest⟩ := Prod.mk.inj (Option.some.inj done)
        obtain ⟨rfl,rfl⟩ := Prod.mk.inj rest
        rw [if_pos null] at counter
        refine ⟨[],counter,by simp,by simp,by simp,by simp,?_,?_,?_⟩
        · intro _
          exact ⟨by simpa [null] using at_i,by simp [Stack.write,null]⟩
        · intro j below
          exact Function.update_of_ne (by omega) _ _
        · intro j
          by_cases same : j = i
          · simp [Stack.write,same]
          · simp [Stack.write,same]
            omega
      · rename_i real
        rw [if_neg real] at counter
        obtain ⟨objects,rest⟩ := ih done
        refine ⟨object :: objects,?_,?_,?_,?_,?_,?_,?_,?_⟩
        · rw [rest.counter,counter]
          rfl
        · intro other member
          rcases List.mem_cons.mp member with rfl | later
          · exact real
          · exact rest.real other later
        · have := rest.length
          cases all <;> simp_all
        · intro j other at_j
          cases j with
          | zero =>
            obtain rfl : object = other := by simpa using at_j
            rw [Nat.add_zero,rest.before i (Nat.lt_succ_self i)]
            exact Function.update_self ..
          | succ j =>
            rw [show i + (j + 1) = i + 1 + j by omega]
            exact rest.here j other (by simpa using at_j)
        · intro j below
          cases j with
          | zero => exact ⟨object,at_i,real⟩
          | succ j =>
            rw [show i + (j + 1) = i + 1 + j by omega,← found_congr current]
            exact rest.live j (by simpa using below)
        · intro dead
          rw [List.length_cons,show i + (objects.length + 1) = i + 1 + objects.length by omega,← found_congr current]
          exact rest.dead dead
        · intro j below
          rw [rest.before j (by omega)]
          exact Function.update_of_ne (by omega) _ _
        · intro j
          rw [rest.written j,List.length_cons]
          generalize (if all = true then 0 else 1) = last
          by_cases same : j = i
          · have filled : (a.write i (sync_objects i) object).written j = true := same ▸ Function.update_self ..
            simp only [filled,true_or,true_iff]
            omega
          · have unchanged : (a.write i (sync_objects i) object).written j = a.written j := Function.update_of_ne same _ _
            rw [unchanged]
            exact or_congr_right (by omega)

theorem unwind_add (a : Stack) (m n i : Nat) (k : Kernel) :
    unwind_translate a (m + n) i k = unwind_translate a n (i + m) (unwind_translate a m i k) := by
  induction m generalizing i k with
  | zero => rw [Nat.zero_add,Nat.add_zero,unwind_translate]
  | succ m ih =>
    rw [Nat.add_right_comm,unwind_translate,ih,unwind_translate,show i + 1 + m = i + (m + 1) by omega]

theorem unwind_objects {objects : List Nat} (here : ∀ j object, objects[j]? = some object → a.sync_objs (i + j) = object)
    (real : ∀ object ∈ objects, object ≠ 0) :
    (unwind_translate a objects.length i k).counter = dropped k.counter objects := by
  induction objects generalizing i k with
  | nil => rfl
  | cons object rest ih =>
    have first : a.sync_objs i = object := here 0 object rfl
    rw [List.length_cons,unwind_translate,first,if_pos (real object (List.mem_cons_self ..)),ih]
    · rfl
    · intro j other at_j
      rw [show i + 1 + j = i + (j + 1) by omega]
      exact here (j + 1) other at_j
    · exact fun other member => real other (List.mem_cons_of_mem _ member)

/-- The loop reaches the first dead handle. -/
theorem translate_reaches {p : Nat} (live : ∀ q < p, ∃ object, found k (sync_objects (i + q)) = some object ∧ object ≠ 0)
    (dead : found k (sync_objects (i + p)) = some 0) (below : p < n) :
    ∃ k' a', translate_objs sync_objects n i k a = some (false,k',a') := by
  induction n generalizing i k a p with
  | zero => exact absurd below (Nat.not_lt_zero p)
  | succ n ih =>
    cases p with
    | zero =>
      obtain ⟨⟨object,k₁⟩,translated,null⟩ := Option.map_eq_some_iff.mp dead
      obtain rfl : object = 0 := null
      rw [translate_objs,show ke_handle_translate k (sync_objects i) = some (0,k₁) from translated]
      exact ⟨_,_,rfl⟩
    | succ p =>
      obtain ⟨object,at_i,real⟩ := live 0 (Nat.succ_pos p)
      obtain ⟨⟨object',k₁⟩,translated,same⟩ := Option.map_eq_some_iff.mp at_i
      obtain rfl : object' = object := same
      obtain ⟨current,_⟩ := translate_cases translated
      rw [translate_objs,show ke_handle_translate k (sync_objects i) = some (object',k₁) from translated]
      simp only [if_neg real]
      refine ih (p := p) ?_ ?_ (by omega)
      · intro q below
        rw [show i + 1 + q = i + (q + 1) by omega,found_congr current]
        exact live (q + 1) (by omega)
      · rw [show i + 1 + p = i + (p + 1) by omega,found_congr current]
        exact dead

end Loops

/-! ### The call -/

section Call
variable {kt_wait_objects : Int → (Nat → Nat) → Option Int} {sync_handles sync_objs : Nat → Nat} {count : Int}
  {sync_objects : Nat → Nat} {k : Kernel}

theorem firstDead_unique {p q : Nat} (first : FirstDead k sync_objects p) (second : FirstDead k sync_objects q) : p = q := by
  rcases Nat.lt_trichotomy p q with below | same | above
  · obtain ⟨object,there,real⟩ := second.1 p below
    exact absurd (Option.some.inj (there.symm.trans first.2)) real
  · exact same
  · obtain ⟨object,there,real⟩ := first.1 q above
    exact absurd (Option.some.inj (there.symm.trans second.2)) real

/-- The elements that are read have been written when all handles are translated or the last one is the first dead one. -/
theorem stray_iff {k' : Kernel} {a' : Stack} {all : Bool} {objects : List Nat} {n : Nat}
    (did : Translated sync_objects n 0 k (unwritten sync_handles sync_objs) all k' a' objects) :
    (List.range n).any (fun i => !a'.written i) = false ↔ all = true ∨ objects.length + 1 = n := by
  have length := did.length
  simp only [List.any_eq_false,List.mem_range,Bool.not_eq_true',Bool.not_eq_false,did.written,unwritten]
  cases all with
  | true =>
    simp only [if_true] at length
    simp [length]
  | false =>
    simp only [Bool.false_eq_true,if_false] at length
    simp only [Bool.false_eq_true,false_or,if_false]
    constructor
    · intro read
      have := read (n - 1) (by omega)
      omega
    · intro last j below
      omega

theorem unwound (counters : ∀ object, IsInt (k.counter object)) {k' : Kernel} {a' : Stack} {all : Bool} {objects : List Nat}
    {n : Nat} (did : Translated sync_objects n 0 k (unwritten sync_handles sync_objs) all k' a' objects)
    (last : all = true ∨ objects.length + 1 = n) : (unwind_translate a' n 0 k').counter = k.counter := by
  have put : (unwind_translate a' objects.length 0 k').counter = k.counter := by
    rw [unwind_objects did.here did.real,did.counter,dropped_taken counters]
  have length := did.length
  cases all with
  | true =>
    simp only [if_true] at length
    rwa [← length]
  | false =>
    have at_dead := (did.dead rfl).2
    rw [← last.resolve_left Bool.false_ne_true,unwind_add,unwind_translate,unwind_translate,at_dead,if_neg (by simp)]
    exact put

/-- The call is neutral exactly when no handle is dead in front of the last one. -/
theorem wait_neutral_iff (counters : ∀ object, IsInt (k.counter object)) :
    Neutral kt_wait_objects (unwritten sync_handles sync_objs) count sync_objects k ↔
      count > Y_SYNC_MAX_OBJS_COUNT ∨ ∀ p : Nat, p < count → FirstDead k sync_objects p → p + 1 = count := by
  by_cases many : count > Y_SYNC_MAX_OBJS_COUNT
  · refine iff_of_true ?_ (.inl many)
    intro r done
    rw [wait_objs,if_pos many] at done
    cases done
    exact ⟨rfl,rfl⟩
  rw [or_iff_right many]
  constructor
  · intro neutral p below first
    obtain ⟨k',a',translated⟩ := translate_reaches (a := unwritten sync_handles sync_objs) (i := 0)
      (by simpa using first.1) (by simpa using first.2) (show p < count.toNat by omega)
    obtain ⟨objects,did⟩ := translate_spec translated
    have same : objects.length = p := firstDead_unique ⟨by simpa using did.live,by simpa using (did.dead rfl).1⟩ first
    have clean := (neutral _ (by rw [wait_objs,if_neg many,translated]; rfl)).2
    have last := ((stray_iff did).mp clean).resolve_left Bool.false_ne_true
    omega
  · intro condition r done
    rw [wait_objs,if_neg many] at done
    split at done
    · cases done
    · rename_i all k' a' translated
      obtain ⟨ret,_,rfl⟩ := Option.map_eq_some_iff.mp done
      obtain ⟨objects,did⟩ := translate_spec translated
      have last : all = true ∨ objects.length + 1 = count.toNat := by
        cases all with
        | true => exact .inl rfl
        | false =>
          have length := did.length
          simp only [Bool.false_eq_true,if_false] at length
          have := condition objects.length (by omega) ⟨by simpa using did.live,by simpa using (did.dead rfl).1⟩
          exact .inr (by omega)
      exact ⟨unwound counters did last,(stray_iff did).mpr last⟩

end Call

/-- A process waits for one handle, which is dead. -/
theorem wait_neutral_one : Neutral (fun _ _ => some 0) (unwritten (fun _ => 0) (fun _ => 77)) 1 (fun _ => 0) fresh_session.kernel :=
  (wait_neutral_iff fresh_started.counters).mpr (.inr (fun p below _ => by omega))

/-- It waits for two dead handles: what the second element of the array happens to hold is taken for an object, and loses a
    reference. -/
theorem unwritten_put : ¬Neutral (fun _ _ => some 0) (unwritten (fun _ => 0) (fun _ => 77)) 2 (fun _ => 0) fresh_session.kernel := by
  intro neutral
  have put : (wait_objs (fun _ _ => some 0) (unwritten (fun _ => 0) (fun _ => 77)) 2 (fun _ => 0) fresh_session.kernel).map
      (fun r => (r.kernel.counter 77,r.stray)) = some (-1,true) := by decide +kernel
  obtain ⟨r,done,seen⟩ := Option.map_eq_some_iff.mp put
  have clean := (neutral r done).2
  rw [(Prod.mk.inj seen).2] at clean
  cases clean

end GridOS.ThreadSync
