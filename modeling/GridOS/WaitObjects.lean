import GridOS.Sync

/-!
`kt_wait_objects` of `source/kernel/process/sync.c` one access at a time: every lock and unlock, every node that is
linked and unlinked, and the sleeps between them is a step of its own, and the steps of any number of threads are
interleaved. The wait nodes are on the stack of their thread. A sleep may end at any time, since a wakeup, a timer and
a killer all end it.
-/
namespace GridOS.WaitObjects
open GridOS.Words GridOS.Sync

/-- `(-1UL)`. -/
def KE_SYNC_WAIT_INFINITE : Nat := 4294967295

/-- A node, by its thread and its place in `static_wait_node`. -/
structure thread_wait (τ : Type) where
  who : τ
  node : Nat
  deriving DecidableEq

/-- The loops of the function and the two sides of its sleep. -/
inductive Label
  | check_satisfied
  | signaled
  | add
  | unlock
  | sleep
  | slept
  | out1
  | out2
  | unlock_out
  | out3
  deriving DecidableEq

/-- The locals of a call; `expire` is that of `kt_timeout`. The last three fields are counted along: how often each
    object was locked and unlocked, and on which objects `satisfied` was called. -/
structure Frame (ι : Type) where
  objects : List ι
  timeout : Nat
  translated_timeout : Bool
  waiter_added : Bool
  waited_node : Nat → Bool
  status : kt_sync_wait_result Nat
  expire : Option Nat
  label : Label
  i : Nat
  locked : ι → Nat
  unlocked : ι → Nat
  satisfied : List ι

/-- What threads share. `stray` tells whether a node was unlinked that was not in the queue of its object. -/
structure Shared (ι ω τ : Type) where
  objects : ι → ω
  lock : ι → Option τ
  wait_queue : ι → List (thread_wait τ)
  stray : Bool

section Code
variable {ι ω τ : Type} [DecidableEq ι] [DecidableEq τ]

def goto (f : Frame ι) (label : Label) : Frame ι := { f with label, i := 0 }

/-- To `out2` with the status. -/
def leave (f : Frame ι) (status : kt_sync_wait_result Nat) : Frame ι := { goto f .out2 with status }

def spin_lock (t : τ) (object : ι) (s : Shared ι ω τ) : Shared ι ω τ :=
  { s with lock := Function.update s.lock object (some t) }

def spin_unlock (object : ι) (s : Shared ι ω τ) : Shared ι ω τ :=
  { s with lock := Function.update s.lock object none }

def list_add_tail (node : thread_wait τ) (object : ι) (s : Shared ι ω τ) : Shared ι ω τ :=
  { s with wait_queue := Function.update s.wait_queue object (s.wait_queue object ++ [node]) }

/-- The node leaves the queue that it is in; `object` is the one whose queue it is meant to leave. -/
def list_del (node : thread_wait τ) (object : ι) (s : Shared ι ω τ) : Shared ι ω τ :=
  { s with
    wait_queue := fun i => (s.wait_queue i).erase node
    stray := s.stray || !(s.wait_queue object).contains node }

/-- A round of a loop that locks the objects, with `next` behind it; `none` while it spins. -/
def lock_round (t : τ) (next : Label) (s : Shared ι ω τ) (f : Frame ι) : Option (Shared ι ω τ × Frame ι) :=
  match f.objects[f.i]? with
  | none => some (s,goto f next)
  | some object => if s.lock object ≠ none then none else
    some (spin_lock t object s,
      { f with i := f.i + 1, locked := Function.update f.locked object (f.locked object + 1) })

def unlock_round (next : Label) (s : Shared ι ω τ) (f : Frame ι) : Shared ι ω τ × Frame ι :=
  match f.objects[f.i]? with
  | none => (s,goto f next)
  | some object => (spin_unlock object s,
      { f with i := f.i + 1, unlocked := Function.update f.unlocked object (f.unlocked object + 1) })

/-- Whether the object is triggered now; behind the last one, whether there is time to wait. -/
def signaled_round (ops : kt_sync_ops ω τ) (t : τ) (s : Shared ι ω τ) (f : Frame ι) : Shared ι ω τ × Frame ι :=
  match f.objects[f.i]? with
  | none =>
    if f.timeout = 0 then (s,leave f .KE_WAIT_TIMEDOUT)
    else if f.waiter_added then (s,goto f .unlock)
    else (s,goto f .add)
  | some object => match ops.signaled (s.objects object) t with
    | .KE_SYNC_SIGNALED_OK =>
      ({ s with objects := Function.update s.objects object (ops.satisfied (s.objects object) t) },
        { leave f (.KE_WAIT_OK f.i) with satisfied := f.satisfied ++ [object] })
    | .KE_SYNC_SIGNALED_CANCEL => (s,leave f .KE_WAIT_ABANDONED)
    | .KE_SYNC_SIGNALED_NO => (s,{ f with i := f.i + 1 })

def add_round (t : τ) (s : Shared ι ω τ) (f : Frame ι) : Shared ι ω τ × Frame ι :=
  match f.objects[f.i]? with
  | none => (s,{ goto f .unlock with waiter_added := true })
  | some object =>
    if f.i < KE_SYNC_STATIC_WAIT_NODE_COUNT then
      (list_add_tail ⟨t,f.i⟩ object s,
        { f with i := f.i + 1, waited_node := Function.update f.waited_node f.i true })
    else (s,{ leave f .KE_WAIT_ABANDONED with waited_node := Function.update f.waited_node f.i false })

/-- Up to the sleep, in `kt_timeout` when there is a timeout. -/
def begin_sleep (hal_ms_to_tick : Nat → Nat) (tick : Nat) (f : Frame ι) : Frame ι :=
  if f.translated_timeout = false ∧ f.timeout = KE_SYNC_WAIT_INFINITE then { goto f .slept with expire := none } else
  let timeout := if f.translated_timeout then f.timeout else add (hal_ms_to_tick f.timeout) 1
  { goto f .slept with timeout, translated_timeout := true, expire := some (add timeout tick) }

/-- What is left of the timeout; a difference that is negative as a signed word is no time. -/
def time_left (expire tick : Nat) : Nat := if sub expire tick < 2147483648 then sub expire tick else 0

/-- Behind the sleep. -/
def end_sleep (tick : Nat) (killing : Bool) (f : Frame ι) : Frame ι :=
  let timeout := match f.expire with
    | none => f.timeout
    | some expire => time_left expire tick
  if killing then { goto f .out1 with timeout, status := .KE_WAIT_ABANDONED } else { goto f .check_satisfied with timeout }

def del_round (t : τ) (s : Shared ι ω τ) (f : Frame ι) : Shared ι ω τ × Frame ι :=
  match f.objects[f.i]? with
  | none => (s,goto f .unlock_out)
  | some object =>
    if f.waited_node f.i = false then (s,{ f with i := f.i + 1 }) else
    let s := list_del ⟨t,f.i⟩ object s
    if f.i < KE_SYNC_STATIC_WAIT_NODE_COUNT then (s,{ f with i := f.i + 1 }) else (s,goto f .unlock_out)

/-- The next step of a call, which sees the time and whether the thread is being killed; `none` while it spins, and
    behind its end. -/
def advance (ops : kt_sync_ops ω τ) (hal_ms_to_tick : Nat → Nat) (t : τ) (tick : Nat) (killing : Bool)
    (s : Shared ι ω τ) (f : Frame ι) : Option (Shared ι ω τ × Frame ι) :=
  match f.label with
  | .check_satisfied => lock_round t .signaled s f
  | .signaled => some (signaled_round ops t s f)
  | .add => some (add_round t s f)
  | .unlock => some (unlock_round .sleep s f)
  | .sleep => some (s,begin_sleep hal_ms_to_tick tick f)
  | .slept => some (s,end_sleep tick killing f)
  | .out1 => lock_round t .out2 s f
  | .out2 => some (del_round t s f)
  | .unlock_out => some (unlock_round .out3 s f)
  | .out3 => none

/-- A call up to `check_satisfied`, or to `out3` for what is not supported. -/
def kt_wait_objects (objects : List ι) (wait_all : Bool) (timeout : Nat) : Frame ι where
  objects := objects
  timeout := timeout
  translated_timeout := false
  waiter_added := false
  waited_node := fun _ => false
  status := .KE_WAIT_ABANDONED
  expire := none
  label := if wait_all ∨ objects.length > Y_SYNC_MAX_OBJS_COUNT then .out3 else .check_satisfied
  i := 0
  locked := fun _ => 0
  unlocked := fun _ => 0
  satisfied := []

end Code

/-! ### Runs -/

/-- What is shared, and the calls that have not returned. -/
structure World (ι ω τ : Type) where
  shared : Shared ι ω τ
  calls : τ → Option (Frame ι)

/-- A thread calls, goes on with its call or returns from it; outside of a call it may lock and unlock objects; and an
    object may change. -/
inductive Act (ι ω τ : Type)
  | call (t : τ) (objects : List ι) (wait_all : Bool) (timeout : Nat)
  | advance (t : τ) (tick : Nat) (killing : Bool)
  | ret (t : τ)
  | lock (t : τ) (object : ι)
  | unlock (t : τ) (object : ι)
  | change (object : ι) (state : ω)

section Steps
variable {ι ω τ : Type} [DecidableEq ι] [DecidableEq τ] (ops : kt_sync_ops ω τ) (hal_ms_to_tick : Nat → Nat)

/-- One step; `none` when the thread is elsewhere or spins. -/
def step (w : World ι ω τ) : Act ι ω τ → Option (World ι ω τ)
  | .call t objects wait_all timeout => match w.calls t with
    | some _ => none
    | none => some { w with calls := Function.update w.calls t (some (kt_wait_objects objects wait_all timeout)) }
  | .advance t tick killing => match w.calls t with
    | none => none
    | some f => (advance ops hal_ms_to_tick t tick killing w.shared f).map
      (fun r => { shared := r.1, calls := Function.update w.calls t (some r.2) })
  | .ret t => match w.calls t with
    | none => none
    | some f => if f.label = .out3 then some { w with calls := Function.update w.calls t none } else none
  | .lock t object => if w.calls t = none ∧ w.shared.lock object = none then
      some { w with shared := spin_lock t object w.shared } else none
  | .unlock t object => if w.calls t = none ∧ w.shared.lock object = some t then
      some { w with shared := spin_unlock object w.shared } else none
  | .change object state => some { w with shared.objects := Function.update w.shared.objects object state }

/-- A wait is for distinct objects. -/
def Distinct : Act ι ω τ → Prop
  | .call _ objects _ _ => objects.Nodup
  | _ => True

/-- Nobody waits, and nothing is locked. -/
def initial (objects : ι → ω) : World ι ω τ := ⟨⟨objects,fun _ => none,fun _ => [],false⟩,fun _ => none⟩

inductive Run : World ι ω τ → Prop
  | start (objects : ι → ω) : Run (initial objects)
  | act {w w' : World ι ω τ} {act : Act ι ω τ} (run : Run w) (distinct : Distinct act)
      (done : step ops hal_ms_to_tick w act = some w') : Run w'

end Steps

/-- A call that is about to return has left nothing behind: none of its nodes is in a queue, it has unlocked every object
    as often as locked, and `satisfied` was called on the object that it reports and on no other. -/
structure Traceless {ι ω τ : Type} (s : Shared ι ω τ) (t : τ) (f : Frame ι) : Prop where
  unlinked : ∀ object node, ⟨t,node⟩ ∉ s.wait_queue object
  unlocked : ∀ object, f.locked object = f.unlocked object
  satisfied : match f.status with
    | .KE_WAIT_OK id => ∃ object, f.objects[id]? = some object ∧ f.satisfied = [object]
    | _ => f.satisfied = []

/-! ### What a step can do -/

section Moves
variable {ι ω τ : Type} [DecidableEq ι] [DecidableEq τ] {ops : kt_sync_ops ω τ} {hal_ms_to_tick : Nat → Nat}
  {t : τ} {s s' : Shared ι ω τ} {f f' : Frame ι}

/-- The steps of a call. -/
inductive Moves (ops : kt_sync_ops ω τ) (t : τ) (s : Shared ι ω τ) (f : Frame ι) : Shared ι ω τ → Frame ι → Prop
  | lock {object : ι} (label : f.label = .check_satisfied ∨ f.label = .out1) (here : f.objects[f.i]? = some object) :
      Moves ops t s f (spin_lock t object s)
        { f with i := f.i + 1, locked := Function.update f.locked object (f.locked object + 1) }
  | locked {next : Label} (label : f.label = .check_satisfied ∧ next = .signaled ∨ f.label = .out1 ∧ next = .out2)
      (last : f.objects[f.i]? = none) : Moves ops t s f s (goto f next)
  | satisfied {object : ι} (label : f.label = .signaled) (here : f.objects[f.i]? = some object) :
      Moves ops t s f { s with objects := Function.update s.objects object (ops.satisfied (s.objects object) t) }
        { leave f (.KE_WAIT_OK f.i) with satisfied := f.satisfied ++ [object] }
  | canceled (label : f.label = .signaled) : Moves ops t s f s (leave f .KE_WAIT_ABANDONED)
  | unsignaled {object : ι} (label : f.label = .signaled) (here : f.objects[f.i]? = some object) :
      Moves ops t s f s { f with i := f.i + 1 }
  | timedout (label : f.label = .signaled) : Moves ops t s f s (leave f .KE_WAIT_TIMEDOUT)
  | again (label : f.label = .signaled) (added : f.waiter_added = true) : Moves ops t s f s (goto f .unlock)
  | first (label : f.label = .signaled) (bare : f.waiter_added = false) : Moves ops t s f s (goto f .add)
  | add {object : ι} (label : f.label = .add) (here : f.objects[f.i]? = some object)
      (few : f.i < KE_SYNC_STATIC_WAIT_NODE_COUNT) : Moves ops t s f (list_add_tail ⟨t,f.i⟩ object s)
        { f with i := f.i + 1, waited_node := Function.update f.waited_node f.i true }
  | refused (label : f.label = .add) : Moves ops t s f s
      { leave f .KE_WAIT_ABANDONED with waited_node := Function.update f.waited_node f.i false }
  | added (label : f.label = .add) (last : f.objects[f.i]? = none) :
      Moves ops t s f s { goto f .unlock with waiter_added := true }
  | unlock {object : ι} (label : f.label = .unlock ∨ f.label = .unlock_out) (here : f.objects[f.i]? = some object) :
      Moves ops t s f (spin_unlock object s)
        { f with i := f.i + 1, unlocked := Function.update f.unlocked object (f.unlocked object + 1) }
  | unlocked {next : Label} (label : f.label = .unlock ∧ next = .sleep ∨ f.label = .unlock_out ∧ next = .out3)
      (last : f.objects[f.i]? = none) : Moves ops t s f s (goto f next)
  | sleep {timeout : Nat} {translated_timeout : Bool} {expire : Option Nat} (label : f.label = .sleep) :
      Moves ops t s f s { goto f .slept with timeout, translated_timeout, expire }
  | killed {timeout : Nat} (label : f.label = .slept) :
      Moves ops t s f s { goto f .out1 with timeout, status := .KE_WAIT_ABANDONED }
  | restarted {timeout : Nat} (label : f.label = .slept) : Moves ops t s f s { goto f .check_satisfied with timeout }
  | skipped {object : ι} (label : f.label = .out2) (here : f.objects[f.i]? = some object)
      (none_here : f.waited_node f.i = false) : Moves ops t s f s { f with i := f.i + 1 }
  | deleted {object : ι} (label : f.label = .out2) (here : f.objects[f.i]? = some object)
      (node_here : f.waited_node f.i = true) (few : f.i < KE_SYNC_STATIC_WAIT_NODE_COUNT) :
      Moves ops t s f (list_del ⟨t,f.i⟩ object s) { f with i := f.i + 1 }
  | broken {object : ι} (label : f.label = .out2) (node_here : f.waited_node f.i = true)
      (many : ¬f.i < KE_SYNC_STATIC_WAIT_NODE_COUNT) :
      Moves ops t s f (list_del ⟨t,f.i⟩ object s) (goto f .unlock_out)
  | all_deleted (label : f.label = .out2) (last : f.objects[f.i]? = none) : Moves ops t s f s (goto f .unlock_out)

theorem lock_round_moves {next : Label}
    (label : f.label = .check_satisfied ∧ next = .signaled ∨ f.label = .out1 ∧ next = .out2)
    (done : lock_round t next s f = some (s',f')) : Moves ops t s f s' f' := by
  simp only [lock_round] at done
  split at done
  · cases done
    exact .locked label ‹_›
  · split at done
    · cases done
    · cases done
      exact .lock (label.imp And.left And.left) ‹_›

theorem unlock_round_moves {next : Label}
    (label : f.label = .unlock ∧ next = .sleep ∨ f.label = .unlock_out ∧ next = .out3) :
    Moves ops t s f (unlock_round next s f).1 (unlock_round next s f).2 := by
  simp only [unlock_round]
  split
  · exact .unlocked label ‹_›
  · exact .unlock (label.imp And.left And.left) ‹_›

theorem signaled_round_moves (label : f.label = .signaled) :
    Moves ops t s f (signaled_round ops t s f).1 (signaled_round ops t s f).2 := by
  simp only [signaled_round]
  split
  · split
    · exact .timedout label
    · split
      · exact .again label ‹_›
      · exact .first label (Bool.eq_false_iff.mpr ‹_›)
  · split
    · exact .satisfied label ‹_›
    · exact .canceled label
    · exact .unsignaled label ‹_›

theorem add_round_moves (label : f.label = .add) : Moves ops t s f (add_round t s f).1 (add_round t s f).2 := by
  simp only [add_round]
  split
  · exact .added label ‹_›
  · split
    · exact .add label ‹_› ‹_›
    · exact .refused label

theorem begin_sleep_moves (label : f.label = .sleep) (tick : Nat) :
    Moves ops t s f s (begin_sleep hal_ms_to_tick tick f) := by
  simp only [begin_sleep]
  split
  · exact .sleep label
  · exact .sleep label

theorem end_sleep_moves (label : f.label = .slept) (tick : Nat) (killing : Bool) :
    Moves ops t s f s (end_sleep tick killing f) := by
  cases killing with
  | false => exact .restarted label
  | true => exact .killed label

theorem del_round_moves (label : f.label = .out2) : Moves ops t s f (del_round t s f).1 (del_round t s f).2 := by
  simp only [del_round]
  split
  · exact .all_deleted label ‹_›
  · split
    · exact .skipped label ‹_› ‹_›
    · have node_here := Bool.of_not_eq_false ‹_›
      split
      · exact .deleted label ‹_› node_here ‹_›
      · exact .broken label node_here ‹_›

theorem Moves.of_eq {r : Shared ι ω τ × Frame ι} (moves : Moves ops t s f r.1 r.2) (done : some r = some (s',f')) :
    Moves ops t s f s' f' := by
  cases done
  exact moves

theorem advance_moves {tick : Nat} {killing : Bool} (done : advance ops hal_ms_to_tick t tick killing s f = some (s',f')) :
    Moves ops t s f s' f' := by
  cases label : f.label with
  | check_satisfied =>
    simp only [advance,label] at done
    exact lock_round_moves (.inl ⟨label,rfl⟩) done
  | signaled =>
    simp only [advance,label] at done
    exact (signaled_round_moves label).of_eq done
  | add =>
    simp only [advance,label] at done
    exact (add_round_moves label).of_eq done
  | unlock =>
    simp only [advance,label] at done
    exact (unlock_round_moves (.inl ⟨label,rfl⟩)).of_eq done
  | sleep =>
    simp only [advance,label,Option.some.injEq,Prod.mk.injEq] at done
    obtain ⟨rfl,rfl⟩ := done
    exact begin_sleep_moves label tick
  | slept =>
    simp only [advance,label,Option.some.injEq,Prod.mk.injEq] at done
    obtain ⟨rfl,rfl⟩ := done
    exact end_sleep_moves label tick killing
  | out1 =>
    simp only [advance,label] at done
    exact lock_round_moves (.inr ⟨label,rfl⟩) done
  | out2 =>
    simp only [advance,label] at done
    exact (del_round_moves label).of_eq done
  | unlock_out =>
    simp only [advance,label] at done
    exact (unlock_round_moves (.inr ⟨label,rfl⟩)).of_eq done
  | out3 => simp [advance,label] at done

end Moves

/-! ### What every step keeps -/

section Kept
variable {ι ω τ : Type} {t : τ} {f f' : Frame ι} {object : ι}

/-- The call has the object of the number locked. -/
def holds (f : Frame ι) (id : Nat) : Bool :=
  match f.label with
  | .check_satisfied => id < f.i
  | .signaled => true
  | .add => true
  | .unlock => f.i ≤ id
  | .sleep => false
  | .slept => false
  | .out1 => id < f.i
  | .out2 => true
  | .unlock_out => f.i ≤ id
  | .out3 => false

/-- The call has the node in a queue. -/
def linked (f : Frame ι) (node : Nat) : Bool :=
  f.waited_node node && match f.label with
  | .out2 => f.i ≤ node
  | .unlock_out => false
  | .out3 => false
  | _ => true

/-- The call is past the check that ends it. -/
def Label.ending : Label → Bool
  | .out2 => true
  | .unlock_out => true
  | .out3 => true
  | _ => false

/-- What the locals of a call keep. -/
structure Kept (f : Frame ι) : Prop where
  distinct : f.objects.Nodup
  few : ∀ node, f.waited_node node = true → node < f.objects.length ∧ node < KE_SYNC_STATIC_WAIT_NODE_COUNT
  adding : f.label = .add → ∀ node, f.waited_node node = true → node < f.i
  bare : f.waiter_added = false → f.label ≠ .add → f.label.ending = false → ∀ node, f.waited_node node = false
  held : ∀ id object, f.objects[id]? = some object →
    f.locked object = f.unlocked object + if holds f id then 1 else 0
  others : ∀ object, object ∉ f.objects → f.locked object = f.unlocked object
  report : match f.status with
    | .KE_WAIT_OK id => ∃ object, f.objects[id]? = some object ∧ f.satisfied = [object]
    | _ => f.satisfied = []
  unsatisfied : f.label.ending = false → f.satisfied = []

/-- An object has one number. -/
theorem Kept.unique {id other : Nat} (kept : Kept f) (here : f.objects[id]? = some object)
    (there : f.objects[other]? = some object) : id = other := by
  obtain ⟨below,same⟩ := List.getElem?_eq_some_iff.mp here
  obtain ⟨below',same'⟩ := List.getElem?_eq_some_iff.mp there
  exact (kept.distinct.getElem_inj_iff).mp (same.trans same'.symm)

theorem below_last {id : Nat} (last : f.objects[f.i]? = none) (here : f.objects[id]? = some object) : id < f.i := by
  have := List.getElem?_eq_none_iff.mp last
  obtain ⟨below,_⟩ := List.getElem?_eq_some_iff.mp here
  omega

variable [DecidableEq ι] [DecidableEq τ] {ops : kt_sync_ops ω τ} {s s' : Shared ι ω τ}

omit [DecidableEq τ] in
/-- Counting the object whose turn it is leaves the count of the others. -/
theorem Kept.counted (kept : Kept f) (here : f.objects[f.i]? = some object) {id : Nat} {other : ι}
    (there : f.objects[id]? = some other) (count : ι → Nat) :
    Function.update count object (count object + 1) other = count other + if id = f.i then 1 else 0 := by
  by_cases same : id = f.i
  · obtain rfl : object = other := Option.some.inj (here.symm.trans (same ▸ there))
    rw [Function.update_self,if_pos same]
  · have different : other ≠ object := by
      rintro rfl
      exact same (kept.unique there here)
    rw [Function.update_of_ne different,if_neg same,Nat.add_zero]

omit [DecidableEq τ] in
theorem lock_held (kept : Kept f) (label : f.label = .check_satisfied ∨ f.label = .out1)
    (here : f.objects[f.i]? = some object) {id : Nat} {other : ι} (there : f.objects[id]? = some other) :
    Function.update f.locked object (f.locked object + 1) other =
      f.unlocked other + if holds { f with i := f.i + 1 } id then 1 else 0 := by
  have locking : ∀ i, holds { f with i } id = decide (id < i) := by
    intro i
    rcases label with label | label <;> simp [holds,label]
  have before := kept.held id other there
  rw [show holds f id = decide (id < f.i) from locking f.i] at before
  rw [kept.counted here there,before,locking,Nat.add_assoc]
  congr 1
  rcases Nat.lt_trichotomy id f.i with less | same | more
  · simp [less,less.ne,Nat.lt_succ_of_lt less]
  · simp [same]
  · simp [more,more.ne',Nat.not_lt_of_gt more]

omit [DecidableEq τ] in
theorem unlock_held (kept : Kept f) (label : f.label = .unlock ∨ f.label = .unlock_out)
    (here : f.objects[f.i]? = some object) {id : Nat} {other : ι} (there : f.objects[id]? = some other) :
    f.locked other = Function.update f.unlocked object (f.unlocked object + 1) other +
      if holds { f with i := f.i + 1 } id then 1 else 0 := by
  have unlocking : ∀ i, holds { f with i } id = decide (i ≤ id) := by
    intro i
    rcases label with label | label <;> simp [holds,label]
  have before := kept.held id other there
  rw [show holds f id = decide (f.i ≤ id) from unlocking f.i] at before
  rw [kept.counted here there,before,unlocking,Nat.add_assoc]
  congr 1
  rcases Nat.lt_trichotomy id f.i with less | same | more
  · simp [less.ne,Nat.not_le_of_gt less,Nat.not_le_of_gt (Nat.lt_succ_of_lt less)]
  · simp [same]
  · simp [more.ne',more.le,Nat.succ_le_of_lt more]

theorem held_step (kept : Kept f) (moves : Moves ops t s f s' f') : ∀ id object, f'.objects[id]? = some object →
    f'.locked object = f'.unlocked object + if holds f' id then 1 else 0 := by
  intro id object there
  cases moves with
  | lock label here => exact lock_held kept label here there
  | unlock label here => exact unlock_held kept label here there
  | locked label last =>
    have before := kept.held id object there
    have all := below_last last there
    rcases label with ⟨label,rfl⟩ | ⟨label,rfl⟩ <;> simpa [holds,goto,label,all] using before
  | unlocked label last =>
    have before := kept.held id object there
    have all := below_last last there
    rcases label with ⟨label,rfl⟩ | ⟨label,rfl⟩ <;> simpa [holds,goto,label,Nat.not_le.mpr all] using before
  | broken label node_here many => exact absurd (kept.few _ node_here).2 many
  | _ => simp_all [holds,leave,goto,kept.held id object there]

theorem others_step (kept : Kept f) (moves : Moves ops t s f s' f') :
    ∀ object, object ∉ f'.objects → f'.locked object = f'.unlocked object := by
  intro object elsewhere
  cases moves with
  | lock label here =>
    have different : object ≠ _ := fun same => elsewhere (same ▸ List.mem_of_getElem? here)
    exact (Function.update_of_ne different _ _).trans (kept.others object elsewhere)
  | unlock label here =>
    have different : object ≠ _ := fun same => elsewhere (same ▸ List.mem_of_getElem? here)
    exact (kept.others object elsewhere).trans (Function.update_of_ne different _ _).symm
  | _ => exact kept.others object elsewhere

theorem report_step (kept : Kept f) (moves : Moves ops t s f s' f') : match f'.status with
    | .KE_WAIT_OK id => ∃ object, f'.objects[id]? = some object ∧ f'.satisfied = [object]
    | _ => f'.satisfied = [] := by
  have early := kept.unsatisfied
  cases moves with
  | satisfied label here =>
    refine ⟨_,here,?_⟩
    simp [early (by rw [label]; rfl)]
  | canceled label => exact early (by rw [label]; rfl)
  | timedout label => exact early (by rw [label]; rfl)
  | refused label => exact early (by rw [label]; rfl)
  | killed label => exact early (by rw [label]; rfl)
  | _ => exact kept.report

theorem unsatisfied_step (kept : Kept f) (moves : Moves ops t s f s' f') : f'.label.ending = false → f'.satisfied = [] := by
  have early := kept.unsatisfied
  intro going
  cases moves with
  | locked label last => rcases label with ⟨label,rfl⟩ | ⟨label,rfl⟩ <;> simp_all [goto,Label.ending]
  | unlocked label last => rcases label with ⟨label,rfl⟩ | ⟨label,rfl⟩ <;> simp_all [goto,Label.ending]
  | lock label here => exact early going
  | unlock label here => exact early going
  | _ => simp_all [leave,goto,Label.ending]

theorem few_step (kept : Kept f) (moves : Moves ops t s f s' f') : ∀ node, f'.waited_node node = true →
    node < f'.objects.length ∧ node < KE_SYNC_STATIC_WAIT_NODE_COUNT := by
  intro node waited
  cases moves with
  | add label here few =>
    by_cases new : node = f.i
    · obtain ⟨below,_⟩ := List.getElem?_eq_some_iff.mp here
      rw [new]
      exact ⟨below,few⟩
    · exact kept.few node ((Function.update_of_ne new _ _).symm.trans waited)
  | refused label =>
    by_cases new : node = f.i
    · simp [new] at waited
    · exact kept.few node ((Function.update_of_ne new _ _).symm.trans waited)
  | _ => exact kept.few node waited

theorem adding_step (kept : Kept f) (moves : Moves ops t s f s' f') :
    f'.label = .add → ∀ node, f'.waited_node node = true → node < f'.i := by
  intro adding node waited
  cases moves with
  | first label bare =>
    have none_yet := kept.bare bare (by simp [label]) (by simp [label,Label.ending]) node
    simp_all [goto]
  | add label here few =>
    by_cases new : node = f.i
    · exact new ▸ Nat.lt_succ_self _
    · exact Nat.lt_succ_of_lt (kept.adding label node ((Function.update_of_ne new _ _).symm.trans waited))
  | locked label last => rcases label with ⟨label,rfl⟩ | ⟨label,rfl⟩ <;> simp_all [goto]
  | unlocked label last => rcases label with ⟨label,rfl⟩ | ⟨label,rfl⟩ <;> simp_all [goto]
  | lock label here => rcases label with label | label <;> simp_all
  | unlock label here => rcases label with label | label <;> simp_all
  | _ => simp_all [leave,goto]

theorem bare_step (kept : Kept f) (moves : Moves ops t s f s' f') : f'.waiter_added = false → f'.label ≠ .add →
    f'.label.ending = false → ∀ node, f'.waited_node node = false := by
  intro bare not_adding going
  have before := kept.bare
  cases moves with
  | locked label last => rcases label with ⟨label,rfl⟩ | ⟨label,rfl⟩ <;> simp_all [goto,Label.ending]
  | unlocked label last => rcases label with ⟨label,rfl⟩ | ⟨label,rfl⟩ <;> simp_all [goto,Label.ending]
  | lock label here => exact before bare not_adding going
  | unlock label here => exact before bare not_adding going
  | _ => simp_all [leave,goto,Label.ending]

theorem kept_step (kept : Kept f) (moves : Moves ops t s f s' f') : Kept f' where
  distinct := by
    cases moves <;> exact kept.distinct
  few := few_step kept moves
  adding := adding_step kept moves
  bare := bare_step kept moves
  held := held_step kept moves
  others := others_step kept moves
  report := report_step kept moves
  unsatisfied := unsatisfied_step kept moves

/-! ### The queues -/

/-- The nodes of the thread that are in the queues are those that its call has linked. -/
def Queued (s : Shared ι ω τ) (t : τ) (f : Frame ι) : Prop :=
  ∀ object node, ⟨t,node⟩ ∈ s.wait_queue object ↔ f.objects[node]? = some object ∧ linked f node = true

/-- What a step of a call keeps of the queues. -/
structure QueuesKept (t : τ) (s s' : Shared ι ω τ) : Prop where
  nodup : (∀ object, (s.wait_queue object).Nodup) → ∀ object, (s'.wait_queue object).Nodup
  others : ∀ u object node, u ≠ t → ((⟨u,node⟩ : thread_wait τ) ∈ s'.wait_queue object ↔ ⟨u,node⟩ ∈ s.wait_queue object)

omit [DecidableEq ι] [DecidableEq τ] in
theorem QueuesKept.same (same : s'.wait_queue = s.wait_queue) : QueuesKept t s s' where
  nodup := fun nodup object => same ▸ nodup object
  others := fun u object node _ => by rw [same]

omit [DecidableEq ι] [DecidableEq τ] in
theorem Queued.same (queued : Queued s t f) (objects : f'.objects = f.objects) (queue : s'.wait_queue = s.wait_queue)
    (links : ∀ node, linked f' node = linked f node) : Queued s' t f' := by
  intro object node
  rw [objects,queue,links]
  exact queued object node

omit [DecidableEq ι] in
/-- The node that is added next is in no queue yet. -/
theorem unlinked_next (kept : Kept f) (label : f.label = .add) : f.waited_node f.i = false := by
  by_contra waited
  exact absurd (kept.adding label f.i (Bool.of_not_eq_false waited)) (Nat.lt_irrefl _)

omit [DecidableEq τ] in
theorem queued_add (kept : Kept f) (queued : Queued s t f) (label : f.label = .add)
    (here : f.objects[f.i]? = some object) : Queued (list_add_tail ⟨t,f.i⟩ object s) t
      { f with i := f.i + 1, waited_node := Function.update f.waited_node f.i true } := by
  intro other node
  have links : ∀ g : Frame ι, g.label = .add → linked g node = g.waited_node node := by
    intro g adding
    simp [linked,adding]
  rw [links _ (by exact label)]
  have before := queued other node
  rw [links f label] at before
  by_cases new : node = f.i
  · subst new
    rw [unlinked_next kept label] at before
    have absent : ⟨t,f.i⟩ ∉ s.wait_queue other := fun member => Bool.false_ne_true (before.mp member).2
    by_cases same : other = object
    · simp [list_add_tail,same,here]
    · simp [list_add_tail,same,here,absent,Ne.symm same]
  · by_cases same : other = object
    · simpa [list_add_tail,same,new] using same ▸ before
    · simpa [list_add_tail,same,new] using before

theorem queued_del (nodup : ∀ object, (s.wait_queue object).Nodup) (queued : Queued s t f)
    (label : f.label = .out2) : Queued (list_del ⟨t,f.i⟩ object s) t { f with i := f.i + 1 } := by
  intro other node
  have before := queued other node
  have member : (⟨t,node⟩ : thread_wait τ) ∈ (s.wait_queue other).erase ⟨t,f.i⟩ ↔
      node ≠ f.i ∧ ⟨t,node⟩ ∈ s.wait_queue other := by
    rw [(nodup other).mem_erase_iff]
    simp
  have links : ∀ i, linked { f with i } node = (f.waited_node node && decide (i ≤ node)) := by
    intro i
    simp [linked,label]
  rw [show linked f node = _ from links f.i] at before
  rw [links]
  refine member.trans ((and_congr_right' before).trans ?_)
  have side : f.i + 1 ≤ node ↔ node ≠ f.i ∧ f.i ≤ node := by omega
  simp only [Bool.and_eq_true,decide_eq_true_eq,side]
  tauto

theorem queued_step (kept : Kept f) (nodup : ∀ object, (s.wait_queue object).Nodup) (queued : Queued s t f)
    (moves : Moves ops t s f s' f') : Queued s' t f' := by
  cases moves with
  | add label here few => exact queued_add kept queued label here
  | deleted label here node_here few => exact queued_del nodup queued label
  | broken label node_here many => exact absurd (kept.few _ node_here).2 many
  | lock label here => exact queued.same rfl rfl (fun node => by rcases label with label | label <;> simp [linked,label])
  | unlock label here =>
    exact queued.same rfl rfl (fun node => by rcases label with label | label <;> simp [linked,label])
  | locked label last =>
    refine queued.same rfl rfl (fun node => ?_)
    rcases label with ⟨label,rfl⟩ | ⟨label,rfl⟩ <;> simp [linked,goto,label]
  | unlocked label last =>
    refine queued.same rfl rfl (fun node => ?_)
    rcases label with ⟨label,rfl⟩ | ⟨label,rfl⟩ <;> simp [linked,goto,label]
  | refused label =>
    refine queued.same rfl rfl (fun node => ?_)
    have unchanged : Function.update f.waited_node f.i false = f.waited_node :=
      Function.update_eq_self_iff.mpr (unlinked_next kept label).symm
    simp [linked,leave,goto,label,unchanged]
  | skipped label here none_here =>
    refine queued.same rfl rfl (fun node => ?_)
    by_cases same : node = f.i
    · simp [linked,label,same,none_here]
    · have side : decide (f.i < node) = decide (f.i ≤ node) := decide_eq_decide.mpr (by omega)
      simp [linked,label,side]
  | all_deleted label last =>
    refine queued.same rfl rfl (fun node => ?_)
    cases waited : f.waited_node node with
    | false => simp [linked,goto,waited]
    | true =>
      have below := (kept.few node waited).1
      have := List.getElem?_eq_none_iff.mp last
      simp [linked,goto,label]
      omega
  | _ => exact queued.same rfl rfl (fun node => by simp [linked,leave,goto, *])

theorem queues_step (kept : Kept f) (queued : Queued s t f) (moves : Moves ops t s f s' f') : QueuesKept t s s' := by
  cases moves with
  | @add object label here few =>
    have absent : ∀ object, ⟨t,f.i⟩ ∉ s.wait_queue object := by
      intro object member
      have := ((queued object f.i).mp member).2
      simp [linked,unlinked_next kept label] at this
    refine ⟨fun nodup other => ?_,fun u other node different => ?_⟩
    · by_cases same : other = object
      · rw [same]
        simpa [list_add_tail] using (List.nodup_concat _ _).mpr ⟨absent object,nodup object⟩
      · simpa [list_add_tail,same] using nodup other
    · by_cases same : other = object
      · simp [list_add_tail,same,different]
      · simp [list_add_tail,same]
  | deleted label here node_here few =>
    exact ⟨fun nodup other => (nodup other).erase _,fun u other node different =>
      List.mem_erase_of_ne (fun same => different (congrArg thread_wait.who same))⟩
  | broken label node_here many => exact absurd (kept.few _ node_here).2 many
  | _ => exact .same rfl

/-- Every node that is unlinked is in the queue of its object. -/
theorem stray_step (kept : Kept f) (queued : Queued s t f) (clean : s.stray = false) (moves : Moves ops t s f s' f') :
    s'.stray = false := by
  cases moves with
  | deleted label here node_here few =>
    have member := (queued _ f.i).mpr ⟨here,by simp [linked,label,node_here]⟩
    simp [list_del,clean,member]
  | broken label node_here many => exact absurd (kept.few _ node_here).2 many
  | _ => exact clean

end Kept

/-! ### Runs -/

section Runs
variable {ι ω τ : Type} [DecidableEq ι] [DecidableEq τ] {ops : kt_sync_ops ω τ} {hal_ms_to_tick : Nat → Nat}
  {w w' : World ι ω τ} {t : τ} {f f' : Frame ι}

/-- What every reached state keeps. -/
structure Inv (w : World ι ω τ) : Prop where
  nodup : ∀ object, (w.shared.wait_queue object).Nodup
  kept : ∀ t f, w.calls t = some f → Kept f ∧ Queued w.shared t f
  outside : ∀ t, w.calls t = none → ∀ object node, ⟨t,node⟩ ∉ w.shared.wait_queue object
  clean : w.shared.stray = false

omit [DecidableEq ι] in
/-- A step of one thread that leaves it with a frame. -/
theorem Inv.put {s' : Shared ι ω τ} (inv : Inv w) (queues : QueuesKept t w.shared s') (clean : s'.stray = false)
    (kept : Kept f) (queued : Queued s' t f) : Inv ⟨s',Function.update w.calls t (some f)⟩ where
  nodup := queues.nodup inv.nodup
  clean := clean
  kept := by
    intro u g calls
    by_cases same : u = t
    · subst same
      simp only [Function.update_self,Option.some.injEq] at calls
      subst calls
      exact ⟨kept,queued⟩
    · simp only [Function.update_of_ne same] at calls
      obtain ⟨kept_u,queued_u⟩ := inv.kept u g calls
      exact ⟨kept_u,fun object node => (queues.others u object node same).trans (queued_u object node)⟩
  outside := by
    intro u away object node
    by_cases same : u = t
    · subst same
      simp at away
    · simp only [Function.update_of_ne same] at away
      exact fun member => inv.outside u away object node ((queues.others u object node same).mp member)

omit [DecidableEq ι] [DecidableEq τ] in
/-- A change of locks or of the state of an object. -/
theorem Inv.shared {s' : Shared ι ω τ} (inv : Inv w) (queue : s'.wait_queue = w.shared.wait_queue)
    (stray : s'.stray = w.shared.stray) : Inv ⟨s',w.calls⟩ where
  nodup := fun object => queue ▸ inv.nodup object
  clean := stray.trans inv.clean
  kept := fun t f calls => ⟨(inv.kept t f calls).1,(inv.kept t f calls).2.same rfl queue (fun _ => rfl)⟩
  outside := fun t away object node => queue ▸ inv.outside t away object node

omit [DecidableEq ι] [DecidableEq τ] in
theorem unlinked_out (label : f.label = .out3) (node : Nat) : linked f node = false := by
  simp [linked,label]

omit [DecidableEq ι] in
theorem call_kept {objects : List ι} (distinct : objects.Nodup) (wait_all : Bool) (timeout : Nat) :
    Kept (kt_wait_objects objects wait_all timeout) where
  distinct := distinct
  few := by simp [kt_wait_objects]
  adding := by simp [kt_wait_objects]
  bare := by simp [kt_wait_objects]
  held := by
    intro id object here
    simp only [holds,kt_wait_objects]
    split <;> simp
  others := fun _ _ => rfl
  report := rfl
  unsatisfied := fun _ => rfl

theorem inv_step {act : Act ι ω τ} (inv : Inv w) (distinct : Distinct act)
    (done : step ops hal_ms_to_tick w act = some w') : Inv w' := by
  cases act with
  | call t objects wait_all timeout =>
    simp only [step] at done
    split at done
    · cases done
    · cases done
      rename_i away
      refine inv.put (.same rfl) inv.clean (call_kept distinct wait_all timeout) (fun object node => ?_)
      simp [inv.outside t away object node,linked,kt_wait_objects]
  | advance t tick killing =>
    simp only [step] at done
    split at done
    · cases done
    · rename_i f calls
      obtain ⟨⟨s',f'⟩,advanced,same⟩ := Option.map_eq_some_iff.mp done
      subst same
      obtain ⟨kept,queued⟩ := inv.kept t f calls
      have moves := advance_moves advanced
      exact inv.put (queues_step kept queued moves) (stray_step kept queued inv.clean moves) (kept_step kept moves)
        (queued_step kept inv.nodup queued moves)
  | ret t =>
    simp only [step] at done
    split at done
    · cases done
    · rename_i f calls
      split at done
      · rename_i label
        cases done
        refine ⟨inv.nodup,fun u g there => ?_,fun u away object node => ?_,inv.clean⟩
        · by_cases same : u = t
          · simp [same] at there
          · exact inv.kept u g ((Function.update_of_ne same _ _).symm.trans there)
        · by_cases same : u = t
          · subst same
            intro member
            have link := (((inv.kept u f calls).2 object node).mp member).2
            rw [unlinked_out label] at link
            cases link
          · exact inv.outside u ((Function.update_of_ne same _ _).symm.trans away) object node
      · cases done
  | lock t object =>
    simp only [step] at done
    split at done
    · cases done
      exact inv.shared rfl rfl
    · cases done
  | unlock t object =>
    simp only [step] at done
    split at done
    · cases done
      exact inv.shared rfl rfl
    · cases done
  | change object state =>
    cases done
    exact inv.shared rfl rfl

theorem run_inv (run : Run ops hal_ms_to_tick w) : Inv w := by
  induction run with
  | start objects =>
    exact ⟨fun _ => .nil,by simp [initial],by simp [initial],rfl⟩
  | act run distinct done inv => exact inv_step inv distinct done

omit [DecidableEq τ] in
theorem Inv.traceless (inv : Inv w) (calls : w.calls t = some f) (label : f.label = .out3) : Traceless w.shared t f where
  unlinked := by
    intro object node member
    have link := (((inv.kept t f calls).2 object node).mp member).2
    rw [unlinked_out label] at link
    cases link
  unlocked := by
    intro object
    have kept := (inv.kept t f calls).1
    by_cases member : object ∈ f.objects
    · obtain ⟨id,here⟩ := List.mem_iff_getElem?.mp member
      simpa [holds,label] using kept.held id object here
    · exact kept.others object member
  satisfied := (inv.kept t f calls).1.report

omit [DecidableEq ι] [DecidableEq τ] in
/-- Two nodes of a thread are in different queues, since its objects are distinct. -/
theorem Inv.same_node (inv : Inv w) {object : ι} {a b : thread_wait τ} (here : a ∈ w.shared.wait_queue object)
    (there : b ∈ w.shared.wait_queue object) (same : a.who = b.who) : a = b := by
  obtain ⟨t,node⟩ := a
  obtain ⟨u,other⟩ := b
  obtain rfl : t = u := same
  cases calls : w.calls t with
  | none => exact absurd here (inv.outside t calls object node)
  | some f =>
    obtain ⟨kept,queued⟩ := inv.kept t f calls
    rw [kept.unique ((queued object node).mp here).1 ((queued object other).mp there).1]

omit [DecidableEq ι] in
theorem Inv.once (inv : Inv w) (t : τ) (object : ι) :
    ((w.shared.wait_queue object).filter (fun node => node.who = t)).length ≤ 1 := by
  have nodup := (inv.nodup object).filter (fun node => decide (node.who = t))
  match mine : (w.shared.wait_queue object).filter (fun node => decide (node.who = t)) with
  | [] => rw [mine]; exact Nat.zero_le _
  | [_] => rw [mine]; exact Nat.le_refl _
  | a :: b :: rest =>
    have member : ∀ node ∈ a :: b :: rest, node ∈ w.shared.wait_queue object ∧ node.who = t := by
      intro node member
      rw [← mine] at member
      obtain ⟨queued,who⟩ := List.mem_filter.mp member
      exact ⟨queued,of_decide_eq_true who⟩
    obtain ⟨here,mine_a⟩ := member a (by simp)
    obtain ⟨there,mine_b⟩ := member b (by simp)
    have same := inv.same_node here there (mine_a.trans mine_b.symm)
    rw [mine,same] at nodup
    simp at nodup

/-- Whatever the interleaving, a queue never has two nodes of a thread, no node is unlinked that is not in the queue of its
    object, and a wait returns without a trace. -/
theorem wait_traceless (run : Run ops hal_ms_to_tick w) :
    (∀ t object, ((w.shared.wait_queue object).filter (fun node => node.who = t)).length ≤ 1) ∧
      w.shared.stray = false ∧ ∀ t f, w.calls t = some f → f.label = .out3 → Traceless w.shared t f :=
  ⟨(run_inv run).once,(run_inv run).clean,fun _ _ calls label => (run_inv run).traceless calls label⟩

theorem run_acts {acts : List (Act ι ω τ)} (run : Run ops hal_ms_to_tick w) (distinct : ∀ act ∈ acts, Distinct act)
    (done : acts.foldlM (step ops hal_ms_to_tick) w = some w') : Run ops hal_ms_to_tick w' := by
  induction acts generalizing w with
  | nil => cases done; exact run
  | cons act rest ih =>
    obtain ⟨w'',first,then_⟩ := Option.bind_eq_some_iff.mp (List.foldlM_cons.symm.trans done)
    exact ih (run.act (distinct act (by simp)) first) (fun act member => distinct act (by simp [member])) then_

end Runs

/-- A flag that the wait resets. -/
def flag : kt_sync_ops Bool Unit where
  satisfied := fun _ _ => false
  signaled := fun state _ => if state then .KE_SYNC_SIGNALED_OK else .KE_SYNC_SIGNALED_NO

/-- A wait for one of two flags, the second of which is set during the sleep. -/
def woken : List (Act Bool Bool Unit) := .call () [false,true] false 10 :: List.replicate 13 (.advance () 0 false) ++
  .change true true :: List.replicate 12 (.advance () 1 false)

theorem wait_traceless_woken : ∃ w f, woken.foldlM (step flag id) (initial (fun _ => false)) = some w ∧
    w.calls () = some f ∧ f.status = .KE_WAIT_OK 1 ∧ Traceless w.shared () f := by
  have run : ∀ w, woken.foldlM (step flag id) (initial (fun _ => false)) = some w → Run flag id w :=
    fun w done => run_acts (.start _) (by simp [woken,Distinct]) done
  refine ⟨_,_,rfl,rfl,rfl,(wait_traceless (run _ rfl)).2.2 () _ rfl rfl⟩

end GridOS.WaitObjects
