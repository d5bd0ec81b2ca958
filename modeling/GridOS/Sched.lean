import GridOS.Words
import GridOS.Bits

/-!
The scheduler's queues: `kt_sleep`, `kt_wakeup` and `kt_wakeup_driver` of
`source/kernel/process/sleep.c` and `select_in_queue` of `source/kernel/process/sched.c`
on one CPU. Threads are named by their addresses. A thread's `queue_list` is linked
in the run queues that hold the thread, and is empty when none does. A function is
`none` when the kernel panics.
-/
namespace GridOS.Sched
open GridOS.Words GridOS.Bits

def KT_STATE_RUNNING : BitVec 32 := 1
def KT_STATE_WAITING_SYNC : BitVec 32 := 2
def KT_STATE_WAITING_MSG : BitVec 32 := 3
def KT_STATE_KILLING : BitVec 32 := 4
def KT_STATE_MASK : BitVec 32 := 0xffff
def KT_STATE_ADD_FORCE_BY_SYSTEM : BitVec 32 := 1 <<< 17
def KT_STATE_ADD_DIEING : BitVec 32 := 1 <<< 18
def KT_STATE_ADD_NO_SWITCHING : BitVec 32 := 1 <<< 20
def KT_PRIORITY_COUNT : Nat := BITS_PER_LONG

/-- The scheduler's part of a `struct ko_thread`; `desc_of_driver` is whether the pointer is
    not null. -/
structure ko_thread where
  desc_of_driver : Bool
  state : BitVec 32
  priority_level : Nat
  wakeup_count : Nat

/-- The scheduler's part of a `struct kc_cpu`. -/
structure kc_cpu where
  cur : Nat
  run_queue : Nat → List Nat
  run_count : Nat → Nat
  driver_thread : Option Nat
  run_mask : BitVec 32
  running_count : Nat

structure System where
  cpu : kc_cpu
  threads : Nat → ko_thread

/-- `KT_STATUS_BASE` of a state word. -/
def base (state : BitVec 32) : BitVec 32 := state &&& KT_STATE_MASK
/-- The state word with another base state. -/
def set_base (state stat : BitVec 32) : BitVec 32 := (state &&& ~~~KT_STATE_MASK) ||| (stat &&& KT_STATE_MASK)
def has_flag (state flag : BitVec 32) : Bool := state &&& flag != 0

def set_thread (s : System) (who : Nat) (t : ko_thread) : System := { s with threads := Function.update s.threads who t }

def list_empty (cpu : kc_cpu) (who : Nat) : Bool :=
  (List.range KT_PRIORITY_COUNT).all (fun p => !(cpu.run_queue p).contains who)
def list_del_init (cpu : kc_cpu) (who : Nat) : kc_cpu :=
  { cpu with run_queue := fun p => (cpu.run_queue p).erase who }

/-- The part of `kt_sleep` behind the comment `Really suspend`. -/
def dequeue (cpu : kc_cpu) (who priority_level : Nat) : kc_cpu :=
  let cpu := list_del_init cpu who
  let cpu := { cpu with
    run_count := Function.update cpu.run_count priority_level (sub (cpu.run_count priority_level) 1)
    running_count := sub cpu.running_count 1 }
  if cpu.run_count priority_level = 0 then { cpu with run_mask := cpu.run_mask &&& ~~~BitVec.twoPow 32 priority_level }
  else cpu

/-- The part of `kt_wakeup` that moves the thread to its running queue. -/
def enqueue (cpu : kc_cpu) (who priority_level : Nat) : kc_cpu := { cpu with
  run_queue := Function.update cpu.run_queue priority_level (cpu.run_queue priority_level ++ [who])
  run_mask := cpu.run_mask ||| BitVec.twoPow 32 priority_level
  run_count := Function.update cpu.run_count priority_level (add (cpu.run_count priority_level) 1)
  running_count := add cpu.running_count 1 }

/-- `kt_sleep` up to the switch: what it returns, and the queues. -/
def kt_sleep (s : System) (stat : BitVec 32) : Bool × System :=
  let who := s.cpu.cur
  let t := s.threads who
  if base t.state = KT_STATE_RUNNING then
    if has_flag stat KT_STATE_ADD_FORCE_BY_SYSTEM = false ∧ t.wakeup_count ≠ 0 then
      (false,set_thread s who { t with wakeup_count := 0 })
    else
      let state := if has_flag stat KT_STATE_ADD_FORCE_BY_SYSTEM then t.state ||| KT_STATE_ADD_FORCE_BY_SYSTEM
        else t.state
      (true,set_thread { s with cpu := dequeue s.cpu who t.priority_level } who { t with state := set_base state stat })
  else (true,set_thread s who { t with state := set_base t.state stat })

def kt_wakeup_driver (s : System) (who : Nat) : Option System :=
  let t := s.threads who
  if t.desc_of_driver = false then none else
  if list_empty s.cpu who = false then none else
  some (set_thread { s with cpu.driver_thread := some who } who { t with state := set_base t.state KT_STATE_RUNNING })

def kt_wakeup (s : System) (who : Nat) : Option System :=
  let t := s.threads who
  if base t.state ≠ KT_STATE_RUNNING then
    if has_flag t.state KT_STATE_ADD_FORCE_BY_SYSTEM then some s else
    if has_flag t.state KT_STATE_ADD_DIEING then none else
    if list_empty s.cpu who = false then none else
    some (set_thread { s with cpu := enqueue s.cpu who t.priority_level } who
      { t with state := set_base t.state KT_STATE_RUNNING })
  else some (set_thread s who { t with wakeup_count := add t.wakeup_count 1 })

/-- `__ffs`. -/
def ffs (word : BitVec 32) : Nat := ffz (~~~word)

def list_rotate_left : List Nat → List Nat
  | [] => []
  | first :: rest => rest ++ [first]

/-- The next thread and the queues; also `none` when the entry behind the head of an empty
    queue is taken for a thread. -/
def select_in_queue (cpu : kc_cpu) : Option (Nat × kc_cpu) :=
  if cpu.run_mask = 0 then none else
  let bit := ffs cpu.run_mask
  let queue := list_rotate_left (cpu.run_queue bit)
  queue.head?.map (fun next => (next,{ cpu with run_queue := Function.update cpu.run_queue bit queue }))

/-- `__schedule`, with the switch to the next thread. -/
def schedule (s : System) : Option System :=
  (select_in_queue s.cpu).map (fun r => { s with cpu := { r.2 with cur := r.1 } })

def kt_schedule_driver (s : System) : System :=
  match s.cpu.driver_thread with
  | none => s
  | some next => { s with cpu.cur := next }

/-! ### Runs -/

inductive Act
  | sleep (stat : BitVec 32)
  | wakeup (who : Nat)
  | wakeup_driver (who : Nat)
  | select
  | schedule_driver

def step (s : System) : Act → Option System
  | .sleep stat => some (kt_sleep s stat).2
  | .wakeup who => kt_wakeup s who
  | .wakeup_driver who => kt_wakeup_driver s who
  | .select => schedule s
  | .schedule_driver => some (kt_schedule_driver s)

/-- Threads that are woken are objects in memory. -/
def Permitted : Act → Prop
  | .wakeup who => 0 < who ∧ who < modulus
  | _ => True

/-- A CPU behind `init_a_cpu`, and threads that have not been woken yet. -/
structure Started (s : System) : Prop where
  run_queue : ∀ p, s.cpu.run_queue p = []
  run_count : ∀ p, s.cpu.run_count p = 0
  run_mask : s.cpu.run_mask = 0
  running_count : s.cpu.running_count = 0
  state : ∀ t, base (s.threads t).state ≠ KT_STATE_RUNNING
  priority_level : ∀ t, (s.threads t).priority_level < KT_PRIORITY_COUNT

/-- The queues and their three summaries agree, and the selector finds the lowest level that
    has a thread. -/
structure Queued (s : System) : Prop where
  running : ∀ t, (s.threads t).desc_of_driver = false → base (s.threads t).state = KT_STATE_RUNNING →
    (s.cpu.run_queue (s.threads t).priority_level).count t = 1 ∧
    ∀ p < KT_PRIORITY_COUNT, p ≠ (s.threads t).priority_level → t ∉ s.cpu.run_queue p
  resting : ∀ t, (s.threads t).desc_of_driver = false → base (s.threads t).state ≠ KT_STATE_RUNNING →
    ∀ p < KT_PRIORITY_COUNT, t ∉ s.cpu.run_queue p
  run_count : ∀ p < KT_PRIORITY_COUNT, s.cpu.run_count p = (s.cpu.run_queue p).length
  running_count : s.cpu.running_count = ∑ p ∈ Finset.range KT_PRIORITY_COUNT, s.cpu.run_count p
  run_mask : ∀ p < KT_PRIORITY_COUNT, s.cpu.run_mask.getLsbD p = true ↔ s.cpu.run_queue p ≠ []
  selects : ∀ p < KT_PRIORITY_COUNT, s.cpu.run_queue p ≠ [] → (∀ q < p, s.cpu.run_queue q = []) →
    ∃ next cpu', select_in_queue s.cpu = some (next,cpu') ∧ next ∈ s.cpu.run_queue p

/-- The current thread's `kt_sleep` takes it from the queue that it is in, or from none:
    either a pending wakeup keeps it running, or it does not run outside the queues and, unless
    it is a driver's thread, is not given the base state of a running thread. -/
def Tame (s : System) : Act → Prop
  | .sleep stat =>
    let t := s.threads s.cpu.cur
    (base t.state = KT_STATE_RUNNING ∧ has_flag stat KT_STATE_ADD_FORCE_BY_SYSTEM = false ∧ t.wakeup_count ≠ 0) ∨
    ((t.desc_of_driver = true ∨ base stat ≠ KT_STATE_RUNNING) ∧
      (base t.state = KT_STATE_RUNNING → list_empty s.cpu s.cpu.cur = false))
  | _ => True

inductive TameRun (start : System) : System → Prop
  | start : TameRun start start
  | act {s s' : System} {act : Act} (run : TameRun start s) (permitted : Permitted act) (tame : Tame s act)
      (done : step s act = some s') : TameRun start s'

end GridOS.Sched
