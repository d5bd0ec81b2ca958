import Mathlib.Data.Fintype.Card
import Mathlib.Data.Fintype.EquivFin
import Mathlib.Tactic.Ring
import GridOS.FifoLock

/-!
The ticket spin lock of `source/drivers/hal/include/arch/x86/asm/spinlock.h`, which
`ke_spin_lock`, `ke_spin_lock_try` and `ke_spin_unlock` of `source/kernel/lock.c` take. A step
is one access of one thread to the lock, and any number of threads take their steps in any
order. The width of a ticket is a parameter: `__ticket_t` is `u8` or `u16`.
-/
namespace GridOS.TicketLock
open GridOS.FifoLock (Event Queue)

section
variable {w : Nat}

/-- `struct arch_spinlock`, seen as its `tickets`. -/
@[ext]
structure arch_spinlock (w : Nat) where
  head : BitVec w
  tail : BitVec w
deriving DecidableEq

/-- The member `head_tail` of the union. -/
def arch_spinlock.head_tail (lock : arch_spinlock w) : BitVec (w + w) := lock.tail ++ lock.head

def of_head_tail (pair : BitVec (w + w)) : arch_spinlock w := ⟨pair.extractLsb' 0 w,pair.extractLsb' w w⟩

def ARCH_SPIN_LOCK_UNLOCKED : arch_spinlock w := ⟨0,0⟩
def TICKET_SHIFT (w : Nat) : Nat := w

/-- `xadd(&lock->tickets, inc)` adds to the pair as one word; here the lock behind it. -/
def xadd (lock inc : arch_spinlock w) : arch_spinlock w := of_head_tail (lock.head_tail + inc.head_tail)

/-- The lock with one more ticket given out: the `new` of `__ticket_spin_trylock`. -/
def next_ticket (old : arch_spinlock w) : arch_spinlock w :=
  of_head_tail (old.head_tail + (1#(w + w) <<< TICKET_SHIFT w))

/-- `__ticket_spin_is_locked`. -/
def is_locked (lock : arch_spinlock w) : Bool := lock.tail != lock.head

/-- `__ticket_spin_is_contended`. -/
def is_contended (lock : arch_spinlock w) : Bool := decide (1 < (lock.tail - lock.head).toNat)

theorem head_tail_toNat (lock : arch_spinlock w) :
    lock.head_tail.toNat = 2 ^ w * lock.tail.toNat + lock.head.toNat := by
  rw [arch_spinlock.head_tail,BitVec.toNat_append,← Nat.shiftLeft_add_eq_or_of_lt lock.head.isLt,Nat.shiftLeft_eq,
    Nat.mul_comm]

/-- A word that is `n` tickets above the lock, as one word, is the lock with `n` tickets
    more given out. -/
theorem of_head_tail_add (lock : arch_spinlock w) {inc : BitVec (w + w)} {n : BitVec w}
    (value : inc.toNat = 2 ^ w * n.toNat) : of_head_tail (lock.head_tail + inc) = ⟨lock.head,lock.tail + n⟩ := by
  have sum : (lock.head_tail + inc).toNat = 2 ^ w * ((lock.tail.toNat + n.toNat) % 2 ^ w) + lock.head.toNat := by
    have small := lock.head.isLt
    rw [BitVec.toNat_add,head_tail_toNat,value,Nat.pow_add,Nat.mod_mul,
      show 2 ^ w * lock.tail.toNat + lock.head.toNat + 2 ^ w * n.toNat =
        2 ^ w * (lock.tail.toNat + n.toNat) + lock.head.toNat by ring,
      Nat.mul_add_mod,Nat.mod_eq_of_lt small,Nat.mul_add_div (Nat.two_pow_pos w),Nat.div_eq_of_lt small,Nat.add_zero,
      Nat.add_comm]
  rw [of_head_tail,arch_spinlock.mk.injEq]
  constructor
  · apply BitVec.eq_of_toNat_eq
    rw [BitVec.extractLsb'_toNat,sum,Nat.shiftRight_zero,Nat.mul_add_mod,Nat.mod_eq_of_lt lock.head.isLt]
  · apply BitVec.eq_of_toNat_eq
    rw [BitVec.extractLsb'_toNat,sum,Nat.shiftRight_eq_div_pow,Nat.mul_add_div (Nat.two_pow_pos w),
      Nat.div_eq_of_lt lock.head.isLt,Nat.add_zero,Nat.mod_mod,BitVec.toNat_add]

theorem xadd_eq (lock : arch_spinlock w) : xadd lock ⟨0,1⟩ = ⟨lock.head,lock.tail + 1⟩ := by
  apply of_head_tail_add
  exact head_tail_toNat ⟨0,1⟩

theorem next_ticket_eq (old : arch_spinlock w) : next_ticket old = ⟨old.head,old.tail + 1⟩ := by
  apply of_head_tail_add
  rw [BitVec.toNat_shiftLeft,Nat.shiftLeft_eq,TICKET_SHIFT,BitVec.toNat_ofNat,Nat.mul_comm,Nat.pow_add,
    Nat.mul_mod_mul_left,Nat.mod_mod_of_dvd _ (Dvd.intro _ rfl)]
  rfl

theorem head_tail_inj {lock old : arch_spinlock w} (same : lock.head_tail = old.head_tail) : lock = old := by
  have zero (lock : arch_spinlock w) : of_head_tail (lock.head_tail + 0) = ⟨lock.head,lock.tail + 0⟩ :=
    of_head_tail_add lock rfl
  have ⟨heads,tails⟩ := arch_spinlock.mk.inj ((zero lock).symm.trans (same ▸ zero old))
  exact arch_spinlock.ext heads (by simpa using tails)

end

/-! ### The threads at the lock -/

/-- Where a thread is: in `__ticket_spin_lock` with its `inc`, in `__ticket_spin_trylock` with
    its `old`, in `__ticket_spin_unlock` with the `head` that the addition has read, or in none
    of them, before or after it took the lock. -/
inductive Place (w : Nat)
  | outside
  | spinning (inc : arch_spinlock w)
  | trying (old : arch_spinlock w)
  | inside
  | unlocking (head : BitVec w)

structure System (τ : Type) (w : Nat) where
  lock : arch_spinlock w
  place : τ → Place w

inductive Act (τ : Type)
  | spin_lock (t : τ)
  | look (t : τ)
  | spin_trylock (t : τ)
  | cmpxchg (t : τ)
  | spin_unlock (t : τ)
  | add (t : τ)

variable {τ : Type} {w : Nat} [DecidableEq τ]

/-- The thread goes to `place`, and the lock becomes `lock`. -/
def System.move (s : System τ w) (t : τ) (lock : arch_spinlock w) (place : Place w) : System τ w :=
  { lock := lock,place := Function.update s.place t place }

/-- One access of a thread to the lock and what the thread does up to its next one, with the
    events of it. The addition of `__ticket_spin_unlock` has no lock prefix, so it reads and
    writes in two accesses. -/
def step (s : System τ w) : Act τ → Option (System τ w × List (Event τ))
  | .spin_lock t =>
    match s.place t with
    | .outside => some (s.move t (xadd s.lock ⟨0,1⟩) (.spinning s.lock),[.arrive t])
    | _ => none
  | .look t =>
    match s.place t with
    | .spinning inc =>
      if inc.head = inc.tail then some (s.move t s.lock .inside,[.enter t])
      else some (s.move t s.lock (.spinning { inc with head := s.lock.head }),[])
    | _ => none
  | .spin_trylock t =>
    match s.place t with
    | .outside => if s.lock.head ≠ s.lock.tail then some (s,[]) else some (s.move t s.lock (.trying s.lock),[])
    | _ => none
  | .cmpxchg t =>
    match s.place t with
    | .trying old =>
      if s.lock.head_tail = old.head_tail then some (s.move t (next_ticket old) .inside,[.arrive t,.enter t])
      else some (s.move t s.lock .outside,[])
    | _ => none
  | .spin_unlock t =>
    match s.place t with
    | .inside => some (s.move t s.lock (.unlocking s.lock.head),[])
    | _ => none
  | .add t =>
    match s.place t with
    | .unlocking head => some (s.move t { s.lock with head := head + 1 } .outside,[.leave t])
    | _ => none

/-- A run from an initialised lock with all threads outside. -/
inductive Run : List (Event τ) → System τ w → Prop
  | init : Run [] ⟨ARCH_SPIN_LOCK_UNLOCKED,fun _ => .outside⟩
  | step {events more : List (Event τ)} {s s' : System τ w} {act : Act τ} (before : Run events s)
      (step : step s act = some (s',more)) : Run (events ++ more) s'

/-- The thread has the lock. -/
def Holds (s : System τ w) (t : τ) : Prop := s.place t = .inside ∨ ∃ head, s.place t = .unlocking head

/-! ### The queue of the tickets -/

/-- A thread at `place` of a lock with the threads of `queue` at it. The `i`-th of the queue has
    the ticket `head + i`, and has seen its own ticket in `head` only as the first one. -/
def At (lock : arch_spinlock w) (queue : Queue τ) (t : τ) : Place w → Prop
  | .outside => t ∉ queue.threads
  | .trying old => t ∉ queue.threads ∧ old.head = old.tail
  | .spinning inc => ∃ i, queue.threads[i]? = some t ∧ (i = 0 → queue.held = false) ∧
      inc.tail = lock.head + BitVec.ofNat w i ∧ (inc.head = inc.tail → i = 0)
  | .inside => queue.held = true ∧ queue.threads[0]? = some t
  | .unlocking head => queue.held = true ∧ queue.threads[0]? = some t ∧ head = lock.head

/-- The lock and the places of the threads are those of the queue. -/
structure Tracks (s : System τ w) (queue : Queue τ) : Prop where
  tail : s.lock.tail = s.lock.head + BitVec.ofNat w queue.threads.length
  at_place : ∀ t, At s.lock queue t (s.place t)

variable {s s' : System τ w} {queue : Queue τ} {t u : τ} {events more : List (Event τ)} {place : Place w}
  {lock : arch_spinlock w} {rest : List τ} {inc : arch_spinlock w}

/-- Fewer threads than tickets: of these tickets only the first is `head`. -/
theorem eq_zero_of_ticket {head : BitVec w} {i : Nat} (small : i < 2 ^ w) (same : head = head + BitVec.ofNat w i) :
    i = 0 := by
  have value : BitVec.ofNat w i = 0 := by simpa using same.symm
  have := congrArg BitVec.toNat value
  simpa [Nat.mod_eq_of_lt small] using this

omit [DecidableEq τ] in
/-- Only a thread that neither waits nor has the lock is not in the queue. -/
theorem At.mem (here : At lock queue t place) (ticket : place ≠ .outside) (noTry : ∀ old, place ≠ .trying old) :
    t ∈ queue.threads := by
  cases place with
  | outside => exact absurd rfl ticket
  | trying old => exact absurd rfl (noTry old)
  | spinning inc =>
    obtain ⟨i,at_i,-⟩ := here
    exact List.mem_of_getElem? at_i
  | inside => exact List.mem_of_getElem? here.2
  | unlocking head => exact List.mem_of_getElem? here.2.1

/-- The places of a queue are kept when one thread moves and the others stay at theirs. -/
theorem Tracks.move (tracks : Tracks s queue) {next : Queue τ}
    (tail : lock.tail = lock.head + BitVec.ofNat w next.threads.length) (moved : At lock next t place)
    (others : ∀ u, u ≠ t → At s.lock queue u (s.place u) → At lock next u (s.place u)) :
    Tracks (s.move t lock place) next := by
  refine ⟨tail,fun u => ?_⟩
  by_cases same : u = t
  · subst same
    simpa [System.move] using moved
  · simpa [System.move,same] using others u same (tracks.at_place u)

omit [DecidableEq τ] in
/-- A thread that joins the end of the queue leaves the others at their places. -/
theorem At.append (other : u ≠ t) (here : At lock queue u place) :
    At ⟨lock.head,lock.tail + 1⟩ ⟨queue.threads ++ [t],queue.held⟩ u place := by
  have kept {i : Nat} (at_i : queue.threads[i]? = some u) : (queue.threads ++ [t])[i]? = some u := by
    rw [List.getElem?_append_left (List.getElem?_eq_some_iff.mp at_i).1,at_i]
  cases place with
  | outside => simpa [At,other] using here
  | trying old => simpa [At,other] using here
  | spinning inc =>
    obtain ⟨i,at_i,free,tail,first⟩ := here
    exact ⟨i,kept at_i,free,tail,first⟩
  | inside => exact ⟨here.1,kept here.2⟩
  | unlocking head => exact ⟨here.1,kept here.2.1,here.2.2⟩

omit [DecidableEq τ] in
/-- The first one enters, and the others stay at their places. -/
theorem At.enter (other : u ≠ t) (here : At lock ⟨t :: rest,false⟩ u place) : At lock ⟨t :: rest,true⟩ u place := by
  cases place with
  | outside => exact here
  | trying old => exact here
  | spinning inc =>
    obtain ⟨i,at_i,-,tail,first⟩ := here
    refine ⟨i,at_i,?_,tail,first⟩
    rintro rfl
    exact absurd (Option.some.inj at_i).symm other
  | inside => exact absurd here.1 Bool.false_ne_true
  | unlocking head => exact absurd here.1 Bool.false_ne_true

omit [DecidableEq τ] in
/-- The first one leaves, and the others have its tickets one place further to the front. -/
theorem At.leave (other : u ≠ t) (here : At lock ⟨t :: rest,true⟩ u place) :
    At { lock with head := lock.head + 1 } ⟨rest,false⟩ u place := by
  cases place with
  | outside => exact fun mem => here (List.mem_cons_of_mem _ mem)
  | trying old => exact ⟨fun mem => here.1 (List.mem_cons_of_mem _ mem),here.2⟩
  | spinning inc =>
    obtain ⟨i,at_i,-,tail,first⟩ := here
    cases i with
    | zero => exact absurd (Option.some.inj at_i).symm other
    | succ i =>
      refine ⟨i,at_i,fun _ => rfl,?_,fun same => absurd (first same) (Nat.succ_ne_zero i)⟩
      rw [tail,Nat.add_comm i,BitVec.ofNat_add,BitVec.add_assoc]
      rfl
  | inside => exact absurd (Option.some.inj here.2).symm other
  | unlocking head => exact absurd (Option.some.inj here.2.1).symm other

/-! ### Every access is a step of the queue -/

/-- The queue stays as it is when a thread goes on without a change of the lock. -/
theorem Tracks.stay (tracks : Tracks s queue) (moved : At s.lock queue t place) :
    Tracks (s.move t s.lock place) queue :=
  tracks.move tracks.tail moved (fun _ _ here => here)

/-- A thread that takes a ticket joins the end of the queue. -/
theorem Tracks.arrive (tracks : Tracks s queue)
    (moved : At ⟨s.lock.head,s.lock.tail + 1⟩ ⟨queue.threads ++ [t],queue.held⟩ t place) :
    Tracks (s.move t ⟨s.lock.head,s.lock.tail + 1⟩ place) ⟨queue.threads ++ [t],queue.held⟩ := by
  refine tracks.move ?_ moved (fun u other here => here.append other)
  rw [tracks.tail,List.length_append,List.length_singleton,BitVec.ofNat_add,BitVec.add_assoc]
  rfl

omit [DecidableEq τ] in
theorem Tracks.held_of_inside (tracks : Tracks s queue) (holds : Holds s t) :
    ∃ rest, queue = ⟨t :: rest,true⟩ := by
  have here := tracks.at_place t
  have ⟨held,first⟩ : queue.held = true ∧ queue.threads[0]? = some t := by
    obtain inside | ⟨head,unlocking⟩ := holds
    · rw [inside] at here
      exact here
    · rw [unlocking] at here
      exact ⟨here.1,here.2.1⟩
  obtain ⟨threads,held'⟩ := queue
  cases threads with
  | nil => cases first
  | cons t' rest =>
    obtain rfl := Option.some.inj first
    exact ⟨rest,by rw [show held' = true from held]⟩

/-- What an access does to the queue: its events lead from the queue to one that fits. -/
theorem Tracks.after (tracks : Tracks s queue) (run : FifoLock.Run events queue)
    (room : ∀ threads : List τ, threads.Nodup → threads.length ≤ 2 ^ w) {act : Act τ}
    (step : step s act = some (s',more)) : ∃ next, FifoLock.Run (events ++ more) next ∧ Tracks s' next := by
  have space {t : τ} (absent : t ∉ queue.threads) : queue.threads.length < 2 ^ w := by
    have nodup : (queue.threads.concat t).Nodup := by
      rw [List.nodup_concat]
      exact ⟨absent,run.nodup⟩
    simpa [Nat.succ_le_iff] using room _ nodup
  cases act with
  | spin_lock t =>
    have here := tracks.at_place t
    simp only [TicketLock.step] at step
    split at step
    case h_2 => cases step
    case h_1 outside =>
      cases step
      rw [outside] at here
      refine ⟨_,run.step (.arrive here),?_⟩
      rw [xadd_eq]
      refine tracks.arrive ⟨queue.threads.length,by simp,?_,tracks.tail,?_⟩
      · intro none
        by_contra held
        exact run.threads_ne_nil (by simpa using held) (List.length_eq_zero_iff.mp none)
      · exact fun same => eq_zero_of_ticket (space here) (same.trans tracks.tail)
  | look t =>
    have here := tracks.at_place t
    simp only [TicketLock.step] at step
    split at step
    case h_2 => cases step
    case h_1 inc spinning =>
      rw [spinning] at here
      obtain ⟨i,at_i,free,tail,first⟩ := here
      split at step
      case isTrue same =>
        cases step
        obtain rfl := first same
        obtain ⟨threads,held⟩ := queue
        obtain rfl := free rfl
        cases threads with
        | nil => cases at_i
        | cons t' rest =>
          obtain rfl := Option.some.inj at_i
          exact ⟨_,run.step .enter,tracks.move tracks.tail ⟨rfl,rfl⟩ (fun u other here => here.enter other)⟩
      case isFalse =>
        cases step
        have low := (List.getElem?_eq_some_iff.mp at_i).1
        have all := room _ run.nodup
        rw [List.append_nil]
        exact ⟨queue,run,tracks.stay ⟨i,at_i,free,tail,fun same => eq_zero_of_ticket (by omega) (same.trans tail)⟩⟩
  | spin_trylock t =>
    have here := tracks.at_place t
    simp only [TicketLock.step] at step
    split at step
    case h_2 => cases step
    case h_1 outside =>
      rw [outside] at here
      split at step
      case isTrue taken =>
        cases step
        exact ⟨queue,by rwa [List.append_nil],tracks⟩
      case isFalse free =>
        cases step
        exact ⟨queue,by rwa [List.append_nil],tracks.stay ⟨here,not_not.mp free⟩⟩
  | cmpxchg t =>
    have here := tracks.at_place t
    simp only [TicketLock.step] at step
    split at step
    case h_2 => cases step
    case h_1 old trying =>
      rw [trying] at here
      split at step
      case isTrue same =>
        cases step
        obtain rfl := head_tail_inj same
        -- the lock is as it was when it was seen free, so there is nobody in the queue
        have none := eq_zero_of_ticket (space here.1) (here.2.trans tracks.tail)
        obtain ⟨threads,held⟩ := queue
        obtain rfl := List.length_eq_zero_iff.mp none
        obtain rfl : held = false := by
          by_contra held
          exact run.threads_ne_nil (by simpa using held) rfl
        rw [next_ticket_eq]
        have joined := run.step (.arrive here.1)
        have entered := joined.step .enter
        rw [List.append_assoc] at entered
        refine ⟨_,entered,tracks.move ?_ ⟨rfl,rfl⟩ (fun u other here => (here.append other).enter other)⟩
        rw [tracks.tail]
        simp
      case isFalse =>
        cases step
        exact ⟨queue,by rwa [List.append_nil],tracks.stay here.1⟩
  | spin_unlock t =>
    simp only [TicketLock.step] at step
    split at step
    case h_2 => cases step
    case h_1 inside =>
      cases step
      have here := tracks.at_place t
      rw [inside] at here
      exact ⟨queue,by rwa [List.append_nil],tracks.stay ⟨here.1,here.2,rfl⟩⟩
  | add t =>
    simp only [TicketLock.step] at step
    split at step
    case h_2 => cases step
    case h_1 head unlocking =>
      cases step
      have here := tracks.at_place t
      rw [unlocking] at here
      obtain rfl := here.2.2
      obtain ⟨rest,rfl⟩ := tracks.held_of_inside (.inr ⟨_,unlocking⟩)
      have alone : t ∉ rest := (List.nodup_cons.mp run.nodup).1
      refine ⟨_,run.step .leave,tracks.move ?_ alone (fun u other here => here.leave other)⟩
      rw [tracks.tail,List.length_cons,Nat.add_comm,BitVec.ofNat_add,BitVec.add_assoc]
      rfl

/-- Every run of the lock is a run of the queue. -/
theorem Run.tracks (run : Run events s) (room : ∀ threads : List τ, threads.Nodup → threads.length ≤ 2 ^ w) :
    ∃ queue, FifoLock.Run events queue ∧ Tracks s queue := by
  induction run with
  | init => exact ⟨_,.free,⟨by simp [ARCH_SPIN_LOCK_UNLOCKED],fun t => List.not_mem_nil⟩⟩
  | step before step ih =>
    obtain ⟨queue,run,tracks⟩ := ih
    exact tracks.after run room step

/-! ### The lock over whole runs -/

omit [DecidableEq τ] in
/-- The first one has the lock, or spins with the ticket `head` while nobody has it. -/
theorem Tracks.first {held : Bool} (tracks : Tracks s ⟨t :: rest,held⟩) (nodup : (t :: rest).Nodup) :
    held = true ∧ Holds s t ∨ held = false ∧ ∃ inc, s.place t = .spinning inc ∧ inc.tail = s.lock.head := by
  have here := tracks.at_place t
  cases place : s.place t with
  | outside =>
    rw [place] at here
    exact absurd List.mem_cons_self here
  | trying old =>
    rw [place] at here
    exact absurd List.mem_cons_self here.1
  | spinning inc =>
    rw [place] at here
    obtain ⟨i,at_i,free,tail,-⟩ := here
    obtain rfl : 0 = i := (List.getElem?_inj (Nat.succ_pos _) nodup).mp (at_i.symm ▸ rfl)
    exact .inr ⟨free rfl,inc,rfl,by simpa using tail⟩
  | inside =>
    rw [place] at here
    exact .inl ⟨here.1,.inl place⟩
  | unlocking head =>
    rw [place] at here
    exact .inl ⟨here.1,.inr ⟨head,place⟩⟩

/-- The first one of a free lock enters when it has looked at most twice. -/
theorem Tracks.first_enters (tracks : Tracks s ⟨t :: rest,false⟩) (nodup : (t :: rest).Nodup) :
    ∃ s₁ more, step s (.look t) = some (s₁,more) ∧
      (more = [.enter t] ∨ ∃ s₂, step s₁ (.look t) = some (s₂,[.enter t])) := by
  obtain ⟨held,-⟩ | ⟨-,inc,place,ours⟩ := tracks.first nodup
  · cases held
  by_cases same : inc.head = inc.tail
  · refine ⟨s.move t s.lock .inside,[.enter t],?_,.inl rfl⟩
    simp only [step,place,if_pos same]
  · refine ⟨s.move t s.lock (.spinning ⟨s.lock.head,inc.tail⟩),[],?_,.inr ?_⟩
    · simp only [step,place,if_neg same]
    · simp [step,System.move,ours]

omit [DecidableEq τ] in
theorem Tracks.holds_iff (tracks : Tracks s queue) (nodup : queue.threads.Nodup) :
    Holds s t ↔ queue.threads.take queue.held.toNat = [t] := by
  constructor
  · intro holds
    obtain ⟨rest,rfl⟩ := tracks.held_of_inside holds
    rfl
  · intro first
    obtain ⟨_ | ⟨t',rest⟩,held⟩ := queue
    · simp at first
    · obtain ⟨-,holds⟩ | ⟨rfl,-⟩ := tracks.first nodup
      · obtain rfl : t' = t := by
          cases held <;> simp_all
        exact holds
      · simp at first

/-- The lock is first come, first served, whatever the threads do in between and however
    often the tickets wrap: who has entered is the front of those who came, in their order; the one
    that has the lock is the last of these; and while nobody has it the next one enters as soon as
    it looks. -/
theorem first_come_first_served [Fintype τ] (few : Fintype.card τ ≤ 2 ^ w) (run : Run events s) :
    FifoLock.entries events <+: FifoLock.arrivals events ∧
    (∀ t, Holds s t ↔ FifoLock.entries events = FifoLock.leaves events ++ [t]) ∧
    ∀ t rest, FifoLock.entries events = FifoLock.leaves events →
      FifoLock.arrivals events = FifoLock.entries events ++ t :: rest →
      ∃ s₁ more, step s (.look t) = some (s₁,more) ∧
        (more = [.enter t] ∨ ∃ s₂, step s₁ (.look t) = some (s₂,[.enter t])) := by
  obtain ⟨queue,order,tracks⟩ := run.tracks (fun threads nodup => nodup.length_le_card.trans few)
  refine ⟨order.in_order,?_,?_⟩
  · intro t
    rw [tracks.holds_iff order.nodup,order.entries,List.append_right_inj]
  · intro t rest free waiting
    obtain ⟨threads,held⟩ := queue
    rw [order.arrivals,free,List.append_right_inj] at waiting
    obtain rfl := waiting
    rw [order.entries,List.append_right_eq_self] at free
    cases held with
    | true => cases free
    | false => exact tracks.first_enters order.nodup

/-- With a ticket to spare, `tail - head` counts the threads at the lock. -/
theorem waiters [Fintype τ] (few : Fintype.card τ < 2 ^ w) (run : Run events s) :
    (is_locked s.lock = true ↔ (FifoLock.leaves events).length < (FifoLock.arrivals events).length) ∧
    (is_contended s.lock = true ↔ (FifoLock.leaves events).length + 1 < (FifoLock.arrivals events).length) := by
  obtain ⟨queue,order,tracks⟩ := run.tracks (fun threads nodup => nodup.length_le_card.trans few.le)
  have room : queue.threads.length < 2 ^ w := order.nodup.length_le_card.trans_lt few
  have count : (s.lock.tail - s.lock.head).toNat = queue.threads.length := by
    rw [tracks.tail,BitVec.add_comm,BitVec.add_sub_cancel,BitVec.toNat_ofNat,Nat.mod_eq_of_lt room]
  have same : s.lock.tail = s.lock.head ↔ queue.threads.length = 0 := by
    constructor
    · intro equal
      rw [← count,equal,BitVec.sub_self]
      rfl
    · intro none
      rw [tracks.tail,none]
      simp
  rw [order.arrivals,List.length_append,is_locked,is_contended,bne_iff_ne,decide_eq_true_iff,count,ne_eq,same]
  omega

/-- Thread `0` has the lock and thread `1` waits for it. -/
theorem first_come_first_served_two : ∃ s : System (Fin 2) 8, Holds s 0 ∧
    ∀ t, Holds s t ↔ [0] = [] ++ [t] := by
  have locked : Run _ _ := @Run.step (Fin 2) 8 _ _ _ _ _ (.spin_lock 0) .init rfl
  have waits : Run _ _ := @Run.step (Fin 2) 8 _ _ _ _ _ (.spin_lock 1) locked rfl
  have inside : Run _ _ := @Run.step (Fin 2) 8 _ _ _ _ _ (.look 0) waits rfl
  have ⟨_,holds,_⟩ := first_come_first_served (by decide) inside
  exact ⟨_,(holds 0).mpr rfl,holds⟩

end GridOS.TicketLock
