import Mathlib.Algebra.BigOperators.Group.Finset.Piecewise
import Mathlib.Algebra.Order.BigOperators.Group.Finset
import Mathlib.Data.Fintype.Card

/-!
The read-write spin lock of `source/drivers/hal/include/arch/x86/asm/spinlock.h` and
`rwlock.h`, with the slow paths of `source/drivers/hal/arch/x86/lib/rwlock.S`, which
`ke_rwlock_read_lock` and `ke_rwlock_write_lock` of `source/kernel/lock.c` take. A step is one
access of one thread to the word of the lock. This is the form of the lock for at most 2048
CPUs.
-/
namespace GridOS.RwLock

/-! ### Sums over the places of threads -/

section
variable {τ φ : Type} [Fintype τ]

/-- A sum over all threads, when one of them moves. -/
theorem sum_update [DecidableEq τ] (weight : φ → Nat) (place : τ → φ) (t : τ) (p : φ) :
    ∑ u, weight (Function.update place t p u) + weight (place t) = ∑ u, weight (place u) + weight p := by
  have rest : ∑ u ∈ Finset.univ.erase t, weight (Function.update place t p u) =
      ∑ u ∈ Finset.univ.erase t, weight (place u) :=
    Finset.sum_congr rfl (fun u mem => by rw [Function.update_of_ne (Finset.ne_of_mem_erase mem)])
  rw [← Finset.sum_erase_add _ _ (Finset.mem_univ t),rest,Function.update_self,
    ← Finset.sum_erase_add _ (fun u => weight (place u)) (Finset.mem_univ t)]
  omega

/-- Each thread counts at most once in one of two sums. -/
theorem sum_le_card (f g : φ → Nat) (once : ∀ p, f p + g p ≤ 1) (place : τ → φ) :
    ∑ u, f (place u) + ∑ u, g (place u) ≤ Fintype.card τ := by
  rw [← Finset.sum_add_distrib]
  calc ∑ u, (f (place u) + g (place u)) ≤ ∑ _u : τ, 1 := Finset.sum_le_sum (fun u _ => once (place u))
    _ = Fintype.card τ := by simp

end

/-! ### The lock -/

def RW_LOCK_BIAS : BitVec 32 := 0x00100000

/-- Where a thread is. It takes its part of the word and finds out whether it has the lock; if
    not, it gives its part back (`failed` and `tried`), and in the slow path spins until the word
    looks free and takes its part again. -/
inductive Place
  | outside
  | reading
  | read_failed
  | read_spinning
  | read_retrying
  | read_tried
  | writing
  | write_failed
  | write_spinning
  | write_retrying
  | write_tried
deriving DecidableEq

structure System (τ : Type) where
  word : BitVec 32
  place : τ → Place

inductive Act (τ : Type)
  | read_lock (t : τ)
  | read_trylock (t : τ)
  | read_undo (t : τ)
  | read_look (t : τ)
  | read_retry (t : τ)
  | read_unlock (t : τ)
  | write_lock (t : τ)
  | write_trylock (t : τ)
  | write_undo (t : τ)
  | write_look (t : τ)
  | write_retry (t : τ)
  | write_unlock (t : τ)

variable {τ : Type} [DecidableEq τ]

def System.move (s : System τ) (t : τ) (word : BitVec 32) (place : Place) : System τ :=
  { word := word,place := Function.update s.place t place }

/-- `dec` of the word; the reader has the lock unless the sign is set. -/
def System.take_read (s : System τ) (t : τ) (other : Place) : System τ :=
  s.move t (s.word - 1) (if (s.word - 1).msb then other else .reading)

/-- `sub` of the bias; the writer has the lock when the word is zero. -/
def System.take_write (s : System τ) (t : τ) (other : Place) : System τ :=
  s.move t (s.word - RW_LOCK_BIAS) (if s.word - RW_LOCK_BIAS = 0 then .writing else other)

def step (s : System τ) : Act τ → Option (System τ)
  | .read_lock t => if s.place t = .outside then some (s.take_read t .read_failed) else none
  | .read_trylock t => if s.place t = .outside then some (s.take_read t .read_tried) else none
  | .read_undo t =>
    match s.place t with
    | .read_failed => some (s.move t (s.word + 1) .read_spinning)
    | .read_tried => some (s.move t (s.word + 1) .outside)
    | _ => none
  | .read_look t =>
    if s.place t = .read_spinning then some (if (s.word - 1).msb then s else s.move t s.word .read_retrying) else none
  | .read_retry t => if s.place t = .read_retrying then some (s.take_read t .read_failed) else none
  | .read_unlock t => if s.place t = .reading then some (s.move t (s.word + 1) .outside) else none
  | .write_lock t => if s.place t = .outside then some (s.take_write t .write_failed) else none
  | .write_trylock t => if s.place t = .outside then some (s.take_write t .write_tried) else none
  | .write_undo t =>
    match s.place t with
    | .write_failed => some (s.move t (s.word + RW_LOCK_BIAS) .write_spinning)
    | .write_tried => some (s.move t (s.word + RW_LOCK_BIAS) .outside)
    | _ => none
  | .write_look t =>
    if s.place t = .write_spinning then
      some (if s.word = RW_LOCK_BIAS then s.move t s.word .write_retrying else s)
    else none
  | .write_retry t => if s.place t = .write_retrying then some (s.take_write t .write_failed) else none
  | .write_unlock t => if s.place t = .writing then some (s.move t (s.word + RW_LOCK_BIAS) .outside) else none

/-- A run from an initialised lock with all threads outside. -/
inductive Run : System τ → Prop
  | init : Run ⟨RW_LOCK_BIAS,fun _ => .outside⟩
  | step {s s' : System τ} {act : Act τ} (before : Run s) (step : step s act = some s') : Run s'

/-! ### What the word counts -/

/-- The reader's part is out of the word. -/
def Place.reads : Place → Nat
  | .reading | .read_failed | .read_tried => 1
  | _ => 0

/-- The writer's part is out of the word. -/
def Place.writes : Place → Nat
  | .writing | .write_failed | .write_tried => 1
  | _ => 0

/-- No part is out of the word. -/
def Place.Free (p : Place) : Prop := p.reads = 0 ∧ p.writes = 0

instance (p : Place) : Decidable p.Free := inferInstanceAs (Decidable (_ ∧ _))

theorem reads_add_writes (p : Place) : p.reads + p.writes ≤ 1 := by
  cases p <;> decide

/-- All that an access can do: a thread takes its part, gives it back, or goes on without. -/
inductive Moves (s : System τ) (t : τ) : System τ → Prop
  | take_read {other : Place} (free : (s.place t).Free) (failed : other = .read_failed ∨ other = .read_tried) :
      Moves s t (s.take_read t other)
  | take_write {other : Place} (free : (s.place t).Free) (failed : other = .write_failed ∨ other = .write_tried) :
      Moves s t (s.take_write t other)
  | give_read {p : Place} (part : (s.place t).reads = 1) (free : p.Free) : Moves s t (s.move t (s.word + 1) p)
  | give_write {p : Place} (part : (s.place t).writes = 1) (free : p.Free) : Moves s t (s.move t (s.word + RW_LOCK_BIAS) p)
  | pass {p : Place} (free : (s.place t).Free) (free' : p.Free) : Moves s t (s.move t s.word p)

variable {s s' : System τ} {t u : τ} {p other : Place}

theorem Moves.refl (free : (s.place t).Free) : Moves s t s := by
  have same : s.move t s.word (s.place t) = s := by rw [System.move,Function.update_eq_self]
  have pass := Moves.pass free free
  rwa [same] at pass

omit [DecidableEq τ] in
theorem of_guard {c : Prop} [Decidable c] (step : (if c then some s else none) = some s') : c ∧ s = s' := by
  obtain ⟨holds,same⟩ := Option.ite_none_right_eq_some.mp step
  exact ⟨holds,Option.some.inj same⟩

theorem step_moves {act : Act τ} (step : step s act = some s') : ∃ t, Moves s t s' := by
  cases act with
  | read_lock t =>
    obtain ⟨here,rfl⟩ := of_guard step
    exact ⟨t,.take_read (by rw [here]; decide) (.inl rfl)⟩
  | read_trylock t =>
    obtain ⟨here,rfl⟩ := of_guard step
    exact ⟨t,.take_read (by rw [here]; decide) (.inr rfl)⟩
  | read_undo t =>
    simp only [RwLock.step] at step
    split at step
    case h_1 here =>
      obtain rfl := Option.some.inj step
      exact ⟨t,.give_read (by rw [here]; rfl) (by decide)⟩
    case h_2 here =>
      obtain rfl := Option.some.inj step
      exact ⟨t,.give_read (by rw [here]; rfl) (by decide)⟩
    case h_3 => cases step
  | read_look t =>
    obtain ⟨here,rfl⟩ := of_guard step
    have free : (s.place t).Free := by rw [here]; decide
    split
    · exact ⟨t,.refl free⟩
    · exact ⟨t,.pass free (by decide)⟩
  | read_retry t =>
    obtain ⟨here,rfl⟩ := of_guard step
    exact ⟨t,.take_read (by rw [here]; decide) (.inl rfl)⟩
  | read_unlock t =>
    obtain ⟨here,rfl⟩ := of_guard step
    exact ⟨t,.give_read (by rw [here]; rfl) (by decide)⟩
  | write_lock t =>
    obtain ⟨here,rfl⟩ := of_guard step
    exact ⟨t,.take_write (by rw [here]; decide) (.inl rfl)⟩
  | write_trylock t =>
    obtain ⟨here,rfl⟩ := of_guard step
    exact ⟨t,.take_write (by rw [here]; decide) (.inr rfl)⟩
  | write_undo t =>
    simp only [RwLock.step] at step
    split at step
    case h_1 here =>
      obtain rfl := Option.some.inj step
      exact ⟨t,.give_write (by rw [here]; rfl) (by decide)⟩
    case h_2 here =>
      obtain rfl := Option.some.inj step
      exact ⟨t,.give_write (by rw [here]; rfl) (by decide)⟩
    case h_3 => cases step
  | write_look t =>
    obtain ⟨here,rfl⟩ := of_guard step
    have free : (s.place t).Free := by rw [here]; decide
    by_cases seen : s.word = RW_LOCK_BIAS
    · rw [if_pos seen]
      exact ⟨t,.pass free (by decide)⟩
    · rw [if_neg seen]
      exact ⟨t,.refl free⟩
  | write_retry t =>
    obtain ⟨here,rfl⟩ := of_guard step
    exact ⟨t,.take_write (by rw [here]; decide) (.inl rfl)⟩
  | write_unlock t =>
    obtain ⟨here,rfl⟩ := of_guard step
    exact ⟨t,.give_write (by rw [here]; rfl) (by decide)⟩

variable [Fintype τ]

def System.readers (s : System τ) : Nat := ∑ u, (s.place u).reads
def System.writers (s : System τ) : Nat := ∑ u, (s.place u).writes

/-- The word is the bias less the parts that are out. -/
def Counted (s : System τ) : Prop := (s.word.toNat + s.readers + s.writers * 2 ^ 20) % 2 ^ 32 = 2 ^ 20

theorem readers_move (s : System τ) (t : τ) (word : BitVec 32) (p : Place) :
    (s.move t word p).readers + (s.place t).reads = s.readers + p.reads := sum_update Place.reads s.place t p

theorem writers_move (s : System τ) (t : τ) (word : BitVec 32) (p : Place) :
    (s.move t word p).writers + (s.place t).writes = s.writers + p.writes := sum_update Place.writes s.place t p

@[simp]
theorem bias_toNat : RW_LOCK_BIAS.toNat = 2 ^ 20 := rfl

theorem Counted.after (counted : Counted s) (moves : Moves s t s') : Counted s' := by
  unfold Counted at *
  cases moves with
  | @take_read other free failed =>
    obtain ⟨noRead,noWrite⟩ := free
    have reads := readers_move s t (s.word - 1) (if (s.word - 1).msb then other else .reading)
    have writes := writers_move s t (s.word - 1) (if (s.word - 1).msb then other else .reading)
    have part : (if (s.word - 1).msb then other else .reading : Place).reads = 1 ∧
        (if (s.word - 1).msb then other else .reading : Place).writes = 0 := by
      obtain rfl | rfl := failed <;> split <;> decide
    rw [noRead,part.1] at reads
    rw [noWrite,part.2] at writes
    have word : (s.take_read t other).word.toNat = (2 ^ 32 - 1 + s.word.toNat) % 2 ^ 32 := BitVec.toNat_sub ..
    rw [System.take_read] at word ⊢
    omega
  | @take_write other free failed =>
    obtain ⟨noRead,noWrite⟩ := free
    have reads := readers_move s t (s.word - RW_LOCK_BIAS) (if s.word - RW_LOCK_BIAS = 0 then .writing else other)
    have writes := writers_move s t (s.word - RW_LOCK_BIAS) (if s.word - RW_LOCK_BIAS = 0 then .writing else other)
    have part : (if s.word - RW_LOCK_BIAS = 0 then .writing else other : Place).reads = 0 ∧
        (if s.word - RW_LOCK_BIAS = 0 then .writing else other : Place).writes = 1 := by
      obtain rfl | rfl := failed <;> split <;> decide
    rw [noRead,part.1] at reads
    rw [noWrite,part.2] at writes
    have word : (s.take_write t other).word.toNat = (2 ^ 32 - 2 ^ 20 + s.word.toNat) % 2 ^ 32 := BitVec.toNat_sub ..
    rw [System.take_write] at word ⊢
    omega
  | @give_read p part free =>
    have reads := readers_move s t (s.word + 1) p
    have writes := writers_move s t (s.word + 1) p
    have once := reads_add_writes (s.place t)
    rw [part,free.1] at reads
    rw [free.2] at writes
    have word : (s.move t (s.word + 1) p).word.toNat = (s.word.toNat + 1) % 2 ^ 32 := BitVec.toNat_add ..
    omega
  | @give_write p part free =>
    have reads := readers_move s t (s.word + RW_LOCK_BIAS) p
    have writes := writers_move s t (s.word + RW_LOCK_BIAS) p
    have once := reads_add_writes (s.place t)
    rw [free.1] at reads
    rw [part,free.2] at writes
    have word : (s.move t (s.word + RW_LOCK_BIAS) p).word.toNat = (s.word.toNat + 2 ^ 20) % 2 ^ 32 :=
      BitVec.toNat_add ..
    omega
  | @pass p free free' =>
    have reads := readers_move s t s.word p
    have writes := writers_move s t s.word p
    rw [free.1,free'.1] at reads
    rw [free.2,free'.2] at writes
    have word : (s.move t s.word p).word.toNat = s.word.toNat := rfl
    omega

/-! ### Who gets the lock -/

theorem got_read (failed : other = .read_failed ∨ other = .read_tried) (b : Bool) :
    (if b then other else .reading) = .reading ↔ b = false := by
  obtain rfl | rfl := failed <;> cases b <;> decide

theorem got_write (failed : other = .write_failed ∨ other = .write_tried) (c : Prop) [Decidable c] :
    (if c then .writing else other) = .writing ↔ c := by
  by_cases zero : c
  · simp [zero]
  · obtain rfl | rfl := failed <;> simp [zero]

omit [DecidableEq τ] in
/-- At most as many parts are out as there are threads. -/
theorem parts_le (few : Fintype.card τ ≤ 2048) (s : System τ) : s.readers + s.writers ≤ 2048 :=
  (sum_le_card Place.reads Place.writes reads_add_writes s.place).trans few

/-- With the own part still in. -/
theorem parts_lt (few : Fintype.card τ ≤ 2048) (s : System τ) (free : (s.place t).Free) :
    s.readers + s.writers < 2048 := by
  have reads := readers_move s t s.word .reading
  have writes := writers_move s t s.word .reading
  have all := parts_le few (s.move t s.word .reading)
  rw [free.1] at reads
  rw [free.2] at writes
  change _ = _ + 1 at reads
  change _ = _ + 0 at writes
  omega

omit [DecidableEq τ] in
/-- A reader's attempt meets no sign exactly when no writer's part is out. -/
theorem Counted.read_sign (counted : Counted s) (room : s.readers + s.writers < 2048) :
    (s.word - 1).msb = false ↔ s.writers = 0 := by
  unfold Counted at counted
  have word : (s.word - 1).toNat = (2 ^ 32 - 1 + s.word.toNat) % 2 ^ 32 := BitVec.toNat_sub ..
  rw [BitVec.msb_eq_false_iff_two_mul_lt,word]
  omega

omit [DecidableEq τ] in
/-- A writer's attempt meets zero exactly when no part is out. -/
theorem Counted.write_zero (counted : Counted s) (room : s.readers + s.writers < 2048) :
    s.word - RW_LOCK_BIAS = 0 ↔ s.readers = 0 ∧ s.writers = 0 := by
  unfold Counted at counted
  have word : (s.word - RW_LOCK_BIAS).toNat = (2 ^ 32 - 2 ^ 20 + s.word.toNat) % 2 ^ 32 := BitVec.toNat_sub ..
  rw [← BitVec.toNat_inj,word,show (0 : BitVec 32).toNat = 0 from rfl]
  omega

/-- Nobody else has the lock beside a writer. -/
def Exclusive (s : System τ) : Prop :=
  ∀ t u, s.place t = .writing → s.place u = .reading ∨ s.place u = .writing → u = t

omit [DecidableEq τ] in
theorem no_reader (none : s.readers = 0) (u : τ) : (s.place u).reads = 0 :=
  Finset.sum_eq_zero_iff.mp none u (Finset.mem_univ u)

omit [DecidableEq τ] in
theorem no_writer (none : s.writers = 0) (u : τ) : (s.place u).writes = 0 :=
  Finset.sum_eq_zero_iff.mp none u (Finset.mem_univ u)

omit [Fintype τ] in
/-- A thread may move where it gets the lock beside nobody that it excludes. -/
theorem Exclusive.move (exclusive : Exclusive s) (word : BitVec 32)
    (read : p = .reading → ∀ u, s.place u ≠ .writing)
    (write : p = .writing → ∀ u, s.place u ≠ .reading ∧ s.place u ≠ .writing) : Exclusive (s.move t word p) := by
  intro v u writing holds
  by_cases first : v = t
  · by_cases second : u = t
    · rw [first,second]
    · simp only [System.move,first,Function.update_self] at writing
      simp only [System.move,Function.update_of_ne second] at holds
      obtain ⟨noRead,noWrite⟩ := write writing u
      exact (holds.elim noRead noWrite).elim
  · simp only [System.move,Function.update_of_ne first] at writing
    by_cases second : u = t
    · simp only [System.move,second,Function.update_self] at holds
      obtain reading | writing' := holds
      · exact absurd writing (read reading v)
      · exact absurd writing (write writing' v).2
    · simp only [System.move,Function.update_of_ne second] at holds
      exact exclusive v u writing holds

omit [Fintype τ] in
/-- A thread that goes where it has no lock excludes nobody. -/
theorem Exclusive.move_free (exclusive : Exclusive s) (word : BitVec 32) (free : p.Free) :
    Exclusive (s.move t word p) := by
  apply exclusive.move
  · rintro rfl
    exact absurd free.1 (by decide)
  · rintro rfl
    exact absurd free.2 (by decide)

theorem Exclusive.after (exclusive : Exclusive s) (few : Fintype.card τ ≤ 2048) (counted : Counted s)
    (moves : Moves s t s') : Exclusive s' := by
  cases moves with
  | @take_read other free failed =>
    have room := parts_lt few s free
    apply exclusive.move
    · intro reading u writing
      have none := no_writer ((counted.read_sign room).mp ((got_read failed _).mp reading)) u
      rw [writing] at none
      cases none
    · intro writing
      obtain rfl | rfl := failed <;> split at writing <;> cases writing
  | @take_write other free failed =>
    have room := parts_lt few s free
    apply exclusive.move
    · intro reading
      obtain rfl | rfl := failed <;> split at reading <;> cases reading
    · intro writing u
      obtain ⟨noReader,noWriter⟩ := (counted.write_zero room).mp ((got_write failed _).mp writing)
      have noRead := no_reader noReader u
      have noWrite := no_writer noWriter u
      constructor
      · intro reading
        rw [reading] at noRead
        cases noRead
      · intro writing
        rw [writing] at noWrite
        cases noWrite
  | give_read part free => exact exclusive.move_free _ free
  | give_write part free => exact exclusive.move_free _ free
  | pass free free' => exact exclusive.move_free _ free'

/-! ### The lock over whole runs -/

theorem Run.counted (run : Run s) : Counted s := by
  induction run with
  | init => simp [Counted,System.readers,System.writers,Place.reads,Place.writes]
  | step before step ih =>
    obtain ⟨t,moves⟩ := step_moves step
    exact ih.after moves

theorem Run.exclusive (run : Run s) (few : Fintype.card τ ≤ 2048) : Exclusive s := by
  induction run with
  | init => intro t u writing; cases writing
  | step before step ih =>
    obtain ⟨t,moves⟩ := step_moves step
    exact ih.after few before.counted moves

omit [Fintype τ] in
/-- What an attempt to read does, in the fast path, in the slow path and in `arch_read_trylock`. -/
theorem read_attempt (attempt : step s (.read_lock t) = some s' ∨ step s (.read_trylock t) = some s' ∨
    step s (.read_retry t) = some s') : (s.place t).Free ∧
    ∃ other, (other = .read_failed ∨ other = .read_tried) ∧ s' = s.take_read t other := by
  obtain lock | trylock | retry := attempt
  · obtain ⟨here,rfl⟩ := of_guard lock
    exact ⟨by rw [here]; decide,_,.inl rfl,rfl⟩
  · obtain ⟨here,rfl⟩ := of_guard trylock
    exact ⟨by rw [here]; decide,_,.inr rfl,rfl⟩
  · obtain ⟨here,rfl⟩ := of_guard retry
    exact ⟨by rw [here]; decide,_,.inl rfl,rfl⟩

omit [Fintype τ] in
/-- What an attempt to write does. -/
theorem write_attempt (attempt : step s (.write_lock t) = some s' ∨ step s (.write_trylock t) = some s' ∨
    step s (.write_retry t) = some s') : (s.place t).Free ∧
    ∃ other, (other = .write_failed ∨ other = .write_tried) ∧ s' = s.take_write t other := by
  obtain lock | trylock | retry := attempt
  · obtain ⟨here,rfl⟩ := of_guard lock
    exact ⟨by rw [here]; decide,_,.inl rfl,rfl⟩
  · obtain ⟨here,rfl⟩ := of_guard trylock
    exact ⟨by rw [here]; decide,_,.inr rfl,rfl⟩
  · obtain ⟨here,rfl⟩ := of_guard retry
    exact ⟨by rw [here]; decide,_,.inl rfl,rfl⟩

/-- While a writer has the lock nobody else has it. An attempt to read gets the lock exactly
    when no writer has it or is about to give its part back, and an attempt to write exactly
    when nobody at all has it or is about to. -/
theorem rwlock_admits (few : Fintype.card τ ≤ 2048) (run : Run s) :
    (∀ t u, s.place t = .writing → s.place u = .reading ∨ s.place u = .writing → u = t) ∧
    (∀ t s', step s (.read_lock t) = some s' ∨ step s (.read_trylock t) = some s' ∨
      step s (.read_retry t) = some s' → (s'.place t = .reading ↔ ∀ u, (s.place u).writes = 0)) ∧
    (∀ t s', step s (.write_lock t) = some s' ∨ step s (.write_trylock t) = some s' ∨
      step s (.write_retry t) = some s' → (s'.place t = .writing ↔ ∀ u, (s.place u).Free)) := by
  have writers : s.writers = 0 ↔ ∀ u, (s.place u).writes = 0 := by simp [System.writers]
  have readers : s.readers = 0 ↔ ∀ u, (s.place u).reads = 0 := by simp [System.readers]
  refine ⟨run.exclusive few,?_,?_⟩
  · intro t s' attempt
    obtain ⟨free,other,failed,rfl⟩ := read_attempt attempt
    have moved : (s.take_read t other).place t = if (s.word - 1).msb then other else .reading :=
      Function.update_self ..
    rw [moved,got_read failed,run.counted.read_sign (parts_lt few s free),writers]
  · intro t s' attempt
    obtain ⟨free,other,failed,rfl⟩ := write_attempt attempt
    have moved : (s.take_write t other).place t = if s.word - RW_LOCK_BIAS = 0 then .writing else other :=
      Function.update_self ..
    rw [moved,got_write failed,run.counted.write_zero (parts_lt few s free),readers,writers]
    exact forall_and.symm

/-- Two readers have the lock, and a writer's attempt beside them fails. -/
theorem rwlock_admits_three : ∃ s : System (Fin 3), s.place 0 = .reading ∧ s.place 1 = .reading ∧
    ∀ s', step s (.write_lock 2) = some s' → s'.place 2 ≠ .writing := by
  have one : Run _ := @Run.step (Fin 3) _ _ _ (.read_lock 0) .init rfl
  have two : Run _ := @Run.step (Fin 3) _ _ _ (.read_lock 1) one rfl
  obtain ⟨-,-,writes⟩ := rwlock_admits (by decide) two
  refine ⟨_,?_,?_,fun s' attempt writing => absurd ((writes 2 s' (.inl attempt)).mp writing 0) (by decide)⟩
  · rfl
  · rfl

end GridOS.RwLock
