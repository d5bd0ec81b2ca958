import GridOS.Complete

/-!
The adaptive critical section of `source/kernel/cs.c` as it is compiled with `CONFIG_SMP`,
on top of the completion. The steps of a thread are those between which others may run:
the read of `deal_count`, `arch_spin_trylock`, the change of `deal_count` behind it, the
steps of `ke_wait_for_completion`, the unlock and `ke_complete`.
-/
namespace GridOS.Critical
open GridOS.Words

/-- Where a thread is: before `arch_spin_trylock` with its `times` left, behind a trylock that
    succeeded, in `ke_wait_for_completion`, between enter and leave, or between the unlock and
    `ke_complete`. -/
inductive Place
  | outside
  | trying (times : Nat)
  | locked (times : Nat)
  | waiting
  | inside
  | unlocked
  deriving DecidableEq

/-- A `struct ke_critical_section` and its threads; the last two fields record the successful
    enters and whether `deal_count` was ever decremented at zero. -/
structure Section (τ : Type) where
  complete : Complete.World τ
  lock : Bool
  deal_count : Nat
  places : τ → Place
  enters : Nat
  wrapped : Bool

section Code
variable {τ : Type} [DecidableEq τ]

def move (cs : Section τ) (t : τ) (place : Place) : Section τ := { cs with places := Function.update cs.places t place }

/-- One round of the loop of `ke_critical_enter`, up to the change of `deal_count`. -/
def trylock (cs : Section τ) (t : τ) (times : Nat) : Section τ :=
  if cs.lock = false then move { cs with lock := true } t (.locked times)
  else move cs t (if times = 0 then .waiting else .trying (times - 1))

/-- The change of `deal_count` with the lock held. -/
def adjust (cs : Section τ) (t : τ) (times : Nat) : Section τ :=
  let cs := { cs with enters := cs.enters + 1 }
  if times = 0 then move { cs with deal_count := add cs.deal_count 1 } t .inside
  else move { cs with
    deal_count := sub cs.deal_count 1
    wrapped := cs.wrapped || cs.deal_count == 0 } t .inside

/-- A step of the thread in `ke_wait_for_completion` has led to `complete`; behind it the loop
    tries the lock again, with no times left. -/
def waited (cs : Section τ) (t : τ) (complete : Complete.World τ) : Section τ :=
  move { cs with complete } t (if complete.places t = .outside then .trying 0 else .waiting)

end Code

/-! ### Runs -/

/-- The steps of one infinite wait. -/
inductive WaitAct
  | enter
  | test
  | sleep
  | resume
  | relock

def WaitAct.of {τ : Type} (t : τ) : WaitAct → Complete.Act τ
  | .enter => .enter t false
  | .test => .test t
  | .sleep => .sleep t
  | .resume => .resume t false
  | .relock => .relock t

inductive Act (τ : Type)
  | read (t : τ)
  | trylock (t : τ)
  | adjust (t : τ)
  | wait (t : τ) (act : WaitAct)
  | unlock (t : τ)
  | complete (t : τ)
  | wakeup (t : τ)

section Runs
variable {τ : Type} [DecidableEq τ]

/-- One step; `none` when the thread is elsewhere or off the run queue. -/
def step (cs : Section τ) : Act τ → Option (Section τ)
  | .read t => match cs.places t with
    | .outside => some (move cs t (.trying cs.deal_count))
    | _ => none
  | .trylock t => match cs.places t with
    | .trying times => some (trylock cs t times)
    | _ => none
  | .adjust t => match cs.places t with
    | .locked times => some (adjust cs t times)
    | _ => none
  | .wait t act => match cs.places t with
    | .waiting => (Complete.step cs.complete (act.of t)).map (waited cs t)
    | _ => none
  | .unlock t => match cs.places t with
    | .inside => some (move { cs with lock := false } t .unlocked)
    | _ => none
  | .complete t => match cs.places t with
    | .unlocked => some (move { cs with complete := Complete.ke_complete cs.complete } t .outside)
    | _ => none
  | .wakeup t => some { cs with complete := Complete.kt_wakeup cs.complete t }

/-- What a step can do. -/
inductive Moves (cs : Section τ) : Act τ → Section τ → Prop
  | read {t : τ} (place : cs.places t = .outside) : Moves cs (.read t) (move cs t (.trying cs.deal_count))
  | trylock {t : τ} {times : Nat} (place : cs.places t = .trying times) : Moves cs (.trylock t) (trylock cs t times)
  | adjust {t : τ} {times : Nat} (place : cs.places t = .locked times) : Moves cs (.adjust t) (adjust cs t times)
  | wait {t : τ} {act : WaitAct} {complete : Complete.World τ} (place : cs.places t = .waiting)
      (done : Complete.step cs.complete (act.of t) = some complete) : Moves cs (.wait t act) (waited cs t complete)
  | unlock {t : τ} (place : cs.places t = .inside) : Moves cs (.unlock t) (move { cs with lock := false } t .unlocked)
  | complete {t : τ} (place : cs.places t = .unlocked) :
      Moves cs (.complete t) (move { cs with complete := Complete.ke_complete cs.complete } t .outside)
  | wakeup (t : τ) : Moves cs (.wakeup t) { cs with complete := Complete.kt_wakeup cs.complete t }

theorem step_moves {cs cs' : Section τ} {act : Act τ} (done : step cs act = some cs') : Moves cs act cs' := by
  cases act with
  | read t =>
    simp only [step] at done
    split at done
    · obtain rfl := Option.some.inj done
      exact .read ‹_›
    · cases done
  | trylock t =>
    simp only [step] at done
    split at done
    · obtain rfl := Option.some.inj done
      exact .trylock ‹_›
    · cases done
  | adjust t =>
    simp only [step] at done
    split at done
    · obtain rfl := Option.some.inj done
      exact .adjust ‹_›
    · cases done
  | wait t act =>
    simp only [step] at done
    split at done
    · obtain ⟨complete,result,rfl⟩ := Option.map_eq_some_iff.mp done
      exact .wait ‹_› result
    · cases done
  | unlock t =>
    simp only [step] at done
    split at done
    · obtain rfl := Option.some.inj done
      exact .unlock ‹_›
    · cases done
  | complete t =>
    simp only [step] at done
    split at done
    · obtain rfl := Option.some.inj done
      exact .complete ‹_›
    · cases done
  | wakeup t =>
    obtain rfl := Option.some.inj done
    exact .wakeup t

/-- The section behind `ke_critical_init`. -/
structure Started (cs : Section τ) : Prop where
  complete : Complete.Started cs.complete
  lock : cs.lock = false
  deal_count : cs.deal_count = 0
  outside : ∀ t, cs.places t = .outside
  enters : cs.enters = 0
  wrapped : cs.wrapped = false

/-- The thread has the lock. -/
def Holds (cs : Section τ) (t : τ) : Prop := cs.places t = .inside ∨ ∃ times, cs.places t = .locked times

/-- The thread is off the run queue in `ke_wait_for_completion`. -/
def Blocked (cs : Section τ) (t : τ) : Prop := cs.places t = .waiting ∧ (cs.complete.threads t).asleep = true

/-- At most one thread has the lock; `deal_count` has not wrapped below zero and is at most the
    number of enters; and when the lock is free with every completion called and used up, a
    thread is blocked only if another is about to try the lock. -/
structure Sound (cs : Section τ) : Prop where
  exclusive : ∀ t u, Holds cs t → Holds cs u → t = u
  deal_count : cs.wrapped = false ∧ cs.deal_count ≤ cs.enters
  handed_on : cs.lock = false → (∀ t, cs.places t ≠ .unlocked) → cs.complete.x.done = 0 → (∃ t, Blocked cs t) →
    ∃ t times, cs.places t = .trying times

/-- The thread still has times left from a `deal_count` that it has read. -/
def Spinning (cs : Section τ) (t : τ) : Prop := ∃ times, times ≠ 0 ∧ (cs.places t = .trying times ∨ cs.places t = .locked times)

/-- `deal_count` does not go to zero (by a decrement at 1 or an increment at the last word) while
    another thread has times left, and `done` has room for another completion. -/
def Tame (cs : Section τ) : Act τ → Prop
  | .adjust t => ∀ times, cs.places t = .locked times → cs.deal_count = (if times = 0 then modulus - 1 else 1) →
      ∀ u, u ≠ t → ¬Spinning cs u
  | .complete _ => cs.complete.x.done + 1 < modulus
  | _ => True

inductive TameRun (start : Section τ) : Section τ → Prop
  | start : TameRun start start
  | act {cs cs' : Section τ} {act : Act τ} (run : TameRun start cs) (tame : Tame cs act)
      (done : step cs act = some cs') : TameRun start cs'

/-! ### The invariant -/

variable {start cs cs' : Section τ} {act : Act τ}

structure Inv (cs : Section τ) : Prop where
  exclusive : ∀ t u, Holds cs t → Holds cs u → t = u
  held : ∀ t, Holds cs t → cs.lock = true
  wrapped : cs.wrapped = false
  deal_count : cs.deal_count ≤ cs.enters
  word : cs.deal_count < modulus
  spins : ∀ t, Spinning cs t → cs.deal_count ≠ 0
  handed_on : cs.lock = false → (∀ t, cs.places t ≠ .unlocked) → cs.complete.x.done = 0 →
    (∃ t, cs.places t = .waiting) → ∃ t times, cs.places t = .trying times

omit [DecidableEq τ] in
theorem Inv.sound (inv : Inv cs) : Sound cs := by
  refine ⟨inv.exclusive,⟨inv.wrapped,inv.deal_count⟩,?_⟩
  intro free none_between used_up blocked
  obtain ⟨t,waiting,_⟩ := blocked
  exact inv.handed_on free none_between used_up ⟨t,waiting⟩

theorem move_place (cs : Section τ) (t : τ) (place : Place) : (move cs t place).places t = place := Function.update_self ..

theorem move_place_other {t u : τ} (other : u ≠ t) (cs : Section τ) (place : Place) :
    (move cs t place).places u = cs.places u := Function.update_of_ne other ..

/-- A thread that goes to a place without the lock leaves the other holders. -/
theorem holds_move {t u : τ} {place : Place} (outside : place ≠ .inside ∧ ∀ times, place ≠ .locked times)
    (holds : Holds (move cs t place) u) : u ≠ t ∧ Holds cs u := by
  by_cases same : u = t
  · rw [same,Holds,move_place] at holds
    rcases holds with inside | ⟨times,locked⟩
    · exact absurd inside outside.1
    · exact absurd locked (outside.2 times)
  · rw [Holds,move_place_other same] at holds
    exact ⟨same,holds⟩

/-- A thread that holds the lock already keeps it. -/
theorem holds_move_held {t u : τ} {place : Place} (held : Holds cs t) (holds : Holds (move cs t place) u) : Holds cs u := by
  by_cases same : u = t
  · rw [same]
    exact held
  · rw [Holds,move_place_other same] at holds
    exact holds

/-- A thread that goes to a place without times left leaves the other threads that have some. -/
theorem spinning_move {t u : τ} {place : Place} (spent : ∀ times, place = .trying times ∨ place = .locked times → times = 0)
    (spinning : Spinning (move cs t place) u) : u ≠ t ∧ Spinning cs u := by
  obtain ⟨times,left,there⟩ := spinning
  by_cases same : u = t
  · rw [same,move_place] at there
    exact absurd (spent times there) left
  · rw [move_place_other same] at there
    exact ⟨same,times,left,there⟩

/-- The thread goes on without the lock, when the completion is handed on to someone that tries. -/
theorem elsewhere_inv {t : τ} {place : Place} {complete : Complete.World τ} (inv : Inv cs)
    (outside : place ≠ .inside ∧ ∀ times, place ≠ .locked times)
    (spins : (∃ times, times ≠ 0 ∧ place = .trying times) → cs.deal_count ≠ 0)
    (handed_on : cs.lock = false → (∀ u, (move cs t place).places u ≠ .unlocked) → complete.x.done = 0 →
      (∃ u, (move cs t place).places u = .waiting) → ∃ u times, (move cs t place).places u = .trying times) :
    Inv (move { cs with complete } t place) := by
  refine ⟨?_,?_,inv.wrapped,inv.deal_count,inv.word,?_,handed_on⟩
  · intro u v left right
    exact inv.exclusive u v (holds_move outside left).2 (holds_move outside right).2
  · intro u holds
    exact inv.held u (holds_move outside holds).2
  · rintro u ⟨times,left,there⟩
    by_cases same : u = t
    · rw [same,move_place] at there
      exact spins ⟨times,left,there.resolve_right (outside.2 times)⟩
    · rw [move_place_other same] at there
      exact inv.spins u ⟨times,left,there⟩

/-- The thread goes on without the lock, to a place from where it tries the lock again or where
    no one has to hand anything on. -/
theorem move_inv {t : τ} {place : Place} (inv : Inv cs) (outside : place ≠ .inside ∧ ∀ times, place ≠ .locked times)
    (spins : (∃ times, times ≠ 0 ∧ place = .trying times) → cs.deal_count ≠ 0)
    (next : (∃ times, place = .trying times) ∨ cs.lock = true) : Inv (move cs t place) := by
  refine elsewhere_inv inv outside spins (fun free _ _ _ => ?_)
  rcases next with ⟨times,trying⟩ | locked
  · exact ⟨t,times,by rw [move_place,trying]⟩
  · rw [free] at locked
    cases locked

theorem trylock_inv {t : τ} {times : Nat} (inv : Inv cs) (place : cs.places t = .trying times) : Inv (trylock cs t times) := by
  rw [trylock]
  split
  · rename_i free
    have only : ∀ u, Holds (move { cs with lock := true } t (.locked times)) u → u = t := by
      intro u holds
      by_contra other
      rw [Holds,move_place_other other] at holds
      have := inv.held u holds
      rw [free] at this
      cases this
    refine ⟨?_,fun _ _ => rfl,inv.wrapped,inv.deal_count,inv.word,?_,?_⟩
    · intro u v left right
      rw [only u left,only v right]
    · rintro u ⟨rest,left,there⟩
      by_cases same : u = t
      · rw [same,move_place] at there
        obtain rfl := Place.locked.inj (there.resolve_left nofun)
        exact inv.spins t ⟨times,left,.inl place⟩
      · rw [move_place_other same] at there
        exact inv.spins u ⟨rest,left,there⟩
    · intro still_free
      cases still_free
  · rename_i taken
    rw [Bool.not_eq_false] at taken
    refine move_inv inv ?_ ?_ (.inr taken)
    · split <;> simp
    · rintro ⟨rest,left,there⟩
      split at there
      · cases there
      · rename_i some_left
        exact inv.spins t ⟨times,some_left,.inl place⟩

/-- `deal_count` changes with the lock held; who decrements it has read it as positive. -/
theorem adjust_inv {t : τ} {times : Nat} (inv : Inv cs) (place : cs.places t = .locked times)
    (tame : Tame cs (.adjust t)) : Inv (adjust cs t times) := by
  have held : Holds cs t := .inr ⟨times,place⟩
  have locked := inv.held t held
  have count := inv.deal_count
  have word := inv.word
  have after : ∀ deal_count wrapped, deal_count ≤ cs.enters + 1 → deal_count < modulus → wrapped = false →
      (deal_count = 0 → cs.deal_count = (if times = 0 then modulus - 1 else 1)) →
      Inv (move { cs with enters := cs.enters + 1, deal_count, wrapped } t .inside) := by
    intro deal_count wrapped bounded small clean zero
    refine ⟨?_,fun _ _ => locked,clean,bounded,small,?_,?_⟩
    · intro u v left right
      exact inv.exclusive u v (holds_move_held held left) (holds_move_held held right)
    · intro u spinning none
      obtain ⟨other,still⟩ := spinning_move (by simp) spinning
      exact tame times place (zero none) u other still
    · intro free
      rw [show cs.lock = false from free] at locked
      cases locked
  rw [adjust]
  dsimp only
  split
  · rename_i no_times
    refine after _ _ ?_ (Nat.mod_lt _ (by decide)) inv.wrapped ?_
    · exact Nat.le_trans (Nat.mod_le _ _) (Nat.succ_le_succ count)
    · intro zero
      rw [if_pos no_times]
      unfold add modulus at *
      omega
  · rename_i some_left
    have positive : cs.deal_count ≠ 0 := inv.spins t ⟨times,some_left,.inr place⟩
    have exact_count : sub cs.deal_count 1 = cs.deal_count - 1 := sub_exact (Nat.pos_of_ne_zero positive) word
    rw [exact_count]
    refine after _ _ ?_ (Nat.lt_of_le_of_lt (Nat.sub_le _ 1) word) ?_ ?_
    · exact Nat.le_trans (Nat.sub_le _ _) (Nat.le_succ_of_le count)
    · rw [inv.wrapped,Bool.false_or,beq_eq_false_iff_ne]
      exact positive
    · intro zero
      rw [if_neg some_left]
      omega

/-- Before a wait returns, its steps leave `done` as it is. -/
theorem wait_done {w w' : Complete.World τ} {t : τ} {act : WaitAct} (done : Complete.step w (act.of t) = some w') :
    w'.places t = .outside ∨ w'.x.done = w.x.done := by
  have moves := Complete.step_moves done
  cases act with
  | enter =>
    cases moves with
    | enter awake place =>
      rw [Complete.wait_enter]
      dsimp only
      split
      · exact .inl (Function.update_self ..)
      · exact .inr rfl
  | test =>
    cases moves with
    | test awake place => exact .inr rfl
  | sleep =>
    cases moves with
    | sleep awake place => exact .inr rfl
  | resume =>
    cases moves with
    | resume awake place => exact .inr rfl
  | relock =>
    cases moves with
    | relock awake place =>
      rw [Complete.wait_relock]
      dsimp only
      split
      · exact .inl (Function.update_self ..)
      · exact .inl (Function.update_self ..)

theorem wait_inv {t : τ} {act : WaitAct} {complete : Complete.World τ} (inv : Inv cs) (place : cs.places t = .waiting)
    (done : Complete.step cs.complete (act.of t) = some complete) : Inv (waited cs t complete) := by
  rw [waited]
  by_cases returned : complete.places t = .outside
  · rw [if_pos returned]
    refine elsewhere_inv inv (by simp) ?_ (fun _ _ _ _ => ⟨t,0,move_place ..⟩)
    rintro ⟨times,left,there⟩
    exact absurd (Place.trying.inj there).symm left
  · rw [if_neg returned]
    have same_done := (wait_done done).resolve_left returned
    have same_places : (move cs t .waiting).places = cs.places := by
      show Function.update cs.places t .waiting = cs.places
      rw [← place,Function.update_eq_self]
    refine elsewhere_inv inv (by simp) (by simp) ?_
    rw [same_places]
    intro free none_between used_up waiting
    exact inv.handed_on free none_between (same_done.symm.trans used_up) waiting

theorem moves_inv (inv : Inv cs) (tame : Tame cs act) (moves : Moves cs act cs') : Inv cs' := by
  cases moves with
  | read place =>
    refine move_inv inv (by simp) ?_ (.inl ⟨_,rfl⟩)
    rintro ⟨times,left,there⟩
    rw [Place.trying.inj there]
    exact left
  | trylock place => exact trylock_inv inv place
  | adjust place => exact adjust_inv inv place tame
  | wait place done => exact wait_inv inv place done
  | unlock place =>
    rename_i t
    have held : Holds cs t := .inl place
    have none_left : ∀ u, ¬Holds (move { cs with lock := false } t .unlocked) u := by
      intro u holds
      obtain ⟨other,still⟩ := holds_move (by simp) holds
      exact other (inv.exclusive u t still held)
    refine ⟨fun u _ left => absurd left (none_left u),fun u holds => absurd holds (none_left u),inv.wrapped,
      inv.deal_count,inv.word,fun u spinning => inv.spins u (spinning_move (by simp) spinning).2,?_⟩
    intro _ none_between
    exact absurd (move_place ..) (none_between t)
  | complete place =>
    have room : add cs.complete.x.done 1 = cs.complete.x.done + 1 := add_exact tame
    have some_done : (Complete.ke_complete cs.complete).x.done = cs.complete.x.done + 1 := by
      rw [← room,Complete.ke_complete]
      dsimp only
      split <;> rfl
    refine elsewhere_inv inv (by simp) (by simp) (fun _ _ used_up => ?_)
    rw [used_up] at some_done
    cases some_done
  | wakeup t => exact ⟨inv.exclusive,inv.held,inv.wrapped,inv.deal_count,inv.word,inv.spins,inv.handed_on⟩

omit [DecidableEq τ] in
theorem started_inv (started : Started start) : Inv start := by
  have none_holds : ∀ t, ¬Holds start t := by
    intro t
    simp [Holds,started.outside]
  refine ⟨fun t _ left => absurd left (none_holds t),fun t holds => absurd holds (none_holds t),started.wrapped,?_,?_,?_,?_⟩
  · rw [started.deal_count]
    exact Nat.zero_le _
  · rw [started.deal_count]
    decide
  · rintro t ⟨times,_,there⟩
    rw [started.outside] at there
    exact absurd there (by simp)
  · rintro _ _ _ ⟨t,waiting⟩
    rw [started.outside] at waiting
    cases waiting

theorem tame_run_inv (started : Started start) (run : TameRun start cs) : Inv cs := by
  induction run with
  | start => exact started_inv started
  | act _ tame done inv => exact moves_inv inv tame (step_moves done)

/-- In every state that tame steps reach the critical section is sound. -/
theorem tame_run_sound {start cs : Section τ} (started : Started start) (run : TameRun start cs) : Sound cs :=
  (tame_run_inv started run).sound

end Runs

/-- A new section for threads that are numbered. -/
def fresh : Section Nat where
  complete := { x := Complete.ke_init_completion, threads := fun _ => ⟨false,0⟩, places := fun _ => .outside,
                completes := 0, entered := 0, returns := [] }
  lock := false
  deal_count := 0
  places := fun _ => .outside
  enters := 0
  wrapped := false

theorem fresh_started : Started fresh :=
  ⟨⟨rfl,fun _ => rfl,fun _ => rfl,rfl,rfl,rfl⟩,rfl,rfl,fun _ => rfl,rfl,rfl⟩

/-- Thread 1 waits for thread 0 and gets the lock; then thread 0 gets it back at once, with times left. -/
theorem tame_run_sound_two_threads : ∃ cs, TameRun fresh cs ∧ cs.enters = 3 ∧ cs.deal_count = 1 ∧ Sound cs := by
  have tame : ∀ {cs : Section Nat} {act : Act Nat} {cs' : Section Nat}, TameRun fresh cs → Tame cs act →
      step cs act = some cs' → TameRun fresh cs' := fun run ok done => .act run ok done
  have above : ∀ {cs : Section Nat} {t times : Nat}, cs.places t = .locked times →
      cs.deal_count ≠ (if times = 0 then modulus - 1 else 1) → Tame cs (.adjust t) := by
    intro cs t times place apart times' same zero
    rw [place] at same
    rw [← Place.locked.inj same] at zero
    exact absurd zero apart
  have r₁ := tame .start (show Tame fresh (.read 0) from trivial) rfl
  have r₂ := tame r₁ (show Tame _ (.trylock 0) from trivial) rfl
  have r₃ := tame r₂ (show Tame _ (.read 1) from trivial) rfl
  have r₄ := tame r₃ (show Tame _ (.trylock 1) from trivial) rfl
  have r₅ := tame r₄ (show Tame _ (.adjust 0) from above rfl (by decide)) rfl
  have r₆ := tame r₅ (show Tame _ (.wait 1 .enter) from trivial) rfl
  have r₇ := tame r₆ (show Tame _ (.wait 1 .test) from trivial) rfl
  have r₈ := tame r₇ (show Tame _ (.wait 1 .sleep) from trivial) rfl
  have r₉ := tame r₈ (show Tame _ (.unlock 0) from trivial) rfl
  have r₁₀ := tame r₉ (show Tame _ (.complete 0) from (by decide : 0 + 1 < modulus)) rfl
  have r₁₁ := tame r₁₀ (show Tame _ (.wait 1 .resume) from trivial) rfl
  have r₁₂ := tame r₁₁ (show Tame _ (.wait 1 .test) from trivial) rfl
  have r₁₃ := tame r₁₂ (show Tame _ (.wait 1 .relock) from trivial) rfl
  have r₁₄ := tame r₁₃ (show Tame _ (.trylock 1) from trivial) rfl
  have r₁₅ := tame r₁₄ (show Tame _ (.adjust 1) from above rfl (by decide)) rfl
  have r₁₆ := tame r₁₅ (show Tame _ (.unlock 1) from trivial) rfl
  have r₁₇ := tame r₁₆ (show Tame _ (.complete 1) from (by decide : 0 + 1 < modulus)) rfl
  have r₁₈ := tame r₁₇ (show Tame _ (.read 0) from trivial) rfl
  have r₁₉ := tame r₁₈ (show Tame _ (.trylock 0) from trivial) rfl
  have r₂₀ := tame r₁₉ (show Tame _ (.adjust 0) from above rfl (by decide)) rfl
  exact ⟨_,r₂₀,rfl,rfl,tame_run_sound fresh_started r₂₀⟩

/-- Threads 1 and 2 read the same `deal_count` of 1 and take the lock in turn: the second of
    them decrements it at zero. -/
theorem stale_snapshots_wrap : Started fresh ∧ ∃ cs, List.foldlM step fresh
      [.read 0,.trylock 0,.adjust 0,.unlock 0,.complete 0,.read 1,.read 2,.trylock 1,.adjust 1,.unlock 1,.complete 1,
        .trylock 2,.adjust 2] = some cs ∧
    cs.deal_count = 4294967295 ∧ cs.enters = 3 ∧ ¬Sound cs := by
  refine ⟨fresh_started,_,rfl,rfl,rfl,?_⟩
  intro sound
  exact absurd sound.deal_count.2 (by decide)

end GridOS.Critical
