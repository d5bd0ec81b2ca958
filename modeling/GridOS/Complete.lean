import GridOS.Sleeper

/-!
The completion of `source/kernel/complete.c`: threads that wait in `__wait_common`, with
or without a timeout, and calls of `ke_complete`, in any interleaving. What happens under
`x->lock` is one step, as is the test of `x->done` without it. A timeout only tells how
`ke_schedule_timeout` returns; its timer's wakeup is one that may come at any time.
-/
namespace GridOS.Complete
open GridOS.Words

structure ke_completion (τ : Type) where
  done : Nat
  task_list : List τ

/-- Where a thread is in `__wait_common`: before the test of the loop, behind a test that
    found `done` zero, in its sleep, or behind the loop and before the lock. -/
inductive Place
  | outside
  | testing (timed : Bool)
  | about (timed : Bool)
  | switching (timed : Bool)
  | relock (timed : Bool)
  deriving DecidableEq

/-- A wait that has returned, and whether it consumed a completion. -/
structure Return where
  timed : Bool
  success : Bool

/-- The completion and the threads; the last three fields record the run. -/
structure World (τ : Type) where
  x : ke_completion τ
  threads : τ → Sleeper
  places : τ → Place
  completes : Nat
  entered : Nat
  returns : List Return

section Code
variable {τ : Type} [DecidableEq τ]

def ke_init_completion : ke_completion τ where
  done := 0
  task_list := []

/-- The thread goes on to another place. -/
def move (w : World τ) (t : τ) (place : Place) : World τ := { w with places := Function.update w.places t place }

/-- `__wait_common` returns. -/
def leave (w : World τ) (t : τ) (timed success : Bool) : World τ :=
  { move w t .outside with returns := ⟨timed,success⟩ :: w.returns }

/-- The end of `__wait_common` with the lock held: a completion is consumed. -/
def consume (w : World τ) (t : τ) (timed : Bool) : World τ := leave { w with x.done := sub w.x.done 1 } t timed true

/-- `__wait_common` up to its loop. -/
def wait_enter (w : World τ) (t : τ) (timed : Bool) : World τ :=
  let w := { w with entered := w.entered + 1 }
  if w.x.done ≠ 0 then consume w t timed
  else move { w with x.task_list := w.x.task_list ++ [t] } t (.testing timed)

/-- The loop's test. -/
def wait_test (w : World τ) (t : τ) (timed : Bool) : World τ :=
  move w t (if w.x.done ≠ 0 then .relock timed else .about timed)

def kt_sleep (w : World τ) (t : τ) : World τ := { w with threads := Function.update w.threads t (w.threads t).kt_sleep.2 }
def kt_wakeup (w : World τ) (t : τ) : World τ := { w with threads := Function.update w.threads t (w.threads t).kt_wakeup }

/-- `__wait_common` behind its loop. -/
def wait_relock (w : World τ) (t : τ) (timed : Bool) : World τ :=
  let w := { w with x.task_list := w.x.task_list.erase t }
  if w.x.done = 0 then leave w t timed false else consume w t timed

def ke_complete (w : World τ) : World τ :=
  let w := { w with x.done := add w.x.done 1, completes := w.completes + 1 }
  match w.x.task_list with
  | [] => w
  | wait :: _ => kt_wakeup w wait

end Code

/-! ### Runs -/

inductive Act (τ : Type)
  | enter (t : τ) (timed : Bool)
  | test (t : τ)
  | sleep (t : τ)
  | resume (t : τ) (expired : Bool)
  | relock (t : τ)
  | complete
  | wakeup (t : τ)

section Runs
variable {τ : Type} [DecidableEq τ]

/-- One step; `none` when the thread is elsewhere or off the run queue. -/
def step (w : World τ) : Act τ → Option (World τ)
  | .enter t timed => if (w.threads t).asleep then none else
    match w.places t with
    | .outside => some (wait_enter w t timed)
    | _ => none
  | .test t => if (w.threads t).asleep then none else
    match w.places t with
    | .testing timed => some (wait_test w t timed)
    | _ => none
  | .sleep t => if (w.threads t).asleep then none else
    match w.places t with
    | .about timed => some (move (kt_sleep w t) t (.switching timed))
    | _ => none
  | .resume t expired => if (w.threads t).asleep then none else
    match w.places t with
    | .switching timed => some (move w t (if timed && expired then .relock timed else .testing timed))
    | _ => none
  | .relock t => if (w.threads t).asleep then none else
    match w.places t with
    | .relock timed => some (wait_relock w t timed)
    | _ => none
  | .complete => some (ke_complete w)
  | .wakeup t => some (kt_wakeup w t)

/-- A new completion, and threads that run outside it. -/
structure Started (w : World τ) : Prop where
  x : w.x = ke_init_completion
  awake : ∀ t, (w.threads t).asleep = false
  outside : ∀ t, w.places t = .outside
  completes : w.completes = 0
  entered : w.entered = 0
  returns : w.returns = []

/-- The states that steps within `ok` reach from `start`. -/
inductive Run (ok : World τ → Act τ → Prop) (start : World τ) : World τ → Prop
  | start : Run ok start start
  | act {w w' : World τ} {act : Act τ} (run : Run ok start w) (permitted : ok w act) (done : step w act = some w') :
      Run ok start w'

/-- What a step can do. -/
inductive Moves (w : World τ) : Act τ → World τ → Prop
  | enter {t : τ} {timed : Bool} (awake : (w.threads t).asleep = false) (place : w.places t = .outside) :
      Moves w (.enter t timed) (wait_enter w t timed)
  | test {t : τ} {timed : Bool} (awake : (w.threads t).asleep = false) (place : w.places t = .testing timed) :
      Moves w (.test t) (wait_test w t timed)
  | sleep {t : τ} {timed : Bool} (awake : (w.threads t).asleep = false) (place : w.places t = .about timed) :
      Moves w (.sleep t) (move (kt_sleep w t) t (.switching timed))
  | resume {t : τ} {timed expired : Bool} (awake : (w.threads t).asleep = false) (place : w.places t = .switching timed) :
      Moves w (.resume t expired) (move w t (if timed && expired then .relock timed else .testing timed))
  | relock {t : τ} {timed : Bool} (awake : (w.threads t).asleep = false) (place : w.places t = .relock timed) :
      Moves w (.relock t) (wait_relock w t timed)
  | complete : Moves w .complete (ke_complete w)
  | wakeup (t : τ) : Moves w (.wakeup t) (kt_wakeup w t)

theorem step_moves {w w' : World τ} {act : Act τ} (done : step w act = some w') : Moves w act w' := by
  have running {t : τ} {there : Option (World τ)} (done : (if (w.threads t).asleep then none else there) = some w') :
      (w.threads t).asleep = false ∧ there = some w' :=
    (Option.ite_none_left_eq_some.mp done).imp_left Bool.eq_false_iff.mpr
  cases act with
  | enter t timed =>
    obtain ⟨awake,done⟩ := running done
    split at done
    · next place =>
      obtain rfl := Option.some.inj done
      exact .enter awake place
    · cases done
  | test t =>
    obtain ⟨awake,done⟩ := running done
    split at done
    · next place =>
      obtain rfl := Option.some.inj done
      exact .test awake place
    · cases done
  | sleep t =>
    obtain ⟨awake,done⟩ := running done
    split at done
    · next place =>
      obtain rfl := Option.some.inj done
      exact .sleep awake place
    · cases done
  | resume t expired =>
    obtain ⟨awake,done⟩ := running done
    split at done
    · next place =>
      obtain rfl := Option.some.inj done
      exact .resume awake place
    · cases done
  | relock t =>
    obtain ⟨awake,done⟩ := running done
    split at done
    · next place =>
      obtain rfl := Option.some.inj done
      exact .relock awake place
    · cases done
  | complete =>
    obtain rfl := Option.some.inj done
    exact .complete
  | wakeup t =>
    obtain rfl := Option.some.inj done
    exact .wakeup t

end Runs

end GridOS.Complete
