import GridOS.Sleeper

/-!
Waiting for synchronisation objects, `source/kernel/process/sync.c`: the loop of
`kt_wait_objects` over any objects that can say whether they are signaled, and
`kt_sync_wakeup`. What a thread does between locking its objects and unlocking them is
one step. A timeout only tells when none is left; its timer's wakeup is one that may
come at any time.
-/
namespace GridOS.Sync

def KE_SYNC_STATIC_WAIT_NODE_COUNT : Nat := 4
def Y_SYNC_MAX_OBJS_COUNT : Nat := 64

inductive kt_sync_status
  | KE_SYNC_SIGNALED_OK
  | KE_SYNC_SIGNALED_CANCEL
  | KE_SYNC_SIGNALED_NO
  deriving DecidableEq

/-- `KE_WAIT_OK` comes with the object that was waited for. -/
inductive kt_sync_wait_result (ι : Type)
  | KE_WAIT_OK (id : ι)
  | KE_WAIT_TIMEDOUT
  | KE_WAIT_ABANDONED

/-- The operations of a kind of objects with states `ω`, for threads `τ`. -/
structure kt_sync_ops (ω τ : Type) where
  satisfied : ω → τ → ω
  signaled : ω → τ → kt_sync_status

/-- Where a thread is in `kt_wait_objects`: before `check_satisfied`, with its nodes added or
    not, with a timeout or not, and whether no time is left; behind it and before its sleep; or
    in its sleep. -/
inductive Place (ι : Type)
  | outside
  | checking (objects : List ι) (waiter_added timed expired : Bool)
  | about (objects : List ι) (timed : Bool)
  | switching (objects : List ι) (timed : Bool)

/-- The objects whose queues have a node of the thread. -/
def Place.listed {ι : Type} : Place ι → List ι
  | .checking objects true _ _ => objects
  | .about objects _ => objects
  | .switching objects _ => objects
  | _ => []

structure World (ι ω τ : Type) where
  objects : ι → ω
  wait_queue : ι → List τ
  threads : τ → Sleeper
  places : τ → Place ι

section Code
variable {ι ω τ : Type} [DecidableEq ι] [DecidableEq τ]

def move (w : World ι ω τ) (t : τ) (place : Place ι) : World ι ω τ :=
  { w with places := Function.update w.places t place }

def kt_sleep (w : World ι ω τ) (t : τ) : World ι ω τ :=
  { w with threads := Function.update w.threads t (w.threads t).kt_sleep.2 }
def kt_wakeup (w : World ι ω τ) (t : τ) : World ι ω τ :=
  { w with threads := Function.update w.threads t (w.threads t).kt_wakeup }

/-- The first `count` waiters are woken, all of them if it is 0; the number is that of the
    waiters whose round of the loop reaches its end. -/
def kt_sync_wakeup (w : World ι ω τ) (sync : ι) (count : Nat) : Nat × World ι ω τ :=
  let woken := if count = 0 then w.wait_queue sync else (w.wait_queue sync).take count
  (if count = 0 ∨ woken.length < count then woken.length else count - 1,woken.foldl kt_wakeup w)

/-- The code behind `out2`: the nodes are deleted. -/
def leave (w : World ι ω τ) (t : τ) (objects : List ι) (waiter_added : Bool) : World ι ω τ :=
  move { w with wait_queue := fun i =>
    if waiter_added ∧ i ∈ objects then (w.wait_queue i).erase t else w.wait_queue i } t .outside

/-- The nodes are added. -/
def add_waiter (w : World ι ω τ) (t : τ) (objects : List ι) : World ι ω τ :=
  { w with wait_queue := fun i => if i ∈ objects then w.wait_queue i ++ [t] else w.wait_queue i }

/-- From `check_satisfied` to the sleep or the end; no result when the thread is to sleep. -/
def check_satisfied (ops : kt_sync_ops ω τ) (w : World ι ω τ) (t : τ) (objects : List ι)
    (waiter_added timed expired : Bool) : World ι ω τ × Option (kt_sync_wait_result ι) :=
  match objects.find? (fun i => ops.signaled (w.objects i) t ≠ .KE_SYNC_SIGNALED_NO) with
  | some i =>
    if ops.signaled (w.objects i) t = .KE_SYNC_SIGNALED_OK then
      (leave { w with objects := Function.update w.objects i (ops.satisfied (w.objects i) t) } t objects waiter_added,
        some (.KE_WAIT_OK i))
    else (leave w t objects waiter_added,some .KE_WAIT_ABANDONED)
  | none =>
    if expired then (leave w t objects waiter_added,some .KE_WAIT_TIMEDOUT) else
    if waiter_added then (move w t (.about objects timed),none) else
    -- nodes beyond the static ones cannot be had, and the first ones are deleted again
    if objects.length > KE_SYNC_STATIC_WAIT_NODE_COUNT then (leave w t objects waiter_added,some .KE_WAIT_ABANDONED)
    else (move (add_waiter w t objects) t (.about objects timed),none)

end Code

/-! ### Steps of the waits -/

inductive WaitAct (ι τ : Type)
  | call (t : τ) (objects : List ι) (timed expired : Bool)
  | check (t : τ)
  | sleep (t : τ)
  | resume (t : τ) (expired : Bool)

section Steps
variable {ι ω τ : Type} [DecidableEq ι] [DecidableEq τ]

/-- One step of a wait, and the result if the wait returns; `none` when the thread is elsewhere
    or off the run queue, or locks an object twice. -/
def wait_step (ops : kt_sync_ops ω τ) (w : World ι ω τ) :
    WaitAct ι τ → Option (World ι ω τ × Option (kt_sync_wait_result ι))
  | .call t objects timed expired => if (w.threads t).asleep then none else
    match w.places t with
    | .outside =>
      if objects.length > Y_SYNC_MAX_OBJS_COUNT then some (w,some .KE_WAIT_ABANDONED)
      else some (move w t (.checking objects false timed (timed && expired)),none)
    | _ => none
  | .check t => if (w.threads t).asleep then none else
    match w.places t with
    | .checking objects waiter_added timed expired =>
      if objects.Nodup then some (check_satisfied ops w t objects waiter_added timed expired) else none
    | _ => none
  | .sleep t => if (w.threads t).asleep then none else
    match w.places t with
    | .about objects timed => some (move (kt_sleep w t) t (.switching objects timed),none)
    | _ => none
  | .resume t expired => if (w.threads t).asleep then none else
    match w.places t with
    | .switching objects timed => some (move w t (.checking objects true timed (timed && expired)),none)
    | _ => none

/-- What a step of a wait can do. -/
inductive WaitMoves (ops : kt_sync_ops ω τ) (w : World ι ω τ) :
    WaitAct ι τ → World ι ω τ → Option (kt_sync_wait_result ι) → Prop
  | refuse {t : τ} {objects : List ι} {timed expired : Bool} :
      WaitMoves ops w (.call t objects timed expired) w (some .KE_WAIT_ABANDONED)
  | call {t : τ} {objects : List ι} {timed expired : Bool} (awake : (w.threads t).asleep = false)
      (place : w.places t = .outside) : WaitMoves ops w (.call t objects timed expired)
        (move w t (.checking objects false timed (timed && expired))) none
  | check {t : τ} {objects : List ι} {waiter_added timed expired : Bool} (awake : (w.threads t).asleep = false)
      (place : w.places t = .checking objects waiter_added timed expired) (nodup : objects.Nodup) :
      WaitMoves ops w (.check t) (check_satisfied ops w t objects waiter_added timed expired).1
        (check_satisfied ops w t objects waiter_added timed expired).2
  | sleep {t : τ} {objects : List ι} {timed : Bool} (awake : (w.threads t).asleep = false)
      (place : w.places t = .about objects timed) :
      WaitMoves ops w (.sleep t) (move (kt_sleep w t) t (.switching objects timed)) none
  | resume {t : τ} {objects : List ι} {timed expired : Bool} (awake : (w.threads t).asleep = false)
      (place : w.places t = .switching objects timed) :
      WaitMoves ops w (.resume t expired) (move w t (.checking objects true timed (timed && expired))) none

variable {ops : kt_sync_ops ω τ} {w w' : World ι ω τ} {act : WaitAct ι τ} {result : Option (kt_sync_wait_result ι)}

theorem step_moves (done : wait_step ops w act = some (w',result)) : WaitMoves ops w act w' result := by
  have awake_of : ∀ {t : τ}, ¬(w.threads t).asleep = true → (w.threads t).asleep = false := Bool.eq_false_iff.mpr
  cases act with
  | call t objects timed expired =>
    simp only [wait_step] at done
    split at done
    · cases done
    split at done
    · split at done
      · cases done
        exact .refuse
      · cases done
        exact .call (awake_of ‹_›) ‹_›
    · cases done
  | check t =>
    simp only [wait_step] at done
    split at done
    · cases done
    split at done
    · split at done
      · rename_i nodup
        have same := Option.some.inj done
        rw [show w' = _ from (congrArg Prod.fst same).symm,show result = _ from (congrArg Prod.snd same).symm]
        exact .check (awake_of ‹_›) ‹_› nodup
      · cases done
    · cases done
  | sleep t =>
    simp only [wait_step] at done
    split at done
    · cases done
    split at done
    · cases done
      exact .sleep (awake_of ‹_›) ‹_›
    · cases done
  | resume t expired =>
    simp only [wait_step] at done
    split at done
    · cases done
    split at done
    · cases done
      exact .resume (awake_of ‹_›) ‹_›
    · cases done

end Steps

end GridOS.Sync
