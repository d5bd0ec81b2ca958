import GridOS.Sync

/-!
What every kind of synchronisation object relies on: the queues hold the threads that wait,
a thread is off the run queue only in its sleep, and a thread that has been woken checks its
objects again before it sleeps.
-/
namespace GridOS.Sync
open GridOS.Words

section Shapes
variable {ι ω τ : Type} [DecidableEq ι] [DecidableEq τ] {ops : kt_sync_ops ω τ} {w w' : World ι ω τ}
  {act : WaitAct ι τ} {result : Option (kt_sync_wait_result ι)}

/-- A queue holds the threads that have a node in it, once each, and threads sleep only in
    `kt_sleep`. -/
structure Shape (w : World ι ω τ) : Prop where
  listed : ∀ t i, t ∈ w.wait_queue i ↔ i ∈ (w.places t).listed
  nodup : ∀ i, (w.wait_queue i).Nodup
  awake : ∀ t, (∀ objects timed, w.places t ≠ .switching objects timed) → (w.threads t).asleep = false

/-- The thread runs and will check its objects before it sleeps. -/
def Alert (w : World ι ω τ) (t : τ) : Prop :=
  (w.threads t).asleep = false ∧ ∀ objects timed, w.places t = .about objects timed → (w.threads t).wakeup_count ≠ 0

/-- A wakeup of a thread that is about to sleep does not find its counter full. -/
def Countable (w : World ι ω τ) (t : τ) : Prop :=
  ∀ objects timed, w.places t = .about objects timed → (w.threads t).Roomy

omit [DecidableEq ι] in
@[simp] theorem move_place (w : World ι ω τ) (t : τ) (place : Place ι) : (move w t place).places t = place :=
  Function.update_self ..

omit [DecidableEq ι] in
theorem move_place_other {t u : τ} (other : u ≠ t) (w : World ι ω τ) (place : Place ι) :
    (move w t place).places u = w.places u := Function.update_of_ne other ..

/-! ### The outcomes of a check -/

/-- What `check_satisfied` can do. -/
inductive Checked (ops : kt_sync_ops ω τ) (w : World ι ω τ) (t : τ) (objects : List ι) (waiter_added timed : Bool) :
    World ι ω τ × Option (kt_sync_wait_result ι) → Prop
  | satisfied {i : ι} (member : i ∈ objects) (signaled : ops.signaled (w.objects i) t = .KE_SYNC_SIGNALED_OK)
      (first : objects.find? (fun i => ops.signaled (w.objects i) t ≠ .KE_SYNC_SIGNALED_NO) = some i) :
      Checked ops w t objects waiter_added timed
        (leave { w with objects := Function.update w.objects i (ops.satisfied (w.objects i) t) } t objects waiter_added,
          some (.KE_WAIT_OK i))
  | canceled {i : ι} (member : i ∈ objects) (canceled : ops.signaled (w.objects i) t = .KE_SYNC_SIGNALED_CANCEL) :
      Checked ops w t objects waiter_added timed (leave w t objects waiter_added,some .KE_WAIT_ABANDONED)
  | failed {result : kt_sync_wait_result ι} (quiet : ∀ i ∈ objects, ops.signaled (w.objects i) t = .KE_SYNC_SIGNALED_NO)
      (unserved : ∀ i, result ≠ .KE_WAIT_OK i) :
      Checked ops w t objects waiter_added timed (leave w t objects waiter_added,some result)
  | waits (quiet : ∀ i ∈ objects, ops.signaled (w.objects i) t = .KE_SYNC_SIGNALED_NO) (added : waiter_added = true) :
      Checked ops w t objects waiter_added timed (move w t (.about objects timed),none)
  | joins (quiet : ∀ i ∈ objects, ops.signaled (w.objects i) t = .KE_SYNC_SIGNALED_NO) (added : waiter_added = false) :
      Checked ops w t objects waiter_added timed (move (add_waiter w t objects) t (.about objects timed),none)

theorem check_satisfied_checked (t : τ) (objects : List ι) (waiter_added timed expired : Bool) :
    Checked ops w t objects waiter_added timed (check_satisfied ops w t objects waiter_added timed expired) := by
  rw [check_satisfied]
  split
  · rename_i i found
    have member := List.mem_of_find?_eq_some found
    have differs := List.find?_some found
    split
    · exact .satisfied member ‹_› found
    · rename_i not_ok
      refine .canceled member ?_
      cases status : ops.signaled (w.objects i) t with
      | KE_SYNC_SIGNALED_OK => exact absurd status not_ok
      | KE_SYNC_SIGNALED_CANCEL => rfl
      | KE_SYNC_SIGNALED_NO => simp [status] at differs
  · rename_i missing
    have quiet : ∀ i ∈ objects, ops.signaled (w.objects i) t = .KE_SYNC_SIGNALED_NO := by
      intro i member
      simpa using List.find?_eq_none.mp missing i member
    split
    · exact .failed quiet (fun i same => by cases same)
    split
    · exact .waits quiet ‹_›
    · rename_i not_added
      split
      · exact .failed quiet (fun i same => by cases same)
      · exact .joins quiet (Bool.eq_false_iff.mpr not_added)

/-! ### The shape is kept -/

omit [DecidableEq ι] [DecidableEq τ] in
/-- At the start nobody waits. -/
theorem started_shape (queue : ∀ i, w.wait_queue i = []) (outside : ∀ t, w.places t = .outside)
    (awake : ∀ t, (w.threads t).asleep = false) : Shape w := by
  refine ⟨?_,?_,fun t _ => awake t⟩
  · intro t i
    rw [queue,outside]
    simp [Place.listed]
  · intro i
    rw [queue]
    exact List.nodup_nil

omit [DecidableEq ι] in
/-- A thread that goes on runs. -/
theorem Shape.awake_moved {t : τ} {place : Place ι} (shape : Shape w) (awake : (w.threads t).asleep = false) (u : τ)
    (elsewhere : ∀ objects timed, (move w t place).places u ≠ .switching objects timed) :
    (w.threads u).asleep = false := by
  by_cases same : u = t
  · rw [same]
    exact awake
  · rw [move_place_other same] at elsewhere
    exact shape.awake u elsewhere

theorem leave_shape {t : τ} {objects : List ι} {waiter_added timed expired : Bool} (shape : Shape w)
    (awake : (w.threads t).asleep = false) (place : w.places t = .checking objects waiter_added timed expired) :
    Shape (leave w t objects waiter_added) := by
  have listed : ∀ i, t ∈ w.wait_queue i ↔ waiter_added = true ∧ i ∈ objects := by
    intro i
    rw [shape.listed,place]
    cases waiter_added <;> simp [Place.listed]
  refine ⟨?_,?_,fun u => shape.awake_moved awake u⟩
  · intro u i
    show u ∈ (if waiter_added = true ∧ i ∈ objects then (w.wait_queue i).erase t else w.wait_queue i) ↔
      i ∈ (Function.update w.places t .outside u).listed
    by_cases same : u = t
    · rw [same,Function.update_self]
      split
      · simp [(shape.nodup i).mem_erase_iff,Place.listed]
      · rename_i unlisted
        simp [listed,unlisted,Place.listed]
    · rw [Function.update_of_ne same,← shape.listed]
      split
      · simp [(shape.nodup i).mem_erase_iff,same]
      · rfl
  · intro i
    show (if waiter_added = true ∧ i ∈ objects then (w.wait_queue i).erase t else w.wait_queue i).Nodup
    split
    · exact (shape.nodup i).erase t
    · exact shape.nodup i

omit [DecidableEq ι] in
/-- The thread goes on to another place with the same nodes. -/
theorem move_shape {t : τ} {place : Place ι} (shape : Shape w) (awake : (w.threads t).asleep = false)
    (same_listed : place.listed = (w.places t).listed) : Shape (move w t place) := by
  refine ⟨?_,shape.nodup,fun u => shape.awake_moved awake u⟩
  intro u i
  by_cases same : u = t
  · rw [same,move_place,same_listed]
    exact shape.listed t i
  · rw [move_place_other same]
    exact shape.listed u i

theorem join_shape {t : τ} {objects : List ι} {timed : Bool} (shape : Shape w) (awake : (w.threads t).asleep = false)
    (unlisted : (w.places t).listed = []) : Shape (move (add_waiter w t objects) t (.about objects timed)) := by
  have absent : ∀ i, t ∉ w.wait_queue i := by
    intro i member
    rw [shape.listed,unlisted] at member
    exact List.not_mem_nil member
  refine ⟨?_,?_,fun u => shape.awake_moved awake u⟩
  · intro u i
    show u ∈ (if i ∈ objects then w.wait_queue i ++ [t] else w.wait_queue i) ↔
      i ∈ (Function.update w.places t (.about objects timed) u).listed
    by_cases same : u = t
    · rw [same,Function.update_self]
      split
      · rename_i member
        simp [Place.listed,member]
      · rename_i missing
        simp [Place.listed,missing,absent]
    · rw [Function.update_of_ne same,← shape.listed]
      split <;> simp [same]
  · intro i
    show (if i ∈ objects then w.wait_queue i ++ [t] else w.wait_queue i).Nodup
    split
    · exact (shape.nodup i).append (List.nodup_singleton t) (by simpa using absent i)
    · exact shape.nodup i

omit [DecidableEq ι] [DecidableEq τ] in
/-- Other states of the objects do not matter. -/
theorem objects_shape (shape : Shape w) (objects : ι → ω) : Shape { w with objects } :=
  ⟨shape.listed,shape.nodup,shape.awake⟩

theorem checked_shape {t : τ} {objects : List ι} {waiter_added timed expired : Bool}
    {outcome : World ι ω τ × Option (kt_sync_wait_result ι)} (shape : Shape w) (awake : (w.threads t).asleep = false)
    (place : w.places t = .checking objects waiter_added timed expired)
    (checked : Checked ops w t objects waiter_added timed outcome) : Shape outcome.1 := by
  cases checked with
  | satisfied member signaled first => exact leave_shape (objects_shape shape _) awake place
  | canceled member canceled => exact leave_shape shape awake place
  | failed quiet unserved => exact leave_shape shape awake place
  | waits quiet added =>
    refine move_shape shape awake ?_
    rw [place,added]
    rfl
  | joins quiet added =>
    refine join_shape shape awake ?_
    rw [place,added]
    rfl

theorem moves_shape (shape : Shape w) (moves : WaitMoves ops w act w' result) : Shape w' := by
  cases moves with
  | refuse => exact shape
  | call awake place => exact move_shape shape awake (by rw [place]; rfl)
  | check awake place nodup => exact checked_shape shape awake place (check_satisfied_checked ..)
  | sleep awake place =>
    rename_i t objects timed
    refine ⟨?_,shape.nodup,?_⟩
    · intro u i
      show u ∈ w.wait_queue i ↔ i ∈ (Function.update w.places t (.switching objects timed) u).listed
      by_cases same : u = t
      · rw [same,Function.update_self,shape.listed,place]
        rfl
      · rw [Function.update_of_ne same]
        exact shape.listed u i
    · intro u elsewhere
      by_cases same : u = t
      · rw [same] at elsewhere
        exact absurd (Function.update_self ..) (elsewhere objects timed)
      · have place_kept : (move (kt_sleep w t) t (.switching objects timed)).places u = w.places u :=
          Function.update_of_ne same ..
        have thread_kept : (move (kt_sleep w t) t (.switching objects timed)).threads u = w.threads u :=
          Function.update_of_ne same ..
        rw [place_kept] at elsewhere
        rw [thread_kept]
        exact shape.awake u elsewhere
  | resume awake place => exact move_shape shape awake (by rw [place]; rfl)

/-! ### Alert threads -/

omit [DecidableEq ι] [DecidableEq τ] in
theorem Alert.congr {t : τ} (alert : Alert w t) (thread : w'.threads t = w.threads t)
    (place : w'.places t = w.places t) : Alert w' t := by
  rw [Alert,thread,place]
  exact alert

omit [DecidableEq ι] in
/-- A thread that moves anywhere but before its sleep is alert while it runs. -/
theorem move_alert {t : τ} {place : Place ι} (awake : (w.threads t).asleep = false)
    (elsewhere : ∀ objects timed, place ≠ .about objects timed) : Alert (move w t place) t := by
  refine ⟨awake,?_⟩
  intro objects timed about
  rw [move_place] at about
  exact absurd about (elsewhere objects timed)

/-- Only its own check makes a thread less alert. -/
theorem alert_moves {u : τ} (alert : Alert w u) (moves : WaitMoves ops w act w' result) (other : act ≠ .check u) :
    Alert w' u := by
  cases moves with
  | refuse => exact alert
  | call awake place =>
    rename_i t objects timed expired
    by_cases same : u = t
    · rw [same]
      exact move_alert awake (by simp)
    · exact alert.congr rfl (move_place_other same w _)
  | check awake place nodup =>
    rename_i t objects waiter_added timed expired
    have differ : u ≠ t := fun same => other (by rw [same])
    have checked : Checked ops w t objects waiter_added timed _ :=
      check_satisfied_checked t objects waiter_added timed expired
    generalize check_satisfied ops w t objects waiter_added timed expired = outcome at checked
    cases checked with
    | satisfied member signaled first => exact alert.congr rfl (Function.update_of_ne differ ..)
    | canceled member canceled => exact alert.congr rfl (Function.update_of_ne differ ..)
    | failed quiet unserved => exact alert.congr rfl (Function.update_of_ne differ ..)
    | waits quiet added => exact alert.congr rfl (Function.update_of_ne differ ..)
    | joins quiet added => exact alert.congr rfl (Function.update_of_ne differ ..)
  | sleep awake place =>
    rename_i t objects timed
    by_cases same : u = t
    · -- a pending wakeup keeps the thread running
      rw [same] at alert ⊢
      have pending := alert.2 objects timed place
      refine ⟨?_,?_⟩
      · show (Function.update w.threads t _ t).asleep = false
        rw [Function.update_self,Sleeper.sleep_pending awake pending]
      · intro objects' timed' about
        rw [move_place] at about
        cases about
    · exact alert.congr (Function.update_of_ne same ..) (Function.update_of_ne same ..)
  | resume awake place =>
    rename_i t objects timed expired
    by_cases same : u = t
    · rw [same]
      exact move_alert awake (by simp)
    · exact alert.congr rfl (move_place_other same w _)

/-- Only checks change the queues and the objects. -/
theorem queue_moves (moves : WaitMoves ops w act w' result) (other : ∀ t, act ≠ .check t) :
    w'.wait_queue = w.wait_queue ∧ w'.objects = w.objects := by
  cases moves with
  | refuse => exact ⟨rfl,rfl⟩
  | call awake place => exact ⟨rfl,rfl⟩
  | check awake place nodup => exact absurd rfl (other _)
  | sleep awake place => exact ⟨rfl,rfl⟩
  | resume awake place => exact ⟨rfl,rfl⟩

/-! ### Wakeups -/

omit [DecidableEq ι] in
theorem wakeup_thread (w : World ι ω τ) (t : τ) : (kt_wakeup w t).threads t = (w.threads t).kt_wakeup :=
  Function.update_self ..

omit [DecidableEq ι] in
theorem wakeup_thread_other {t u : τ} (other : u ≠ t) (w : World ι ω τ) : (kt_wakeup w t).threads u = w.threads u :=
  Function.update_of_ne other ..

omit [DecidableEq ι] in
theorem wakeup_shape (shape : Shape w) (t : τ) : Shape (kt_wakeup w t) := by
  refine ⟨shape.listed,shape.nodup,?_⟩
  intro u elsewhere
  by_cases same : u = t
  · rw [same,wakeup_thread,Sleeper.wakeup_awake]
  · rw [wakeup_thread_other same]
    exact shape.awake u elsewhere

omit [DecidableEq ι] in
/-- A thread that has been woken checks its objects before it sleeps. -/
theorem wakeup_alert {t : τ} (shape : Shape w) (countable : Countable w t) : Alert (kt_wakeup w t) t := by
  refine ⟨by rw [wakeup_thread,Sleeper.wakeup_awake],?_⟩
  intro objects timed about
  have about : w.places t = .about objects timed := about
  have running := shape.awake t (by simp [about])
  rw [wakeup_thread,Sleeper.wakeup_pending (countable objects timed about) running]
  exact Nat.succ_ne_zero _

omit [DecidableEq ι] in
theorem Alert.wakeup {t u : τ} (alert : Alert w u) (shape : Shape w) (countable : Countable w t) :
    Alert (kt_wakeup w t) u := by
  by_cases same : u = t
  · rw [same]
    exact wakeup_alert shape countable
  · exact alert.congr (wakeup_thread_other same w) rfl

/-- What waking a list of threads does. -/
structure WokenAll (w w' : World ι ω τ) (woken : List τ) : Prop where
  shape : Shape w'
  objects : w'.objects = w.objects
  wait_queue : w'.wait_queue = w.wait_queue
  places : w'.places = w.places
  alert : ∀ t ∈ woken, Alert w' t
  others : ∀ t, t ∉ woken → w'.threads t = w.threads t

omit [DecidableEq ι] in
theorem foldl_wakeup {woken : List τ} : ∀ {w : World ι ω τ}, Shape w → woken.Nodup → (∀ t ∈ woken, Countable w t) →
    WokenAll w (woken.foldl kt_wakeup w) woken := by
  induction woken with
  | nil =>
    intro w shape _ _
    exact ⟨shape,rfl,rfl,rfl,fun t member => absurd member List.not_mem_nil,fun _ _ => rfl⟩
  | cons first rest ih =>
    intro w shape nodup countable
    obtain ⟨fresh,nodup_rest⟩ := List.nodup_cons.mp nodup
    have later : ∀ t ∈ rest, Countable (kt_wakeup w first) t := by
      intro t member objects timed about
      have other : t ≠ first := fun same => fresh (same ▸ member)
      rw [wakeup_thread_other other]
      exact countable t (List.mem_cons_of_mem _ member) objects timed about
    have all := ih (wakeup_shape shape first) nodup_rest later
    have first_alert := wakeup_alert shape (countable first List.mem_cons_self)
    refine ⟨all.shape,all.objects,all.wait_queue,all.places,?_,?_⟩
    · intro t member
      rcases List.mem_cons.mp member with rfl | in_rest
      · exact first_alert.congr (all.others t fresh) (congrFun all.places t)
      · exact all.alert t in_rest
    · intro t missing
      rw [List.mem_cons,not_or] at missing
      exact (all.others t missing.2).trans (wakeup_thread_other missing.1 w)

end Shapes

end GridOS.Sync
