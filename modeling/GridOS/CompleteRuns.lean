import GridOS.Complete

/-!
Runs of a completion. What is done and what has been consumed add up as long as `done`
does not wrap, and an infinite wait returns with a completion of its own unless another
thread took it between the test and the lock. A waiter is woken for every completion as
long as `ke_complete` is not called again while an earlier completion still waits for one
of several threads.
-/
namespace GridOS.Complete
open GridOS.Words

section Accounting
variable {τ : Type} [DecidableEq τ] {start w w' : World τ} {act : Act τ}

/-- `done` is what `ke_complete` calls have left of successful waits; an infinite wait that
    has returned was successful, so there are no more of them than completions. -/
structure Accounted (w : World τ) : Prop where
  balance : w.x.done + w.returns.countP (·.success) = w.completes
  consumed : ∀ r ∈ w.returns, r.timed = false → r.success = true
  bounded : w.returns.countP (fun r => !r.timed) ≤ w.completes

/-- Another infinite wait has seen a completion and has not taken the lock yet. -/
def Overtakes (w : World τ) (t : τ) : Prop := ∃ u, u ≠ t ∧ w.places u = .relock false

/-- `done` has room for another completion, and no wait overtakes an infinite one with the last
    completion. -/
def TameCount (w : World τ) : Act τ → Prop
  | .complete => w.x.done + 1 < modulus
  | .enter t _ | .relock t => w.x.done = 1 → ¬Overtakes w t
  | _ => True

/-- What a tame run keeps of its record; what an infinite wait has seen is still there. -/
structure CountInv (w : World τ) : Prop where
  word : w.x.done < modulus
  balance : w.x.done + w.returns.countP (·.success) = w.completes
  consumed : ∀ r ∈ w.returns, r.timed = false → r.success = true
  seen : ∀ t, w.places t = .relock false → w.x.done ≠ 0

omit [DecidableEq τ] in
theorem CountInv.accounted (inv : CountInv w) : Accounted w := by
  refine ⟨inv.balance,inv.consumed,?_⟩
  have fewer : w.returns.countP (fun r => !r.timed) ≤ w.returns.countP (·.success) := by
    apply List.countP_mono_left
    intro r member infinite
    exact inv.consumed r member (by simpa using infinite)
  have := inv.balance
  omega

theorem consume_done (w : World τ) (t : τ) (timed : Bool) : (consume w t timed).x.done = sub w.x.done 1 := rfl

theorem consume_returns (w : World τ) (t : τ) (timed : Bool) :
    (consume w t timed).returns = ⟨timed,true⟩ :: w.returns := rfl

theorem consume_completes (w : World τ) (t : τ) (timed : Bool) : (consume w t timed).completes = w.completes := by
  rw [consume,leave,move]

theorem consume_threads (w : World τ) (t : τ) (timed : Bool) : (consume w t timed).threads = w.threads := by
  rw [consume,leave,move]

theorem move_place (w : World τ) (t : τ) (place : Place) : (move w t place).places t = place := Function.update_self ..

theorem move_place_other {t u : τ} (other : u ≠ t) (w : World τ) (place : Place) :
    (move w t place).places u = w.places u := Function.update_of_ne other ..

/-- A completion is consumed, and it is not the last one that another infinite wait has seen. -/
theorem consume_count {t : τ} {timed : Bool} (inv : CountInv w) (some_done : w.x.done ≠ 0)
    (last : w.x.done = 1 → ¬Overtakes w t) : CountInv (consume w t timed) := by
  have exact_done : sub w.x.done 1 = w.x.done - 1 := sub_exact (by omega) inv.word
  refine ⟨?_,?_,?_,?_⟩
  · rw [consume_done,exact_done]
    exact Nat.lt_of_le_of_lt (Nat.sub_le w.x.done 1) inv.word
  · rw [consume_done,exact_done,consume_returns,consume_completes,List.countP_cons_of_pos rfl,← Nat.add_assoc,Nat.add_right_comm,
      Nat.sub_add_cancel (Nat.pos_of_ne_zero some_done)]
    exact inv.balance
  · intro r member infinite
    rcases List.mem_cons.mp member with rfl | old
    · rfl
    · exact inv.consumed r old infinite
  · intro u place
    rw [consume_done,exact_done]
    have other : u ≠ t := by
      rintro rfl
      rw [show (consume w u timed).places u = .outside from Function.update_self ..] at place
      cases place
    have seen : w.places u = .relock false := (Function.update_of_ne other ..).symm.trans place
    have more : w.x.done ≠ 1 := fun one => last one ⟨u,other,seen⟩
    omega

/-- A thread goes on to a place where it has seen nothing, or behind a test that has. -/
theorem move_count {t : τ} {place : Place} (inv : CountInv w) (seen : place = .relock false → w.x.done ≠ 0) :
    CountInv (move w t place) := by
  refine ⟨inv.word,inv.balance,inv.consumed,?_⟩
  intro u there
  by_cases same : u = t
  · rw [same,move_place] at there
    exact seen there
  · rw [move_place_other same] at there
    exact inv.seen u there

theorem moves_count (inv : CountInv w) (tame : TameCount w act) (moves : Moves w act w') : CountInv w' := by
  cases moves with
  | enter awake place =>
    rename_i t timed
    have entered : CountInv { w with entered := w.entered + 1 } := ⟨inv.word,inv.balance,inv.consumed,inv.seen⟩
    rw [wait_enter]
    dsimp only
    split
    · rename_i some_done
      exact consume_count entered some_done tame
    · exact move_count ⟨inv.word,inv.balance,inv.consumed,inv.seen⟩ nofun
  | test awake place =>
    rename_i t timed
    refine move_count inv ?_
    split
    · rename_i some_done
      exact fun _ => some_done
    · exact nofun
  | sleep awake place => exact move_count ⟨inv.word,inv.balance,inv.consumed,inv.seen⟩ nofun
  | resume awake place =>
    rename_i t timed expired
    refine move_count inv ?_
    -- only a wait with a timeout leaves its loop here
    cases timed <;> cases expired <;> exact nofun
  | relock awake place =>
    rename_i t timed
    have left : CountInv { w with x.task_list := w.x.task_list.erase t } := ⟨inv.word,inv.balance,inv.consumed,inv.seen⟩
    rw [wait_relock]
    dsimp only
    split
    · rename_i none_done
      have moved : CountInv (move { w with x.task_list := w.x.task_list.erase t } t .outside) := move_count left nofun
      refine ⟨moved.word,?_,?_,moved.seen⟩
      · show w.x.done + List.countP _ (⟨timed,false⟩ :: w.returns) = w.completes
        rw [List.countP_cons_of_neg (by simp)]
        exact inv.balance
      · intro r member infinite
        rcases List.mem_cons.mp member with rfl | old
        · obtain rfl : timed = false := infinite
          exact absurd none_done (inv.seen t place)
        · exact inv.consumed r old infinite
    · rename_i some_done
      exact consume_count left some_done tame
  | complete =>
    have room : add w.x.done 1 = w.x.done + 1 := add_exact tame
    have balance := inv.balance
    have after : CountInv { w with x.done := add w.x.done 1, completes := w.completes + 1 } := by
      refine ⟨?_,?_,inv.consumed,?_⟩
      · dsimp only
        rw [room]
        exact tame
      · show add w.x.done 1 + w.returns.countP (·.success) = w.completes + 1
        rw [room]
        omega
      · intro _ _
        dsimp only
        rw [room]
        exact Nat.succ_ne_zero _
    rw [ke_complete]
    dsimp only
    split
    · exact after
    · exact ⟨after.word,after.balance,after.consumed,after.seen⟩
  | wakeup t => exact ⟨inv.word,inv.balance,inv.consumed,inv.seen⟩

omit [DecidableEq τ] in
theorem started_count (started : Started start) : CountInv start := by
  have zero : start.x.done = 0 := by rw [started.x]; rfl
  refine ⟨?_,?_,?_,?_⟩
  · rw [zero]
    decide
  · rw [zero,started.returns,started.completes]
    rfl
  · rw [started.returns]
    exact fun r member => absurd member List.not_mem_nil
  · intro t place
    rw [started.outside] at place
    cases place

theorem run_count (started : Started start) (run : Run TameCount start w) : CountInv w := by
  induction run with
  | start => exact started_count started
  | act _ permitted done inv => exact moves_count inv permitted (step_moves done)

/-- In every state that tame steps reach the completions are accounted for. -/
theorem tame_run_accounted {start w : World τ} (started : Started start) (run : Run TameCount start w) : Accounted w :=
  (run_count started run).accounted

end Accounting

section Waking
variable {τ : Type} [DecidableEq τ] {start w w' : World τ} {act : Act τ}

/-! ### No waiter is left behind -/

/-- The thread runs and will look at `done` before it sleeps. -/
def Alert (w : World τ) (t : τ) : Prop :=
  (w.threads t).asleep = false ∧ ∀ timed, w.places t = .about timed → (w.threads t).wakeup_count ≠ 0

/-- While something is done, not all of the waiters sleep; and once all of them sleep, as many
    waits have returned as there were completions, or all of them. -/
structure NoneStranded (w : World τ) : Prop where
  alert : ¬(w.x.done ≠ 0 ∧ w.x.task_list ≠ [] ∧ ∀ t ∈ w.x.task_list, (w.threads t).asleep = true)
  returned : (∀ t ∈ w.x.task_list, (w.threads t).asleep = true) → min w.completes w.entered ≤ w.returns.length

/-- A wakeup of a thread that is about to sleep does not find its counter full. -/
def Countable (w : World τ) (t : τ) : Prop := ∀ timed, w.places t = .about timed → (w.threads t).Roomy

/-- `ke_complete` finds nothing done yet, or at most one thread on the list; and no counter
    wraps. -/
def TameWake (w : World τ) : Act τ → Prop
  | .complete => (w.x.done = 0 ∨ w.x.task_list.length ≤ 1) ∧ w.x.done + 1 < modulus ∧
      ∀ t ∈ w.x.task_list.head?, Countable w t
  | .wakeup t => Countable w t
  | _ => True

/-- The list holds the threads that wait; with something done one of them is alert, and with
    more than one completion there is only one. -/
structure WakeInv (w : World τ) : Prop where
  word : w.x.done < modulus
  nodup : w.x.task_list.Nodup
  inside : ∀ t, t ∈ w.x.task_list ↔ w.places t ≠ .outside
  awake : ∀ t, (∀ timed, w.places t ≠ .switching timed) → (w.threads t).asleep = false
  crowd : 2 ≤ w.x.done → w.x.task_list.length ≤ 1
  served : w.x.done ≠ 0 → w.x.task_list ≠ [] → ∃ t ∈ w.x.task_list, Alert w t
  waits : w.entered = w.returns.length + w.x.task_list.length
  balance : w.x.done + w.returns.countP (·.success) = w.completes

omit [DecidableEq τ] in
theorem WakeInv.noneStranded (inv : WakeInv w) : NoneStranded w := by
  have alert : ¬(w.x.done ≠ 0 ∧ w.x.task_list ≠ [] ∧ ∀ t ∈ w.x.task_list, (w.threads t).asleep = true) := by
    rintro ⟨some_done,some_waiter,all_asleep⟩
    obtain ⟨t,member,awake,_⟩ := inv.served some_done some_waiter
    rw [all_asleep t member] at awake
    cases awake
  refine ⟨alert,?_⟩
  intro all_asleep
  have waits := inv.waits
  have balance := inv.balance
  have most := List.countP_le_length (p := fun r : Return => r.success) (l := w.returns)
  by_cases empty : w.x.task_list = []
  · rw [empty,List.length_nil] at waits
    omega
  · have zero : w.x.done = 0 := by
      by_contra some_done
      exact alert ⟨some_done,empty,all_asleep⟩
    omega

omit [DecidableEq τ] in
theorem alert_congr {t : τ} (thread : w'.threads t = w.threads t) (place : w'.places t = w.places t)
    (alert : Alert w t) : Alert w' t := by
  rw [Alert,thread,place]
  exact alert

/-- A running thread goes to another place. -/
theorem moved_awake {t : τ} (inv : WakeInv w) (awake : (w.threads t).asleep = false) (place : Place) :
    ∀ u, (∀ timed, (move w t place).places u ≠ .switching timed) → (w.threads u).asleep = false := by
  intro u elsewhere
  by_cases same : u = t
  · rw [same]
    exact awake
  · rw [move_place_other same] at elsewhere
    exact inv.awake u elsewhere

/-- A thread of the list goes on to another place of its wait, and runs unless it sleeps there. -/
theorem move_wake {t : τ} {place : Place} (inv : WakeInv w) (member : t ∈ w.x.task_list) (within : place ≠ .outside)
    (awake : (w.threads t).asleep = false) (stays : w.x.done ≠ 0 → ∀ timed, place ≠ .about timed) :
    WakeInv (move w t place) := by
  refine ⟨inv.word,inv.nodup,?_,?_,inv.crowd,?_,inv.waits,inv.balance⟩
  · intro u
    by_cases same : u = t
    · rw [same,move_place]
      exact iff_of_true member within
    · rw [move_place_other same]
      exact inv.inside u
  · exact moved_awake inv awake place
  · intro some_done _
    refine ⟨t,member,awake,?_⟩
    intro timed about
    rw [move_place] at about
    exact absurd about (stays some_done timed)

/-- A waiter leaves the list with something done, or a thread that never joined it does. -/
theorem consume_wake {t : τ} {timed : Bool} {task_list : List τ} (inv : WakeInv w) (some_done : w.x.done ≠ 0)
    (awake : (w.threads t).asleep = false) (nodup : task_list.Nodup) (fewer : task_list.length ≤ w.x.task_list.length)
    (others : ∀ u, u ∈ task_list ↔ u ≠ t ∧ u ∈ w.x.task_list)
    (alone : w.x.task_list.length ≤ 1 → t ∈ w.x.task_list → task_list = []) (entered : Nat)
    (waits : entered = w.returns.length + 1 + task_list.length) :
    WakeInv (consume { w with entered, x.task_list := task_list } t timed) := by
  have exact_done : sub w.x.done 1 = w.x.done - 1 := sub_exact (by omega) inv.word
  have shrunk : (consume { w with entered, x.task_list := task_list } t timed).x.done = w.x.done - 1 := exact_done
  have listed : (consume { w with entered, x.task_list := task_list } t timed).x.task_list = task_list := by
    rw [consume,leave,move]
  have kept : ∀ u, u ≠ t → (consume { w with entered, x.task_list := task_list } t timed).places u = w.places u :=
    fun u other => Function.update_of_ne other ..
  have gone : (consume { w with entered, x.task_list := task_list } t timed).places t = .outside :=
    Function.update_self ..
  refine ⟨?_,?_,?_,?_,?_,?_,?_,?_⟩
  · rw [shrunk]
    exact Nat.lt_of_le_of_lt (Nat.sub_le w.x.done 1) inv.word
  · rw [listed]
    exact nodup
  · intro u
    rw [listed,others]
    by_cases same : u = t
    · rw [same,gone]
      simp
    · rw [kept u same,← inv.inside]
      simp [same]
  · intro u elsewhere
    by_cases same : u = t
    · rw [same]
      exact awake
    · rw [kept u same] at elsewhere
      exact inv.awake u elsewhere
  · rw [shrunk,listed]
    intro many
    exact Nat.le_trans fewer (inv.crowd (by omega))
  · rw [shrunk,listed]
    intro still some_waiter
    have single := inv.crowd (by omega)
    obtain ⟨u,member⟩ := List.exists_mem_of_ne_nil _ some_waiter
    have old := (others u).mp member
    obtain ⟨v,in_list,alert⟩ := inv.served some_done (List.ne_nil_of_mem old.2)
    by_cases same : v = t
    · rw [same] at in_list
      exact absurd (alone single in_list) some_waiter
    · exact ⟨v,(others v).mpr ⟨same,in_list⟩,alert_congr (by rw [consume_threads]) (kept v same) alert⟩
  · rw [listed,consume_returns,List.length_cons,← waits]
    rw [consume,leave,move]
  · rw [shrunk,consume_returns,consume_completes,List.countP_cons_of_pos rfl,← Nat.add_assoc,Nat.add_right_comm,
      Nat.sub_add_cancel (Nat.pos_of_ne_zero some_done)]
    exact inv.balance

theorem wakeup_thread (w : World τ) (t : τ) : (kt_wakeup w t).threads t = (w.threads t).kt_wakeup :=
  Function.update_self ..

theorem wakeup_thread_other {t u : τ} (other : u ≠ t) (w : World τ) : (kt_wakeup w t).threads u = w.threads u :=
  Function.update_of_ne other ..

/-- Wakeups do not put a thread to sleep. -/
theorem wakeup_stays (t u : τ) (awake : (w.threads u).asleep = false) : ((kt_wakeup w t).threads u).asleep = false := by
  by_cases same : u = t
  · rw [same,wakeup_thread,Sleeper.wakeup_awake]
  · rw [wakeup_thread_other same]
    exact awake

/-- A thread that has been woken looks at `done` before it sleeps. -/
theorem wakeup_alert {t : τ} (awake : ∀ timed, w.places t = .about timed → (w.threads t).asleep = false)
    (countable : Countable w t) : Alert (kt_wakeup w t) t := by
  refine ⟨?_,?_⟩
  · rw [wakeup_thread,Sleeper.wakeup_awake]
  · intro timed about
    rw [wakeup_thread,Sleeper.wakeup_pending (countable timed about) (awake timed about)]
    exact Nat.succ_ne_zero _

omit [DecidableEq τ] in
theorem WakeInv.about_awake (inv : WakeInv w) (t : τ) : ∀ timed, w.places t = .about timed → (w.threads t).asleep = false := by
  intro timed about
  refine inv.awake t (fun timed' => ?_)
  rw [about]
  simp

theorem wakeup_wake {t : τ} (inv : WakeInv w) (countable : Countable w t) : WakeInv (kt_wakeup w t) := by
  refine ⟨inv.word,inv.nodup,inv.inside,?_,inv.crowd,?_,inv.waits,inv.balance⟩
  · intro u elsewhere
    exact wakeup_stays t u (inv.awake u elsewhere)
  · intro some_done some_waiter
    obtain ⟨u,member,alert⟩ := inv.served some_done some_waiter
    by_cases same : u = t
    · refine ⟨u,member,?_⟩
      rw [same]
      exact wakeup_alert (inv.about_awake t) countable
    · exact ⟨u,member,alert_congr (wakeup_thread_other same w) rfl alert⟩

theorem complete_wake (inv : WakeInv w) (tame : TameWake w .complete) : WakeInv (ke_complete w) := by
  obtain ⟨first_done,room,countable⟩ := tame
  have grown : add w.x.done 1 = w.x.done + 1 := add_exact room
  have balance := inv.balance
  rw [ke_complete]
  dsimp only
  rw [grown]
  split
  · rename_i empty
    have empty : w.x.task_list = [] := empty
    refine ⟨room,inv.nodup,inv.inside,inv.awake,?_,fun _ some_waiter => absurd empty some_waiter,inv.waits,?_⟩
    · intro _
      rw [empty]
      exact Nat.zero_le _
    · dsimp only
      omega
  · rename_i first rest listed
    have listed : w.x.task_list = first :: rest := listed
    refine ⟨room,inv.nodup,inv.inside,?_,?_,?_,inv.waits,?_⟩
    · intro u elsewhere
      exact wakeup_stays first u (inv.awake u elsewhere)
    · intro many
      have : 2 ≤ w.x.done + 1 := many
      exact first_done.resolve_left (by omega)
    · intro _ _
      refine ⟨first,?_,?_⟩
      · show first ∈ w.x.task_list
        rw [listed]
        exact List.mem_cons_self
      · exact wakeup_alert (inv.about_awake first) (countable first (by rw [listed]; rfl))
    · show w.x.done + 1 + w.returns.countP (·.success) = w.completes + 1
      omega

omit [DecidableEq τ] in
theorem waiter_listed {t : τ} (inv : WakeInv w) (waits : w.places t ≠ .outside) : t ∈ w.x.task_list :=
  (inv.inside t).mpr waits

theorem enter_wake {t : τ} {timed : Bool} (inv : WakeInv w) (awake : (w.threads t).asleep = false)
    (place : w.places t = .outside) : WakeInv (wait_enter w t timed) := by
  have newcomer : t ∉ w.x.task_list := fun member => (inv.inside t).mp member place
  have waits := inv.waits
  rw [wait_enter]
  dsimp only
  split
  · rename_i some_done
    refine consume_wake inv some_done awake inv.nodup (Nat.le_refl _) ?_ (fun _ member => absurd member newcomer) _ ?_
    · intro u
      refine ⟨fun member => ⟨?_,member⟩,fun both => both.2⟩
      rintro rfl
      exact newcomer member
    · omega
  · rename_i nothing
    rw [not_not] at nothing
    refine ⟨inv.word,?_,?_,?_,?_,?_,?_,inv.balance⟩
    · exact inv.nodup.append (List.nodup_singleton t) (by simpa using newcomer)
    · intro u
      show u ∈ w.x.task_list ++ [t] ↔ (move w t (.testing timed)).places u ≠ .outside
      by_cases same : u = t
      · rw [same,move_place]
        simp
      · rw [move_place_other same,← inv.inside]
        simp [same]
    · exact moved_awake inv awake (.testing timed)
    · intro many
      have : w.x.done = 0 := nothing
      have : 2 ≤ w.x.done := many
      omega
    · exact fun some_done => absurd nothing some_done
    · show w.entered + 1 = w.returns.length + (w.x.task_list ++ [t]).length
      rw [List.length_append,List.length_singleton]
      omega

theorem sleep_wake {t : τ} {timed : Bool} (inv : WakeInv w) (awake : (w.threads t).asleep = false)
    (place : w.places t = .about timed) : WakeInv (move (kt_sleep w t) t (.switching timed)) := by
  have member := waiter_listed inv (by rw [place]; simp : w.places t ≠ .outside)
  have threads_other : ∀ u, u ≠ t → (move (kt_sleep w t) t (.switching timed)).threads u = w.threads u :=
    fun u other => Function.update_of_ne other ..
  have thread_self : (move (kt_sleep w t) t (.switching timed)).threads t = (w.threads t).kt_sleep.2 :=
    Function.update_self ..
  have places_other : ∀ u, u ≠ t → (move (kt_sleep w t) t (.switching timed)).places u = w.places u :=
    fun u other => Function.update_of_ne other ..
  have place_self : (move (kt_sleep w t) t (.switching timed)).places t = .switching timed := Function.update_self ..
  refine ⟨inv.word,inv.nodup,?_,?_,inv.crowd,?_,inv.waits,inv.balance⟩
  · intro u
    by_cases same : u = t
    · rw [same,place_self]
      exact iff_of_true member (by simp)
    · rw [places_other u same]
      exact inv.inside u
  · intro u elsewhere
    by_cases same : u = t
    · rw [same,place_self] at elsewhere
      exact absurd rfl (elsewhere timed)
    · rw [places_other u same] at elsewhere
      rw [threads_other u same]
      exact inv.awake u elsewhere
  · intro some_done some_waiter
    obtain ⟨u,in_list,alert⟩ := inv.served some_done some_waiter
    by_cases same : u = t
    · -- a pending wakeup keeps the thread running
      have pending := alert.2 timed (by rw [same]; exact place)
      rw [same] at pending
      refine ⟨t,member,?_,?_⟩
      · rw [thread_self,Sleeper.sleep_pending awake pending]
      · intro timed' about
        rw [place_self] at about
        cases about
    · exact ⟨u,in_list,alert_congr (threads_other u same) (places_other u same) alert⟩

theorem relock_wake {t : τ} {timed : Bool} (inv : WakeInv w) (awake : (w.threads t).asleep = false)
    (place : w.places t = .relock timed) : WakeInv (wait_relock w t timed) := by
  have member := waiter_listed inv (by rw [place]; simp : w.places t ≠ .outside)
  have others : ∀ u, u ∈ w.x.task_list.erase t ↔ u ≠ t ∧ u ∈ w.x.task_list := fun u => inv.nodup.mem_erase_iff
  have size := List.length_erase_of_mem member
  have positive := List.length_pos_of_mem member
  have waits := inv.waits
  rw [wait_relock]
  dsimp only
  split
  · rename_i nothing
    refine ⟨inv.word,inv.nodup.erase t,?_,?_,?_,fun some_done => absurd nothing some_done,?_,?_⟩
    · intro u
      show u ∈ w.x.task_list.erase t ↔ (move w t .outside).places u ≠ .outside
      by_cases same : u = t
      · rw [same,move_place,others]
        simp
      · rw [move_place_other same,others,← inv.inside]
        simp [same]
    · exact moved_awake inv awake .outside
    · intro many
      have : 2 ≤ w.x.done := many
      have : w.x.done = 0 := nothing
      omega
    · show w.entered = w.returns.length + 1 + (w.x.task_list.erase t).length
      omega
    · show w.x.done + List.countP _ (⟨timed,false⟩ :: w.returns) = w.completes
      rw [List.countP_cons_of_neg (by simp)]
      exact inv.balance
  · rename_i some_done
    refine consume_wake inv some_done awake (inv.nodup.erase t) (by omega) others ?_ w.entered (by omega)
    intro single _
    exact List.length_eq_zero_iff.mp (by omega)

theorem moves_wake (inv : WakeInv w) (tame : TameWake w act) (moves : Moves w act w') : WakeInv w' := by
  cases moves with
  | enter awake place => exact enter_wake inv awake place
  | test awake place =>
    rename_i t timed
    rw [wait_test]
    refine move_wake inv (waiter_listed inv (by rw [place]; simp)) ?_ awake ?_
    · split <;> simp
    · intro some_done timed'
      rw [if_pos some_done]
      simp
  | sleep awake place => exact sleep_wake inv awake place
  | resume awake place =>
    refine move_wake inv (waiter_listed inv (by rw [place]; simp)) ?_ awake ?_
    · split <;> simp
    · intro _ timed'
      split <;> simp
  | relock awake place => exact relock_wake inv awake place
  | complete => exact complete_wake inv tame
  | wakeup t => exact wakeup_wake inv tame

omit [DecidableEq τ] in
theorem started_wake (started : Started start) : WakeInv start := by
  have zero : start.x.done = 0 := by rw [started.x]; rfl
  have empty : start.x.task_list = [] := by rw [started.x]; rfl
  refine ⟨?_,?_,?_,fun t _ => started.awake t,?_,fun some_done => absurd zero some_done,?_,?_⟩
  · rw [zero]
    decide
  · rw [empty]
    exact List.nodup_nil
  · intro t
    rw [empty,started.outside]
    simp
  · rw [empty]
    exact fun _ => Nat.zero_le _
  · rw [empty,started.entered,started.returns]
    rfl
  · rw [zero,started.returns,started.completes]
    rfl

theorem run_wake (started : Started start) (run : Run TameWake start w) : WakeInv w := by
  induction run with
  | start => exact started_wake started
  | act _ permitted done inv => exact moves_wake inv permitted (step_moves done)

/-- In every state that tame steps reach no waiter is stranded. -/
theorem tame_run_none_stranded {start w : World τ} (started : Started start) (run : Run TameWake start w) :
    NoneStranded w := (run_wake started run).noneStranded

end Waking

/-- A new completion for threads that are numbered. -/
def fresh : World Nat where
  x := ke_init_completion
  threads := fun _ => ⟨false,0⟩
  places := fun _ => .outside
  completes := 0
  entered := 0
  returns := []

theorem fresh_started : Started fresh := ⟨rfl,fun _ => rfl,fun _ => rfl,rfl,rfl,rfl⟩

/-- Two infinite waits that are completed, one of them while the other has seen its completion already. -/
theorem tame_run_accounted_one_wait : ∃ w, Run TameCount fresh w ∧ w.returns.length = 2 ∧ Accounted w := by
  have tame : ∀ {w : World Nat} {act : Act Nat} {w' : World Nat}, Run TameCount fresh w → TameCount w act → step w act = some w' →
      Run TameCount fresh w' := fun run ok done => .act run ok done
  have r₁ := tame .start (show TameCount fresh (.enter 0 false) from nofun) rfl
  have r₂ := tame r₁ (show TameCount _ (.test 0) from trivial) rfl
  have r₃ := tame r₂ (show TameCount _ .complete from (by decide : 0 + 1 < modulus)) rfl
  have r₄ := tame r₃ (show TameCount _ (.sleep 0) from trivial) rfl
  have r₅ := tame r₄ (show TameCount _ (.resume 0 false) from trivial) rfl
  have r₆ := tame r₅ (show TameCount _ (.test 0) from trivial) rfl
  have r₇ := tame r₆ (show TameCount _ .complete from (by decide : 1 + 1 < modulus)) rfl
  have r₈ := tame r₇ (show TameCount _ (.enter 1 false) from nofun) rfl
  have r₉ := tame r₈ (show TameCount _ (.relock 0) from by
    rintro _ ⟨u,other,place⟩
    match u with
    | 0 => exact other rfl
    | 1 => exact absurd place nofun
    | u+2 =>
      have outside : Place.outside = .relock false := place
      cases outside) rfl
  exact ⟨_,r₉,rfl,tame_run_accounted fresh_started r₉⟩

/-- Thread 0 sees a completion, thread 1 comes and consumes it, and both waits return: two
    infinite waits for one completion. -/
theorem completion_stolen : Started fresh ∧ ∃ w, List.foldlM step fresh
      [.enter 0 false,.test 0,.sleep 0,.complete,.resume 0 false,.test 0,.enter 1 false,.relock 0] = some w ∧
    w.completes = 1 ∧ w.returns = [⟨false,false⟩,⟨false,true⟩] ∧ ¬Accounted w := by
  refine ⟨fresh_started,_,rfl,rfl,rfl,?_⟩
  intro accounted
  exact absurd accounted.bounded (by decide)

/-- Two waiters, one completion and one wait that returns. -/
theorem tame_run_none_stranded_two_waiters : ∃ w, Run TameWake fresh w ∧ w.x.task_list = [1] ∧ w.returns.length = 1 ∧
    NoneStranded w := by
  have tame : ∀ {w : World Nat} {act : Act Nat} {w' : World Nat}, Run TameWake fresh w → TameWake w act →
      step w act = some w' → Run TameWake fresh w' := fun run ok done => .act run ok done
  have r₁ := tame .start (show TameWake fresh (.enter 0 false) from trivial) rfl
  have r₂ := tame r₁ (show TameWake _ (.test 0) from trivial) rfl
  have r₃ := tame r₂ (show TameWake _ (.sleep 0) from trivial) rfl
  have r₄ := tame r₃ (show TameWake _ (.enter 1 false) from trivial) rfl
  have r₅ := tame r₄ (show TameWake _ .complete from ⟨.inl rfl,by decide,fun t first timed about => by
    cases first
    cases about⟩) rfl
  have r₆ := tame r₅ (show TameWake _ (.resume 0 false) from trivial) rfl
  have r₇ := tame r₆ (show TameWake _ (.test 0) from trivial) rfl
  have r₈ := tame r₇ (show TameWake _ (.relock 0) from trivial) rfl
  exact ⟨_,r₈,rfl,rfl,tame_run_none_stranded fresh_started r₈⟩

/-- Two threads sleep, and both of two completions wake the first: the second sleeps on with
    one completion left. -/
theorem second_waiter_stranded : Started fresh ∧ ∃ w, List.foldlM step fresh
      [.enter 0 false,.test 0,.sleep 0,.enter 1 false,.test 1,.sleep 1,.complete,.complete,.resume 0 false,.test 0,
        .relock 0] = some w ∧
    w.x.done = 1 ∧ w.x.task_list = [1] ∧ w.threads 1 = ⟨true,0⟩ ∧ ¬NoneStranded w := by
  refine ⟨fresh_started,_,rfl,rfl,rfl,rfl,?_⟩
  intro none_stranded
  refine none_stranded.alert ⟨by decide,by decide,?_⟩
  intro t member
  obtain rfl := List.mem_singleton.mp member
  rfl

end GridOS.Complete
