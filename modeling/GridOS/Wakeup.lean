import GridOS.SchedRuns
import GridOS.Sleeper

/-!
Wakeups of one thread of the scheduler. `Waiting` says what a wakeup is for: one that
finds the thread off the queue puts it back, and one that finds it running is kept for
its next `kt_sleep`. The counter of the code has 32 bits; as long as it does not wrap,
the thread does what `Waiting` says. The second part runs a loop that waits for a
condition against any number of wakers.
-/
namespace GridOS.Wakeup
open GridOS.Words GridOS.Sched

/-- A thread that may be off the queue, and whether a wakeup is to be answered by its next
    `kt_sleep`. -/
structure Waiting where
  asleep : Bool
  unanswered : Bool

/-- Whether the thread is suspended. -/
def Waiting.sleep (w : Waiting) : Bool × Waiting :=
  if w.asleep then (true,w) else
  if w.unanswered then (false,{ w with unanswered := false }) else (true,{ w with asleep := true })

def Waiting.wakeup (w : Waiting) : Waiting :=
  if w.asleep then { w with asleep := false } else { w with unanswered := true }

/-- What the thread `who` is in the eyes of its wakers. -/
def view (s : System) (who : Nat) : Sleeper where
  asleep := base (s.threads who).state != KT_STATE_RUNNING
  wakeup_count := (s.threads who).wakeup_count

/-- The thread is neither a driver's nor forced to sleep nor dieing. -/
structure Plain (s : System) (who : Nat) : Prop where
  driver : (s.threads who).desc_of_driver = false
  force : has_flag (s.threads who).state KT_STATE_ADD_FORCE_BY_SYSTEM = false
  dieing : has_flag (s.threads who).state KT_STATE_ADD_DIEING = false
  level : (s.threads who).priority_level < KT_PRIORITY_COUNT
  object : 0 < who ∧ who < modulus

/-- The thread is in the queue of its level once if it runs, and in no other queue. -/
structure InQueue (s : System) (who : Nat) : Prop where
  running : (view s who).asleep = false → (s.cpu.run_queue (s.threads who).priority_level).count who = 1
  resting : (view s who).asleep = true → ∀ p < KT_PRIORITY_COUNT, who ∉ s.cpu.run_queue p
  level : ∀ p < KT_PRIORITY_COUNT, who ∈ s.cpu.run_queue p → p = (s.threads who).priority_level

/-- No `kt_sleep` of `who` is forced. -/
def Unforced (who : Nat) (s : System) : Act → Prop
  | .sleep stat => s.cpu.cur = who → has_flag stat KT_STATE_ADD_FORCE_BY_SYSTEM = false
  | _ => True

/-- `who` is not told to sleep in the running state unless a wakeup is pending, and no wakeup
    finds its counter full. -/
def TameFor (who : Nat) (s : System) : Act → Prop
  | .sleep stat => s.cpu.cur = who → ((view s who).asleep = false ∧ (view s who).wakeup_count ≠ 0) ∨
      base stat ≠ KT_STATE_RUNNING
  | .wakeup t => t = who → (view s who).Roomy
  | _ => True

/-- What a step is for the thread `who`. -/
def follow (who : Nat) (s : System) (w : Waiting) : Act → Waiting
  | .sleep _ => if s.cpu.cur = who then w.sleep.2 else w
  | .wakeup t => if t = who then w.wakeup else w
  | _ => w

/-- The states that steps reach from `start`, with what has happened to `who`. -/
inductive Run (who : Nat) (start : System) : System → Waiting → Prop
  | start : Run who start start ⟨true,false⟩
  | act {s s' : System} {w : Waiting} {act : Act} (run : Run who start s w) (unforced : Unforced who s act)
      (tame : TameFor who s act) (done : step s act = some s') : Run who start s' (follow who s w act)

/-- `who` has not been woken yet. -/
structure Fresh (s : System) (who : Nat) : Prop where
  plain : Plain s who
  resting : base (s.threads who).state ≠ KT_STATE_RUNNING
  wakeup_count : (s.threads who).wakeup_count = 0
  unlinked : ∀ p < KT_PRIORITY_COUNT, who ∉ s.cpu.run_queue p

/-- No wakeup of `who` is lost: the thread is off the queue only without an unanswered wakeup;
    a wakeup that came while it ran makes its next `kt_sleep` return false and leaves the
    queues alone; and a wakeup of the sleeping thread queues it once. -/
structure NoneLost (who : Nat) (s : System) (w : Waiting) : Prop where
  off_queue : (∀ p < KT_PRIORITY_COUNT, who ∉ s.cpu.run_queue p) → w.asleep = true ∧ w.unanswered = false
  on_queue : w.asleep = false → (s.cpu.run_queue (s.threads who).priority_level).count who = 1
  kept : ∀ stat, s.cpu.cur = who → has_flag stat KT_STATE_ADD_FORCE_BY_SYSTEM = false → w.unanswered = true →
    (kt_sleep s stat).1 = false ∧ (kt_sleep s stat).2.cpu = s.cpu
  answer : ∀ stat, s.cpu.cur = who → has_flag stat KT_STATE_ADD_FORCE_BY_SYSTEM = false →
    (kt_sleep s stat).1 = w.sleep.1
  requeued : w.asleep = true → ∃ s', kt_wakeup s who = some s' ∧
    s'.cpu.run_queue (s.threads who).priority_level = s.cpu.run_queue (s.threads who).priority_level ++ [who] ∧
    (s'.cpu.run_queue (s.threads who).priority_level).count who = 1

section Steps
variable {who : Nat} {s s' : System} {w : Waiting}

/-! ### Steps that leave the thread alone -/

/-- The thread and its places in the queues are the same. -/
structure Frame (who : Nat) (s s' : System) : Prop where
  thread : s'.threads who = s.threads who
  count : ∀ p, (s'.cpu.run_queue p).count who = (s.cpu.run_queue p).count who

theorem Frame.view (frame : Frame who s s') : view s' who = view s who := by
  simp [Wakeup.view,frame.thread]

theorem Frame.mem (frame : Frame who s s') (p : Nat) : who ∈ s'.cpu.run_queue p ↔ who ∈ s.cpu.run_queue p := by
  rw [← List.count_pos_iff,← List.count_pos_iff,frame.count]

theorem Frame.plain (frame : Frame who s s') (plain : Plain s who) : Plain s' who := by
  obtain ⟨driver,force,dieing,level,object⟩ := plain
  exact ⟨frame.thread ▸ driver,frame.thread ▸ force,frame.thread ▸ dieing,frame.thread ▸ level,object⟩

theorem Frame.inQueue (frame : Frame who s s') (queue : InQueue s who) : InQueue s' who := by
  refine ⟨?_,?_,?_⟩
  · rw [frame.view,frame.thread,frame.count]
    exact queue.running
  · intro asleep p below here
    rw [frame.view] at asleep
    exact queue.resting asleep p below ((frame.mem p).mp here)
  · intro p below here
    rw [frame.thread]
    exact queue.level p below ((frame.mem p).mp here)

theorem set_thread_other {t : Nat} (other : t ≠ who) (state : ko_thread) :
    (set_thread s t state).threads who = s.threads who := Function.update_of_ne (Ne.symm other) ..

theorem sleep_frame {stat : BitVec 32} (other : s.cpu.cur ≠ who) : Frame who s (kt_sleep s stat).2 := by
  simp only [kt_sleep]
  split
  · split
    · exact ⟨set_thread_other other _,fun _ => rfl⟩
    · refine ⟨set_thread_other other _,?_⟩
      intro p
      show ((dequeue s.cpu s.cpu.cur _).run_queue p).count who = _
      rw [dequeue_run_queue,List.count_erase_of_ne (Ne.symm other)]
  · exact ⟨set_thread_other other _,fun _ => rfl⟩

theorem wakeup_frame {t : Nat} (other : t ≠ who) (done : kt_wakeup s t = some s') : Frame who s s' := by
  obtain rfl | ⟨_,_,rfl⟩ | ⟨_,rfl⟩ := wakeup_cases done
  · exact ⟨rfl,fun _ => rfl⟩
  · refine ⟨set_thread_other other _,?_⟩
    intro p
    show ((enqueue s.cpu t _).run_queue p).count who = _
    by_cases here : p = (s.threads t).priority_level
    · rw [here,enqueue_run_queue,List.count_append]
      simp [other]
    · rw [enqueue_run_queue_other _ _ here]
  · exact ⟨set_thread_other other _,fun _ => rfl⟩

theorem wakeup_driver_frame {t : Nat} (plain : Plain s who) (done : kt_wakeup_driver s t = some s') : Frame who s s' := by
  obtain ⟨driver,_,rfl⟩ := wakeup_driver_cases done
  have other : t ≠ who := by
    rintro rfl
    rw [plain.driver] at driver
    cases driver
  exact ⟨set_thread_other other _,fun _ => rfl⟩

theorem count_rotate (queue : List Nat) (t : Nat) : (list_rotate_left queue).count t = queue.count t := by
  cases queue with
  | nil => rfl
  | cons first rest => exact (List.perm_append_singleton first rest).count_eq t

theorem schedule_frame (done : schedule s = some s') : Frame who s s' := by
  obtain ⟨r,selected,rfl⟩ := Option.map_eq_some_iff.mp done
  rw [select_in_queue] at selected
  split at selected
  · cases selected
  · obtain ⟨next,_,rfl⟩ := Option.map_eq_some_iff.mp selected
    refine ⟨rfl,?_⟩
    intro p
    show (Function.update s.cpu.run_queue _ _ p).count who = _
    by_cases here : p = ffs s.cpu.run_mask
    · rw [here,Function.update_self,count_rotate]
    · rw [Function.update_of_ne here]

theorem schedule_driver_frame : Frame who s (kt_schedule_driver s) := by
  rw [kt_schedule_driver]
  split <;> exact ⟨rfl,fun _ => rfl⟩

/-! ### The thread's own steps -/

/-- Changing the base state leaves the additional flags. -/
theorem set_base_flag {flag : BitVec 32} (outside : flag &&& KT_STATE_MASK = 0) (state stat : BitVec 32) :
    has_flag (set_base state stat) flag = has_flag state flag := by
  have same : set_base state stat &&& flag = state &&& flag := by
    ext i inside
    have bit : (flag &&& KT_STATE_MASK)[i] = false := by simp [outside]
    rw [BitVec.getElem_and] at bit
    simp only [set_base,BitVec.getElem_and,BitVec.getElem_or,BitVec.getElem_not]
    revert bit
    cases state[i] <;> cases stat[i] <;> cases KT_STATE_MASK[i] <;> cases flag[i] <;> simp
  rw [has_flag,has_flag,same]

theorem view_asleep : (view s who).asleep = true ↔ base (s.threads who).state ≠ KT_STATE_RUNNING := by
  simp [view]

theorem view_running : (view s who).asleep = false ↔ base (s.threads who).state = KT_STATE_RUNNING := by
  simp [view]

theorem view_eq {t : ko_thread} (same : s'.threads who = t) :
    view s' who = ⟨base t.state != KT_STATE_RUNNING,t.wakeup_count⟩ := by
  rw [view,same]

/-- The thread with another base state is as plain as before. -/
theorem Plain.set_base (plain : Plain s who) {stat : BitVec 32}
    (same : s'.threads who = { s.threads who with state := Sched.set_base (s.threads who).state stat }) : Plain s' who := by
  obtain ⟨driver,force,dieing,level,object⟩ := plain
  refine ⟨?_,?_,?_,?_,object⟩
  · rw [same]
    exact driver
  · rw [same,set_base_flag (by decide)]
    exact force
  · rw [same,set_base_flag (by decide)]
    exact dieing
  · rw [same]
    exact level

/-- The thread with another count of pending wakeups is as plain as before. -/
theorem Plain.set_count (plain : Plain s who) {n : Nat}
    (same : s'.threads who = { s.threads who with wakeup_count := n }) : Plain s' who := by
  obtain ⟨driver,force,dieing,level,object⟩ := plain
  refine ⟨?_,?_,?_,?_,object⟩ <;> rw [same]
  · exact driver
  · exact force
  · exact dieing
  · exact level

/-- A running thread with another count of pending wakeups is where it was in the queues. -/
theorem InQueue.set_count (queue : InQueue s who) (running : (view s who).asleep = false) {n : Nat}
    (same : s'.threads who = { s.threads who with wakeup_count := n }) (cpu : s'.cpu = s.cpu) : InQueue s' who := by
  refine ⟨?_,?_,?_⟩
  · intro _
    rw [same,cpu]
    exact queue.running running
  · intro asleep
    rw [view_eq same] at asleep
    exact absurd (view_asleep.mp asleep) (not_not.mpr (view_running.mp running))
  · intro p below member
    rw [cpu] at member
    rw [same]
    exact queue.level p below member

theorem InQueue.mem (queue : InQueue s who) (running : (view s who).asleep = false) :
    who ∈ s.cpu.run_queue (s.threads who).priority_level := by
  rw [← List.count_pos_iff,queue.running running]
  decide

/-- What `kt_sleep` does to the thread that calls it. -/
structure Slept (who : Nat) (s : System) (stat : BitVec 32) : Prop where
  result : (kt_sleep s stat).1 = (view s who).kt_sleep.1
  view : view (kt_sleep s stat).2 who = (view s who).kt_sleep.2
  plain : Plain (kt_sleep s stat).2 who
  queue : InQueue (kt_sleep s stat).2 who

theorem sleep_pending {stat : BitVec 32} (self : s.cpu.cur = who)
    (unforced : has_flag stat KT_STATE_ADD_FORCE_BY_SYSTEM = false) (running : (view s who).asleep = false)
    (pending : (view s who).wakeup_count ≠ 0) :
    kt_sleep s stat = (false,set_thread s who { s.threads who with wakeup_count := 0 }) := by
  simp only [kt_sleep,self]
  rw [if_pos (view_running.mp running),if_pos ⟨unforced,pending⟩]

theorem sleep_self {stat : BitVec 32} (plain : Plain s who) (queue : InQueue s who) (self : s.cpu.cur = who)
    (unforced : has_flag stat KT_STATE_ADD_FORCE_BY_SYSTEM = false)
    (tame : ((view s who).asleep = false ∧ (view s who).wakeup_count ≠ 0) ∨ base stat ≠ KT_STATE_RUNNING) :
    Slept who s stat := by
  by_cases running : base (s.threads who).state = KT_STATE_RUNNING
  · have awake := view_running.mpr running
    by_cases pending : (s.threads who).wakeup_count ≠ 0
    · have done := sleep_pending self unforced awake pending
      have here : (set_thread s who { s.threads who with wakeup_count := 0 }).threads who =
        { s.threads who with wakeup_count := 0 } := Function.update_self ..
      refine ⟨?_,?_,?_,?_⟩
      · rw [done,Sleeper.sleep_pending awake pending]
      · rw [done,Sleeper.sleep_pending awake pending,view_eq here]
        simp [running]
      · rw [done]
        exact plain.set_count here
      · rw [done]
        exact queue.set_count awake here rfl
    · have rests := tame.resolve_left (fun both => pending both.2)
      have done : kt_sleep s stat = (true,set_thread { s with cpu := dequeue s.cpu who (s.threads who).priority_level } who
          { s.threads who with state := set_base (s.threads who).state stat }) := by
        simp only [kt_sleep,self]
        rw [if_pos running,if_neg (fun both => pending both.2),unforced]
        rfl
      have here : (kt_sleep s stat).2.threads who = { s.threads who with state := set_base (s.threads who).state stat } := by
        rw [done]
        exact Function.update_self ..
      have gone : ∀ p < KT_PRIORITY_COUNT, who ∉ (kt_sleep s stat).2.cpu.run_queue p := by
        intro p below
        rw [done]
        show who ∉ (dequeue s.cpu who _).run_queue p
        rw [dequeue_run_queue,← List.count_eq_zero,List.count_erase_self]
        by_cases level : p = (s.threads who).priority_level
        · rw [level,queue.running awake]
        · rw [List.count_eq_zero.mpr (fun member => level (queue.level p below member))]
      refine ⟨?_,?_,plain.set_base here,?_,?_,?_⟩
      · rw [done,Sleeper.sleep_plain awake (not_not.mp pending)]
      · rw [Sleeper.sleep_plain awake (not_not.mp pending),view_eq here]
        simp only [base_set_base,not_not.mp pending]
        simp [rests]
      · intro awake_after
        rw [view_eq here] at awake_after
        simp [rests] at awake_after
      · exact fun _ => gone
      · exact fun p below member => absurd member (gone p below)
  · have asleep := view_asleep.mpr running
    have rests := tame.resolve_left (fun both => by rw [asleep] at both; exact absurd both.1 (by decide))
    have done : kt_sleep s stat =
        (true,set_thread s who { s.threads who with state := set_base (s.threads who).state stat }) := by
      simp only [kt_sleep,self]
      rw [if_neg running]
    have here : (kt_sleep s stat).2.threads who = { s.threads who with state := set_base (s.threads who).state stat } := by
      rw [done]
      exact Function.update_self ..
    refine ⟨?_,?_,plain.set_base here,?_,?_,?_⟩
    · rw [done,Sleeper.sleep_again asleep]
    · rw [Sleeper.sleep_again asleep,view_eq here,base_set_base,view,bne_iff_ne.mpr rests,bne_iff_ne.mpr running]
    · intro awake_after
      rw [view_eq here] at awake_after
      simp [rests] at awake_after
    · rw [done]
      exact fun _ => queue.resting asleep
    · rw [done]
      exact fun p below member => absurd member (queue.resting asleep p below)

/-- What `kt_wakeup` does to the thread it wakes. -/
structure Woken (who : Nat) (s s' : System) : Prop where
  done : kt_wakeup s who = some s'
  view : view s' who = (view s who).kt_wakeup
  plain : Plain s' who
  queue : InQueue s' who
  joined : (Wakeup.view s who).asleep = true →
    s'.cpu.run_queue (s.threads who).priority_level = s.cpu.run_queue (s.threads who).priority_level ++ [who] ∧
    (s'.cpu.run_queue (s.threads who).priority_level).count who = 1

theorem wakeup_self (plain : Plain s who) (queue : InQueue s who) : ∃ s', Woken who s s' := by
  by_cases running : base (s.threads who).state = KT_STATE_RUNNING
  · have awake := view_running.mpr running
    have here : (set_thread s who { s.threads who with wakeup_count := add (s.threads who).wakeup_count 1 }).threads who =
      { s.threads who with wakeup_count := add (s.threads who).wakeup_count 1 } := Function.update_self ..
    refine ⟨set_thread s who { s.threads who with wakeup_count := add (s.threads who).wakeup_count 1 },?_,?_,?_,?_,?_⟩
    · simp only [kt_wakeup]
      rw [if_neg (not_not.mpr running)]
    · rw [view_eq here,Sleeper.kt_wakeup,if_neg (by simp [awake])]
      rfl
    · exact plain.set_count here
    · exact queue.set_count awake here rfl
    · intro asleep
      rw [awake] at asleep
      cases asleep
  · have asleep := view_asleep.mpr running
    have unlinked := queue.resting asleep
    have here : (set_thread { s with cpu := enqueue s.cpu who (s.threads who).priority_level } who
      { s.threads who with state := set_base (s.threads who).state KT_STATE_RUNNING }).threads who =
      { s.threads who with state := set_base (s.threads who).state KT_STATE_RUNNING } := Function.update_self ..
    have once : ((enqueue s.cpu who (s.threads who).priority_level).run_queue (s.threads who).priority_level).count who = 1 := by
      rw [enqueue_run_queue,List.count_append,List.count_eq_zero.mpr (unlinked _ plain.level)]
      simp
    refine ⟨_,?_,?_,plain.set_base here,?_,?_⟩
    · simp only [kt_wakeup]
      rw [if_pos running,plain.force,plain.dieing,list_empty_iff.mpr unlinked]
      rfl
    · rw [view_eq here,Sleeper.kt_wakeup,if_pos asleep,base_set_base]
      rfl
    · refine ⟨?_,?_,?_⟩
      · intro _
        rw [here]
        exact once
      · intro asleep_after
        rw [view_eq here,base_set_base] at asleep_after
        exact absurd (show (base KT_STATE_RUNNING != KT_STATE_RUNNING) = true from asleep_after) (by decide)
      · intro p below member
        rw [here]
        by_contra other
        have member : who ∈ (enqueue s.cpu who (s.threads who).priority_level).run_queue p := member
        rw [enqueue_run_queue_other _ _ other] at member
        exact unlinked p below member
    · exact fun _ => ⟨enqueue_run_queue ..,once⟩

/-! ### Runs -/

/-- The thread is where `w` says, and pending wakeups are counted while it runs. -/
structure Inv (who : Nat) (s : System) (w : Waiting) : Prop where
  plain : Plain s who
  queue : InQueue s who
  asleep : w.asleep = (view s who).asleep
  unanswered : w.unanswered = true ↔ (view s who).wakeup_count ≠ 0
  resting : (view s who).asleep = true → (view s who).wakeup_count = 0

theorem Fresh.inv (fresh : Fresh s who) : Inv who s ⟨true,false⟩ := by
  have asleep := view_asleep.mpr fresh.resting
  refine ⟨fresh.plain,⟨?_,fun _ => fresh.unlinked,?_⟩,asleep.symm,?_,fun _ => fresh.wakeup_count⟩
  · intro running
    rw [asleep] at running
    cases running
  · exact fun p below member => absurd member (fresh.unlinked p below)
  · show false = true ↔ (s.threads who).wakeup_count ≠ 0
    simp [fresh.wakeup_count]

theorem Inv.frame (inv : Inv who s w) (frame : Frame who s s') : Inv who s' w := by
  refine ⟨frame.plain inv.plain,frame.inQueue inv.queue,?_,?_,?_⟩
  · rw [frame.view]
    exact inv.asleep
  · rw [frame.view]
    exact inv.unanswered
  · rw [frame.view]
    exact inv.resting

/-- `kt_sleep` of the code and of `Waiting`. -/
theorem Inv.sleep_agrees (inv : Inv who s w) : (view s who).kt_sleep.1 = w.sleep.1 ∧
    w.sleep.2.asleep = (view s who).kt_sleep.2.asleep ∧
    (w.sleep.2.unanswered = true ↔ (view s who).kt_sleep.2.wakeup_count ≠ 0) ∧
    ((view s who).kt_sleep.2.asleep = true → (view s who).kt_sleep.2.wakeup_count = 0) := by
  obtain ⟨asleep,unanswered⟩ := w
  obtain rfl : asleep = (view s who).asleep := inv.asleep
  have counted : unanswered = true ↔ (view s who).wakeup_count ≠ 0 := inv.unanswered
  cases running : (view s who).asleep with
  | true =>
    have none_pending := inv.resting running
    rw [Sleeper.sleep_again running]
    refine ⟨rfl,running.symm,counted,inv.resting⟩
  | false =>
    by_cases pending : (view s who).wakeup_count ≠ 0
    · obtain rfl := counted.mpr pending
      rw [Sleeper.sleep_pending running pending]
      simp [Waiting.sleep]
    · obtain rfl : unanswered = false := by
        rw [← Bool.not_eq_true,counted]
        exact pending
      rw [Sleeper.sleep_plain running (not_not.mp pending)]
      simp [Waiting.sleep]

theorem Inv.sleep {stat : BitVec 32} (inv : Inv who s w) (slept : Slept who s stat) :
    Inv who (kt_sleep s stat).2 w.sleep.2 := by
  obtain ⟨_,asleep,unanswered,resting⟩ := inv.sleep_agrees
  refine ⟨slept.plain,slept.queue,?_,?_,?_⟩ <;> rw [slept.view]
  · exact asleep
  · exact unanswered
  · exact resting

theorem Inv.wakeup (inv : Inv who s w) (roomy : (view s who).Roomy) (woken : Woken who s s') : Inv who s' w.wakeup := by
  obtain ⟨asleep,unanswered⟩ := w
  obtain rfl : asleep = (view s who).asleep := inv.asleep
  have counted : unanswered = true ↔ (view s who).wakeup_count ≠ 0 := inv.unanswered
  refine ⟨woken.plain,woken.queue,?_,?_,?_⟩ <;> rw [woken.view]
  · rw [Sleeper.wakeup_awake]
    cases (view s who).asleep <;> rfl
  · cases running : (view s who).asleep with
    | true =>
      rw [Sleeper.wakeup_count_asleep running]
      exact counted
    | false =>
      rw [Sleeper.wakeup_pending roomy running]
      simp [Waiting.wakeup]
  · rw [Sleeper.wakeup_awake]
    exact fun awake => absurd awake (by decide)

theorem act_inv {act : Act} (inv : Inv who s w) (unforced : Unforced who s act) (tame : TameFor who s act)
    (done : step s act = some s') : Inv who s' (follow who s w act) := by
  cases act with
  | sleep stat =>
    obtain rfl := Option.some.inj done
    by_cases self : s.cpu.cur = who
    · rw [follow,if_pos self]
      exact inv.sleep (sleep_self inv.plain inv.queue self (unforced self) (tame self))
    · rw [follow,if_neg self]
      exact inv.frame (sleep_frame self)
  | wakeup t =>
    by_cases self : t = who
    · rw [follow,if_pos self]
      obtain ⟨s'',woken⟩ := wakeup_self inv.plain inv.queue
      have again : kt_wakeup s t = some s' := done
      rw [self,woken.done] at again
      obtain rfl := Option.some.inj again
      exact inv.wakeup (tame self) woken
    · rw [follow,if_neg self]
      exact inv.frame (wakeup_frame self done)
  | wakeup_driver t => exact inv.frame (wakeup_driver_frame inv.plain done)
  | select => exact inv.frame (schedule_frame done)
  | schedule_driver =>
    obtain rfl := Option.some.inj done
    exact inv.frame schedule_driver_frame

theorem run_inv {start : System} (fresh : Fresh start who) (run : Run who start s w) : Inv who s w := by
  induction run with
  | start => exact fresh.inv
  | act _ unforced tame done inv => exact act_inv inv unforced tame done

theorem Inv.noneLost (inv : Inv who s w) : NoneLost who s w := by
  have awake_of : (view s who).wakeup_count ≠ 0 → (view s who).asleep = false := by
    intro pending
    rw [← Bool.not_eq_true]
    exact fun asleep => pending (inv.resting asleep)
  refine ⟨?_,?_,?_,?_,?_⟩
  · intro off
    have asleep : (view s who).asleep = true := by
      rw [← Bool.not_eq_false]
      exact fun running => off _ inv.plain.level (inv.queue.mem running)
    refine ⟨inv.asleep.trans asleep,?_⟩
    rw [← Bool.not_eq_true,inv.unanswered]
    exact not_not.mpr (inv.resting asleep)
  · intro awake
    exact inv.queue.running (inv.asleep.symm.trans awake)
  · intro stat self unforced pending
    have count := inv.unanswered.mp pending
    rw [sleep_pending self unforced (awake_of count) count]
    exact ⟨rfl,rfl⟩
  · intro stat self unforced
    -- the answer does not depend on the base state that the thread is given
    rw [← inv.sleep_agrees.1]
    by_cases pending : (view s who).asleep = false ∧ (view s who).wakeup_count ≠ 0
    · rw [sleep_pending self unforced pending.1 pending.2,Sleeper.sleep_pending pending.1 pending.2]
    · have slept : Slept who s KT_STATE_WAITING_SYNC :=
        sleep_self inv.plain inv.queue self (by decide) (.inr (by decide))
      rw [← slept.result]
      simp only [kt_sleep,self]
      by_cases running : base (s.threads who).state = KT_STATE_RUNNING
      · have count : (s.threads who).wakeup_count = 0 := by
          by_contra some_pending
          exact pending ⟨view_running.mpr running,some_pending⟩
        simp [running,count]
      · simp [running]
  · intro asleep
    obtain ⟨s',woken⟩ := wakeup_self inv.plain inv.queue
    exact ⟨s',woken.done,woken.joined (inv.asleep.symm.trans asleep)⟩

end Steps

/-! ### Waiting for a condition -/

/-- Where the thread is in `while (!cond) kt_sleep(stat)`: before the test, behind a test that
    found the condition false, suspended, or behind the loop. -/
inductive Place
  | testing
  | about
  | switching
  | done
  deriving DecidableEq

/-- The loop of one thread, and how many wakers have set the condition and not called
    `kt_wakeup` yet. -/
structure Loop where
  system : System
  place : Place
  cond : Bool
  between : Nat

/-- The thread `who` in its loop, wakers that set the condition and then wake it, and whatever
    else is scheduled, slept and woken. A suspended `kt_sleep` returns when the thread is
    selected again. -/
inductive LoopRun (who : Nat) (start : Loop) : Loop → Prop
  | start : LoopRun who start start
  | test {l : Loop} (run : LoopRun who start l) (self : l.system.cpu.cur = who) (place : l.place = .testing) :
      LoopRun who start { l with place := if l.cond then .done else .about }
  | sleep {l : Loop} {stat : BitVec 32} (run : LoopRun who start l) (self : l.system.cpu.cur = who)
      (place : l.place = .about) (unforced : Unforced who l.system (.sleep stat))
      (tame : TameFor who l.system (.sleep stat)) (switches : has_flag stat KT_STATE_ADD_NO_SWITCHING = false) :
      LoopRun who start { l with
        system := (kt_sleep l.system stat).2
        place := if (kt_sleep l.system stat).1 then .switching else .testing }
  | resume {l : Loop} {s' : System} (run : LoopRun who start l) (place : l.place = .switching)
      (done : schedule l.system = some s') (self : s'.cpu.cur = who) :
      LoopRun who start { l with system := s', place := .testing }
  | set {l : Loop} (run : LoopRun who start l) : LoopRun who start { l with cond := true, between := l.between + 1 }
  | wake {l : Loop} {s' : System} (run : LoopRun who start l) (waker : 0 < l.between)
      (tame : TameFor who l.system (.wakeup who)) (done : kt_wakeup l.system who = some s') :
      LoopRun who start { l with system := s', between := l.between - 1 }
  | other {l : Loop} {s' : System} {act : Act} (run : LoopRun who start l)
      (elsewhere : ∀ stat, act = .sleep stat → l.system.cpu.cur ≠ who) (tame : TameFor who l.system act)
      (done : step l.system act = some s') : LoopRun who start { l with system := s' }

section Loops
variable {who : Nat} {start l : Loop} {w : Waiting}

/-- Unless a waker is still to call `kt_wakeup`, a thread that sleeps has not missed the
    condition, and one that is about to sleep has a wakeup to answer. -/
structure LoopInv (who : Nat) (l : Loop) (w : Waiting) : Prop where
  inv : Inv who l.system w
  awake : l.place ≠ .switching → w.asleep = false
  about : l.place = .about → l.cond = false ∨ 0 < l.between ∨ w.unanswered = true
  asleep : w.asleep = true → l.cond = false ∨ 0 < l.between

/-- A thread that has been selected was in a queue. -/
theorem selected_queued {s s' : System} (done : schedule s = some s') :
    ∃ p < KT_PRIORITY_COUNT, s'.cpu.cur ∈ s.cpu.run_queue p := by
  obtain ⟨r,selected,rfl⟩ := Option.map_eq_some_iff.mp done
  rw [select_in_queue] at selected
  split at selected
  · cases selected
  · rename_i set
    obtain ⟨next,head,rfl⟩ := Option.map_eq_some_iff.mp selected
    exact ⟨_,(ffs_spec set).1,(mem_rotate _).mp (List.mem_of_mem_head? head)⟩

theorem wakeup_loop {s' : System} (loop : LoopInv who l w) (tame : TameFor who l.system (.wakeup who))
    (done : kt_wakeup l.system who = some s') (between : Nat) :
    LoopInv who { l with system := s', between } w.wakeup := by
  have inv : Inv who s' w.wakeup := by
    have after := act_inv loop.inv (show Unforced who l.system (.wakeup who) from trivial) tame done
    rwa [follow,if_pos rfl] at after
  have awake : w.wakeup.asleep = false := by
    rw [Waiting.wakeup]
    split
    · rfl
    · rename_i running
      exact Bool.eq_false_iff.mpr running
  refine ⟨inv,fun _ => awake,?_,?_⟩
  · intro place
    have running := loop.awake (by rw [show l.place = .about from place]; decide)
    rw [Waiting.wakeup,running]
    exact .inr (.inr rfl)
  · intro asleep
    rw [awake] at asleep
    cases asleep

theorem frame_loop {s' : System} (loop : LoopInv who l w) (frame : Frame who l.system s') :
    LoopInv who { l with system := s' } w := ⟨loop.inv.frame frame,loop.awake,loop.about,loop.asleep⟩

theorem sleep_loop {stat : BitVec 32} (loop : LoopInv who l w) (self : l.system.cpu.cur = who) (place : l.place = .about)
    (unforced : Unforced who l.system (.sleep stat)) (tame : TameFor who l.system (.sleep stat)) :
    LoopInv who { l with
      system := (kt_sleep l.system stat).2
      place := if (kt_sleep l.system stat).1 then .switching else .testing } w.sleep.2 := by
  have slept := sleep_self loop.inv.plain loop.inv.queue self (unforced self) (tame self)
  have running := loop.awake (by rw [place]; decide)
  have answer : (kt_sleep l.system stat).1 = w.sleep.1 := slept.result.trans loop.inv.sleep_agrees.1
  refine ⟨loop.inv.sleep slept,?_,?_,?_⟩
  · dsimp only
    rw [answer]
    intro stays
    cases unanswered : w.unanswered with
    | true => simp [Waiting.sleep,running,unanswered]
    | false => simp [Waiting.sleep,running,unanswered] at stays
  · dsimp only
    split <;> intro impossible <;> cases impossible
  · intro asleep
    rcases loop.about place with unset | waker | unanswered
    · exact .inl unset
    · exact .inr waker
    · simp [Waiting.sleep,running,unanswered] at asleep

theorem loop_inv {cond : Bool} {s : System} (inv : Inv who s w) (awake : w.asleep = false)
    (run : LoopRun who ⟨s,.testing,cond,0⟩ l) : ∃ w', LoopInv who l w' := by
  induction run with
  | start =>
    refine ⟨w,inv,fun _ => awake,fun place => Place.noConfusion place,?_⟩
    intro asleep
    rw [awake] at asleep
    cases asleep
  | test run self place before =>
    obtain ⟨w',loop⟩ := before
    have running := loop.awake (by rw [place]; decide)
    refine ⟨w',loop.inv,fun _ => running,?_,loop.asleep⟩
    dsimp only
    split
    · intro impossible
      cases impossible
    · rename_i unset
      exact fun _ => .inl (Bool.eq_false_iff.mpr unset)
  | sleep run self place unforced tame switches before =>
    obtain ⟨w',loop⟩ := before
    exact ⟨_,sleep_loop loop self place unforced tame⟩
  | resume run place done self before =>
    obtain ⟨w',loop⟩ := before
    obtain ⟨p,below,member⟩ := selected_queued done
    rw [self] at member
    have running : w'.asleep = false := by
      rw [loop.inv.asleep,← Bool.not_eq_true]
      exact fun asleep => loop.inv.queue.resting asleep p below member
    have framed := frame_loop loop (schedule_frame done)
    exact ⟨w',framed.inv,fun _ => running,fun place => Place.noConfusion place,framed.asleep⟩
  | set run before =>
    obtain ⟨w',loop⟩ := before
    exact ⟨w',loop.inv,loop.awake,fun _ => .inr (.inl (Nat.succ_pos _)),fun _ => .inr (Nat.succ_pos _)⟩
  | wake run waker tame done before =>
    obtain ⟨w',loop⟩ := before
    exact ⟨_,wakeup_loop loop tame done _⟩
  | other run elsewhere tame done before =>
    rename_i l s' act
    obtain ⟨w',loop⟩ := before
    cases act with
    | sleep stat =>
      obtain rfl := Option.some.inj done
      exact ⟨w',frame_loop loop (sleep_frame (elsewhere stat rfl))⟩
    | wakeup t =>
      by_cases same : t = who
      · rw [same] at tame done
        exact ⟨_,wakeup_loop loop tame done _⟩
      · exact ⟨w',frame_loop loop (wakeup_frame same done)⟩
    | wakeup_driver t => exact ⟨w',frame_loop loop (wakeup_driver_frame loop.inv.plain done)⟩
    | select => exact ⟨w',frame_loop loop (schedule_frame done)⟩
    | schedule_driver =>
      obtain rfl := Option.some.inj done
      exact ⟨w',frame_loop loop schedule_driver_frame⟩

/-- In every run whose steps are tame for the thread no wakeup of it is lost; and a loop that
    waits for a condition, entered in any state of such a run, does not sleep with the
    condition true unless a waker has yet to call `kt_wakeup`. -/
theorem tame_run_none_lost {who : Nat} {start s : System} {w : Waiting} (fresh : Fresh start who)
    (run : Run who start s w) : NoneLost who s w ∧ ∀ cond l, w.asleep = false → LoopRun who ⟨s,.testing,cond,0⟩ l →
      (∀ p < KT_PRIORITY_COUNT, who ∉ l.system.cpu.run_queue p) → l.cond = false ∨ 0 < l.between := by
  have inv := run_inv fresh run
  refine ⟨inv.noneLost,?_⟩
  intro cond l awake loop off
  obtain ⟨w',found⟩ := loop_inv inv awake loop
  exact found.asleep (found.inv.noneLost.off_queue off).1

end Loops

/-! ### A counter that wraps -/

/-- Wakeups of a running thread are counted modulo 2^32. -/
theorem wakeups_counted {who : Nat} (n : Nat) : ∀ {s : System}, base (s.threads who).state = KT_STATE_RUNNING →
    (s.threads who).wakeup_count < modulus →
    List.foldlM step s (List.replicate n (.wakeup who)) =
      some (set_thread s who { s.threads who with wakeup_count := ((s.threads who).wakeup_count + n) % modulus }) := by
  induction n with
  | zero =>
    intro s _ small
    have same : { s.threads who with wakeup_count := ((s.threads who).wakeup_count + 0) % modulus } = s.threads who := by
      rw [Nat.add_zero,Nat.mod_eq_of_lt small]
    rw [same,set_thread,Function.update_eq_self]
    rfl
  | succ n ih =>
    intro s running small
    have first : step s (.wakeup who) = some (set_thread s who { s.threads who with
        wakeup_count := add (s.threads who).wakeup_count 1 }) := by
      simp only [step,kt_wakeup]
      rw [if_neg (not_not.mpr running)]
    have updated : ∀ t, (set_thread s who t).threads who = t := fun t => Function.update_self ..
    rw [List.replicate_succ,List.foldlM_cons,first]
    show List.foldlM step _ _ = _
    rw [ih (by rw [updated]; exact running) (by rw [updated]; exact Nat.mod_lt _ (by decide)),updated]
    simp only [set_thread,Function.update_idem,add,Nat.mod_add_mod]
    rw [Nat.add_assoc,Nat.add_comm 1 n]

/-- Thread 1, woken twice and selected. -/
theorem tame_run_none_lost_pending : ∃ s w, Run 1 boot s w ∧ w.unanswered = true ∧ s.cpu.cur = 1 ∧ NoneLost 1 s w ∧
    (kt_sleep s KT_STATE_WAITING_SYNC).1 = false := by
  have fresh : Fresh boot 1 := ⟨⟨rfl,by decide,by decide,by decide,by decide⟩,by decide,rfl,fun _ _ => List.not_mem_nil⟩
  have first : Run 1 boot _ _ := .act .start (show Unforced 1 boot (.wakeup 1) from trivial) (fun _ => .inl rfl) rfl
  have second : Run 1 boot _ _ := .act first (show Unforced 1 _ (.wakeup 1) from trivial) (fun _ => .inr (by decide)) rfl
  have third : Run 1 boot _ _ := .act second (show Unforced 1 _ .select from trivial) trivial rfl
  have none_lost := (tame_run_none_lost fresh third).1
  exact ⟨_,_,third,rfl,rfl,none_lost,(none_lost.kept _ rfl (by decide) rfl).1⟩

/-- Thread 1 runs and is woken 2^32 times: its next `kt_sleep` suspends it, and no wakeup is
    left. -/
theorem full_counter_loses_wakeups : Fresh boot 1 ∧ ∃ s₁ s₂,
    List.foldlM step boot [.wakeup 1,.select] = some s₁ ∧ s₁.cpu.cur = 1 ∧ s₁.cpu.run_queue 16 = [1] ∧
    List.foldlM step s₁ (List.replicate modulus (.wakeup 1)) = some s₂ ∧ s₂.cpu.cur = 1 ∧
    (kt_sleep s₂ KT_STATE_WAITING_SYNC).1 = true ∧
    ∀ p < KT_PRIORITY_COUNT, 1 ∉ (kt_sleep s₂ KT_STATE_WAITING_SYNC).2.cpu.run_queue p := by
  refine ⟨⟨⟨rfl,by decide,by decide,by decide,by decide⟩,by decide,rfl,fun _ _ => List.not_mem_nil⟩,_,_,rfl,rfl,rfl,
    wakeups_counted modulus rfl (by decide),rfl,rfl,by decide⟩

end GridOS.Wakeup
