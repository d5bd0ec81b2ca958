import GridOS.SchedRuns

/-!
How long a queued thread waits in `source/kernel/process/sched.c`. A selection rotates the queue
before it takes the first thread, so the thread behind the head comes next. When the head leaves
the queue by `kt_sleep`, the thread behind it becomes the head, and the selection that follows
rotates it to the end.
-/
namespace GridOS.Sched

/-- The acts are permitted and tame wherever the run reaches them. -/
def TameAll : System → List Act → Prop
  | _,[] => True
  | s,act :: acts => Permitted act ∧ Tame s act ∧ ∀ s', step s act = some s' → TameAll s' acts

def selections : List Act → Nat
  | [] => 0
  | .select :: acts => selections acts + 1
  | _ :: acts => selections acts

/-- The current thread leaves the head of the queue, and its place is that of the thread behind it. -/
def Passed (level t : Nat) (s : System) (act : Act) : Prop :=
  ∃ stat rest, act = .sleep stat ∧ s.cpu.run_queue level = s.cpu.cur :: t :: rest ∧
    (kt_sleep s stat).2.cpu.run_queue level = t :: rest

/-! ### Places in a queue -/

section Places
variable {queue : List Nat} {t who i : Nat}

theorem rotate_place (place : queue[i + 1]? = some t) : (list_rotate_left queue)[i]? = some t := by
  cases queue with
  | nil => cases place
  | cons first rest =>
    rw [List.getElem?_cons_succ] at place
    have inside := (List.getElem?_eq_some_iff.mp place).1
    rw [list_rotate_left,List.getElem?_append_left inside]
    exact place

/-- A thread keeps its place when another leaves, or moves up by one. -/
theorem erase_place (place : queue[i]? = some t) (other : who ≠ t) :
    (queue.erase who)[i]? = some t ∨ ∃ j, i = j + 1 ∧ (queue.erase who)[j]? = some t := by
  induction queue generalizing i with
  | nil => cases place
  | cons first rest ih =>
    by_cases here : first = who
    · rw [here,List.erase_cons_head]
      cases i with
      | zero =>
        rw [List.getElem?_cons_zero,Option.some.injEq] at place
        exact absurd (here.symm.trans place) other
      | succ j => exact .inr ⟨j,rfl,place⟩
    · rw [List.erase_cons_tail (by simpa using here)]
      cases i with
      | zero => exact .inl place
      | succ j =>
        obtain same | ⟨k,rfl,up⟩ := ih (i := j) place
        · exact .inl same
        · exact .inr ⟨k + 1,rfl,up⟩

/-- The second thread becomes the first only when the first leaves. -/
theorem erase_second (place : queue[1]? = some t) (up : (queue.erase who)[0]? = some t) (nodup : queue.Nodup) :
    ∃ rest, queue = who :: t :: rest ∧ queue.erase who = t :: rest := by
  match queue,nodup with
  | [],_ => cases place
  | [_],_ => cases place
  | first :: second :: rest,nodup =>
    rw [List.getElem?_cons_succ,List.getElem?_cons_zero,Option.some.injEq] at place
    subst place
    by_cases here : first = who
    · exact ⟨rest,by rw [here],by rw [here,List.erase_cons_head]⟩
    · rw [List.erase_cons_tail (by simpa using here),List.getElem?_cons_zero,Option.some.injEq] at up
      rw [up] at nodup
      exact absurd List.mem_cons_self (List.nodup_cons.mp nodup).1

end Places

/-! ### One step -/

section Steps
variable {s s' : System} {level t i : Nat} {act : Act}

/-- `kt_sleep` leaves the queues as they are, or takes the current thread out. -/
theorem sleep_run_queue (s : System) (stat : BitVec 32) :
    (kt_sleep s stat).2.cpu.cur = s.cpu.cur ∧
    ((kt_sleep s stat).2.cpu.run_queue = s.cpu.run_queue ∨
      ∀ p, (kt_sleep s stat).2.cpu.run_queue p = (s.cpu.run_queue p).erase s.cpu.cur) := by
  unfold kt_sleep
  dsimp only
  split
  · split
    · exact ⟨rfl,.inl rfl⟩
    · refine ⟨?_,.inr (fun p => dequeue_run_queue _ _ _ p)⟩
      show (dequeue s.cpu s.cpu.cur _).cur = s.cpu.cur
      unfold dequeue list_del_init
      dsimp only
      split <;> rfl
  · exact ⟨rfl,.inl rfl⟩

theorem sleep_priority (s : System) (stat : BitVec 32) (who : Nat) :
    ((kt_sleep s stat).2.threads who).priority_level = (s.threads who).priority_level := by
  unfold kt_sleep set_thread
  dsimp only
  by_cases here : who = s.cpu.cur
  · rw [here]
    split
    · split <;> simp
    · simp
  · split
    · split <;> simp [Function.update_of_ne here]
    · simp [Function.update_of_ne here]

/-- No step changes a priority. -/
theorem step_priority (done : step s act = some s') (who : Nat) :
    (s'.threads who).priority_level = (s.threads who).priority_level := by
  have kept (cpu : kc_cpu) (woken : Nat) (t : ko_thread) (same : t.priority_level = (s.threads woken).priority_level) :
      ((set_thread { s with cpu } woken t).threads who).priority_level = (s.threads who).priority_level := by
    by_cases here : who = woken
    · simp [set_thread,here,same]
    · simp [set_thread,here]
  cases act with
  | sleep stat =>
    obtain rfl := Option.some.inj done
    exact sleep_priority s stat who
  | wakeup woken =>
    obtain rfl | ⟨_,_,rfl⟩ | ⟨_,rfl⟩ := wakeup_cases done
    · rfl
    · exact kept _ woken _ rfl
    · exact kept s.cpu woken _ rfl
  | wakeup_driver woken =>
    obtain ⟨_,_,rfl⟩ := wakeup_driver_cases done
    exact kept _ woken _ rfl
  | select =>
    obtain ⟨_,_,rfl⟩ := Option.map_eq_some_iff.mp done
    rfl
  | schedule_driver =>
    obtain rfl := Option.some.inj done
    unfold kt_schedule_driver
    split <;> rfl

theorem lowest_level (shape : Shape s) (inside : level < KT_PRIORITY_COUNT) (busy : s.cpu.run_queue level ≠ [])
    (lowest : ∀ q < level, s.cpu.run_queue q = []) : s.cpu.run_mask ≠ 0 ∧ ffs s.cpu.run_mask = level := by
  have bit := (shape.run_mask level inside).mpr busy
  have set : s.cpu.run_mask ≠ 0 := by
    intro zero
    rw [zero] at bit
    exact absurd bit (by simp)
  obtain ⟨below,found,before⟩ := ffs_spec set
  refine ⟨set,?_⟩
  rcases Nat.lt_trichotomy (ffs s.cpu.run_mask) level with less | same | more
  · exact absurd (lowest _ less) ((shape.run_mask _ below).mp found)
  · exact same
  · rw [before level more] at bit
    cases bit

/-- What a selection does when no thread of a lower level is queued: the first thread goes to the end, and the
    one behind it runs. -/
theorem select_rotates (shape : Shape s) (inside : level < KT_PRIORITY_COUNT)
    (busy : s.cpu.run_queue level ≠ []) (lowest : ∀ q < level, s.cpu.run_queue q = []) (done : schedule s = some s') :
    s'.cpu.run_queue = Function.update s.cpu.run_queue level (list_rotate_left (s.cpu.run_queue level)) ∧
      s'.threads = s.threads ∧ (list_rotate_left (s.cpu.run_queue level)).head? = some s'.cpu.cur := by
  obtain ⟨set,same⟩ := lowest_level shape inside busy lowest
  rw [schedule,select_in_queue,if_neg set,same] at done
  obtain ⟨_,selected,rfl⟩ := Option.map_eq_some_iff.mp done
  obtain ⟨next,head,rfl⟩ := Option.map_eq_some_iff.mp selected
  exact ⟨rfl,rfl,head⟩

/-- In one step a thread behind the head comes to run, is passed, or keeps waiting behind the head,
    at a place that each selection brings closer. -/
theorem turn_step (inv : Inv s) (tame : Tame s act) (inside : level < KT_PRIORITY_COUNT)
    (lowest : ∀ q < level, s.cpu.run_queue q = []) (urgent : ∀ who, act = .wakeup who → level ≤ (s.threads who).priority_level)
    (waits : (s.cpu.run_queue level)[i + 1]? = some t) (other : s.cpu.cur ≠ t) (done : step s act = some s') :
    s'.cpu.cur = t ∨ Passed level t s act ∨
      ((∀ q < level, s'.cpu.run_queue q = []) ∧ ∃ j, (s'.cpu.run_queue level)[j + 1]? = some t ∧
        j + selections [act] ≤ i) := by
  have stays (same : s'.cpu.run_queue = s.cpu.run_queue) (none : selections [act] = 0) :
      (∀ q < level, s'.cpu.run_queue q = []) ∧ ∃ j, (s'.cpu.run_queue level)[j + 1]? = some t ∧
        j + selections [act] ≤ i := by
    rw [same,none]
    exact ⟨lowest,i,waits,Nat.le_refl i⟩
  cases act with
  | sleep stat =>
    obtain rfl := Option.some.inj done
    obtain ⟨_,same | left⟩ := sleep_run_queue s stat
    · exact .inr (.inr (stays same rfl))
    · have empty : ∀ q < level, (kt_sleep s stat).2.cpu.run_queue q = [] := by
        intro q less
        rw [left,lowest q less]
        rfl
      obtain same | ⟨j,rest,up⟩ := erase_place waits other
      · exact .inr (.inr ⟨empty,i,by rw [left]; exact same,Nat.le_refl i⟩)
      · obtain rfl := Nat.succ.inj rest
        cases i with
        | zero =>
          obtain ⟨rest,before,behind⟩ := erase_second waits up (inv.nodup level inside)
          exact .inr (.inl ⟨stat,rest,rfl,before,(left level).trans behind⟩)
        | succ j => exact .inr (.inr ⟨empty,j,by rw [left]; exact up,Nat.le_succ j⟩)
  | wakeup who =>
    obtain rfl | ⟨_,_,rfl⟩ | ⟨_,rfl⟩ := wakeup_cases done
    · exact .inr (.inr (stays rfl rfl))
    · refine .inr (.inr ⟨?_,i,?_,Nat.le_refl i⟩)
      · intro q less
        have differ : q ≠ (s.threads who).priority_level := by
          have := urgent who rfl
          omega
        exact (enqueue_run_queue_other _ _ differ).trans (lowest q less)
      · show ((enqueue s.cpu who (s.threads who).priority_level).run_queue level)[i + 1]? = some t
        by_cases here : level = (s.threads who).priority_level
        · rw [here] at waits ⊢
          rw [enqueue_run_queue,List.getElem?_append_left (List.getElem?_eq_some_iff.mp waits).1]
          exact waits
        · rw [enqueue_run_queue_other _ _ here]
          exact waits
    · exact .inr (.inr (stays rfl rfl))
  | wakeup_driver who =>
    obtain ⟨_,_,rfl⟩ := wakeup_driver_cases done
    exact .inr (.inr (stays rfl rfl))
  | select =>
    have busy : s.cpu.run_queue level ≠ [] := by
      intro none
      rw [none] at waits
      cases waits
    obtain ⟨queues,_,head⟩ := select_rotates inv.toShape inside busy lowest done
    have place := rotate_place waits
    cases i with
    | zero =>
      left
      rw [List.head?_eq_getElem?,place] at head
      exact (Option.some.inj head).symm
    | succ j =>
      refine .inr (.inr ⟨?_,j,?_,Nat.le_refl _⟩)
      · intro q less
        rw [queues,Function.update_of_ne (Nat.ne_of_lt less)]
        exact lowest q less
      · rw [queues,Function.update_self]
        exact place
  | schedule_driver =>
    obtain rfl := Option.some.inj done
    refine .inr (.inr (stays ?_ rfl))
    unfold kt_schedule_driver
    split <;> rfl

end Steps

/-! ### Whole runs -/

section Runs
variable {s s' : System} {level t : Nat}

theorem selections_cons (act : Act) (acts : List Act) : selections (act :: acts) = selections [act] + selections acts := by
  cases act <;> simp [selections,Nat.add_comm]

theorem turn_run {i : Nat} {acts : List Act} (inv : Inv s) (tame : TameAll s acts) (inside : level < KT_PRIORITY_COUNT)
    (lowest : ∀ q < level, s.cpu.run_queue q = [])
    (urgent : ∀ who, .wakeup who ∈ acts → level ≤ (s.threads who).priority_level)
    (waits : (s.cpu.run_queue level)[i + 1]? = some t) (turns : i < selections acts)
    (done : acts.foldlM step s = some s') :
    ∃ before after s₁, acts = before ++ after ∧ before.foldlM step s = some s₁ ∧
      (s₁.cpu.cur = t ∨ ∃ act ∈ after.head?, Passed level t s₁ act) := by
  by_cases current : s.cpu.cur = t
  · exact ⟨[],acts,s,rfl,rfl,.inl current⟩
  induction acts generalizing s i with
  | nil => exact absurd turns (Nat.not_lt_zero i)
  | cons act acts ih =>
    rw [List.foldlM_cons] at done
    obtain ⟨s₁,first,others⟩ := Option.bind_eq_some_iff.mp done
    obtain ⟨permitted,tame₁,later⟩ := tame
    obtain runs | passed | ⟨lowest₁,j,waits₁,closer⟩ := turn_step inv tame₁ inside lowest
      (fun who same => urgent who (same ▸ List.mem_cons_self)) waits current first
    · exact ⟨[act],acts,s₁,rfl,by rw [List.foldlM_cons,first]; rfl,.inl runs⟩
    · exact ⟨[],act :: acts,s,rfl,rfl,.inr ⟨act,rfl,passed⟩⟩
    · by_cases current₁ : s₁.cpu.cur = t
      · exact ⟨[act],acts,s₁,rfl,by rw [List.foldlM_cons,first]; rfl,.inl current₁⟩
      have urgent₁ : ∀ who, .wakeup who ∈ acts → level ≤ (s₁.threads who).priority_level := by
        intro who mem
        rw [step_priority first]
        exact urgent who (List.mem_cons_of_mem act mem)
      rw [selections_cons] at turns
      obtain ⟨before,after,s₂,rfl,reached,outcome⟩ := ih (act_inv inv permitted tame₁ first) (later s₁ first) lowest₁ urgent₁
        waits₁ (by omega) others current₁
      exact ⟨act :: before,after,s₂,rfl,by rw [List.foldlM_cons,first]; exact reached,outcome⟩

/-- A thread behind the head of the lowest level in use, at place `i + 1`, runs within `i + 1` selections,
    whoever else is woken, sleeps or is a driver's thread, unless the current thread sleeps when it stands
    right before it at the head. -/
theorem runs_within_turns {start : System} {i : Nat} {acts : List Act} (started : Started start) (run : TameRun start s)
    (tame : TameAll s acts) (inside : level < KT_PRIORITY_COUNT) (lowest : ∀ q < level, s.cpu.run_queue q = [])
    (urgent : ∀ who, .wakeup who ∈ acts → level ≤ (s.threads who).priority_level)
    (waits : (s.cpu.run_queue level)[i + 1]? = some t) (turns : i < selections acts)
    (done : acts.foldlM step s = some s') :
    ∃ before after s₁, acts = before ++ after ∧ before.foldlM step s = some s₁ ∧
      (s₁.cpu.cur = t ∨ ∃ act ∈ after.head?, Passed level t s₁ act) :=
  turn_run (tame_run_inv started run) tame inside lowest urgent waits turns done

theorem wakes (who : Fin 6) (object : 0 < who.val := by decide) : Permitted (.wakeup who) := by
  refine ⟨object,?_⟩
  have := who.isLt
  rw [Words.modulus]
  omega

/-- Three threads are queued, and the second of the two behind the head comes to run with the second selection. -/
theorem runs_within_turns_second : ∃ s s', TameRun boot s ∧ s.cpu.run_queue 16 = [1,3,5] ∧
    [.select,.wakeup 4,.select].foldlM step s = some s' ∧
    ∃ before after s₁, [.select,.wakeup 4,.select] = before ++ after ∧ before.foldlM step s = some s₁ ∧
      (s₁.cpu.cur = 5 ∨ ∃ act ∈ after.head?, Passed 16 5 s₁ act) := by
  have run₁ : TameRun boot _ := .act .start (wakes 1) trivial rfl
  have run₂ : TameRun boot _ := .act run₁ (wakes 3) trivial rfl
  have run₃ : TameRun boot _ := .act run₂ (wakes 5) trivial rfl
  refine ⟨_,_,run₃,rfl,rfl,runs_within_turns (i := 1) boot_started run₃ ?_ (by decide) ?_ ?_ rfl (by decide) rfl⟩
  · exact ⟨trivial,trivial,fun _ _ => ⟨wakes 4,trivial,fun _ _ => ⟨trivial,trivial,fun _ _ => trivial⟩⟩⟩
  · decide
  · intro who mem
    obtain rfl : who = 4 := by simpa using mem
    decide

end Runs

/-! ### A thread that is always passed -/

/-- The run goes on, and every state of it has the property. -/
def Throughout (φ : System → Prop) : System → List Act → Prop
  | s,[] => φ s
  | s,act :: acts => φ s ∧ ∃ s', step s act = some s' ∧ Throughout φ s' acts

/-- The thread is queued at the lowest level in use, and does not run. -/
def Starving (level t : Nat) (s : System) : Prop :=
  t ∈ s.cpu.run_queue level ∧ (∀ q < level, s.cpu.run_queue q = []) ∧ s.cpu.cur ≠ t

/-- A thread that a wakeup lets run, and that a sleep takes from its queue. -/
structure Awake (level : Nat) (t : ko_thread) : Prop where
  priority_level : t.priority_level = level
  wakeup_count : t.wakeup_count = 0
  free : has_flag t.state KT_STATE_ADD_FORCE_BY_SYSTEM = false
  alive : has_flag t.state KT_STATE_ADD_DIEING = false

/-- Two threads hand the CPU to each other: `a` runs, `c` waits for it, and `b` stands behind `a`. -/
structure PingPong (level a b c : Nat) (s : System) : Prop where
  inside : level < KT_PRIORITY_COUNT
  lowest : ∀ q < level, s.cpu.run_queue q = []
  queue : s.cpu.run_queue level = [a,b]
  current : s.cpu.cur = a
  first : Awake level (s.threads a)
  second : Awake level (s.threads c)
  resting : base (s.threads c).state ≠ KT_STATE_RUNNING
  object : 0 < c ∧ c < Words.modulus

section PingPong
variable {s : System} {level a b c : Nat}

theorem has_flag_set_base {flag : BitVec 32} (outside : flag &&& KT_STATE_MASK = 0) (state stat : BitVec 32) :
    has_flag (set_base state stat) flag = has_flag state flag := by
  have same : set_base state stat &&& flag = state &&& flag := by
    ext i inside
    have bit := congrArg (fun word => word[i]) outside
    simp only [BitVec.getElem_and] at bit
    rw [set_base]
    simp only [BitVec.getElem_and,BitVec.getElem_or,BitVec.getElem_not]
    cases one : flag[i] with
    | false => simp
    | true =>
      rw [one] at bit
      simp_all
  rw [has_flag,has_flag,same]

theorem Awake.set_base {t : ko_thread} (awake : Awake level t) (stat : BitVec 32) :
    Awake level { t with state := Sched.set_base t.state stat } := by
  refine ⟨awake.priority_level,awake.wakeup_count,?_,?_⟩
  · rw [has_flag_set_base (by decide)]
    exact awake.free
  · rw [has_flag_set_base (by decide)]
    exact awake.alive

/-- The wakeup of a resting thread puts it at the end of its queue. -/
theorem wakeup_queues (inv : Inv s) (awake : Awake level (s.threads c)) (resting : base (s.threads c).state ≠ KT_STATE_RUNNING) :
    kt_wakeup s c = some (set_thread { s with cpu := enqueue s.cpu c level } c
      { s.threads c with state := set_base (s.threads c).state KT_STATE_RUNNING }) := by
  have unlinked : list_empty s.cpu c = true :=
    list_empty_iff.mpr (fun p below here => resting (inv.state p below c here))
  obtain ⟨rfl,_,free,alive⟩ := awake
  rw [kt_wakeup,if_pos resting,if_neg (by simp [free]),if_neg (by simp [alive]),if_neg (by simp [unlinked])]

/-- The sleep of a thread without a pending wakeup takes it from its queue. -/
theorem sleep_leaves (current : s.cpu.cur = a) (awake : Awake level (s.threads a))
    (running : base (s.threads a).state = KT_STATE_RUNNING) :
    kt_sleep s KT_STATE_WAITING_MSG = (true,set_thread { s with cpu := dequeue s.cpu a level } a
      { s.threads a with state := set_base (s.threads a).state KT_STATE_WAITING_MSG }) := by
  have plain : has_flag KT_STATE_WAITING_MSG KT_STATE_ADD_FORCE_BY_SYSTEM = false := by decide
  rw [kt_sleep]
  dsimp only
  rw [current,if_pos running,if_neg (by simp [awake.wakeup_count]),plain,awake.priority_level]
  rfl

/-- After the wakeup of `c` and the sleep of `a`, the selection passes `b`, and `c` runs. -/
theorem PingPong.round (inv : Inv s) (shape : PingPong level a b c s) :
    ∃ s₁ s₂ s₃, step s (.wakeup c) = some s₁ ∧ step s₁ (.sleep KT_STATE_WAITING_MSG) = some s₂ ∧ step s₂ .select = some s₃ ∧
      Starving level b s ∧ Starving level b s₁ ∧ Starving level b s₂ ∧ Tame s₁ (.sleep KT_STATE_WAITING_MSG) ∧
      Inv s₃ ∧ PingPong level c b a s₃ := by
  obtain ⟨inside,lowest,queue,current,first,second,resting,object⟩ := shape
  have linked : a ∈ s.cpu.run_queue level := by rw [queue]; exact List.mem_cons_self
  have running := inv.state level inside a linked
  have differ : a ≠ c := by
    rintro rfl
    exact resting running
  have apart : a ≠ b := by
    have nodup := inv.nodup level inside
    rw [queue] at nodup
    rintro rfl
    exact absurd List.mem_cons_self (List.nodup_cons.mp nodup).1
  have woken := wakeup_queues inv second resting
  have inv₁ := wakeup_inv inv object woken
  generalize made₁ : set_thread { s with cpu := enqueue s.cpu c level } c
    { s.threads c with state := set_base (s.threads c).state KT_STATE_RUNNING } = s₁ at woken inv₁
  have queue₁ : s₁.cpu.run_queue level = [a,b,c] := by
    rw [← made₁]
    exact (enqueue_run_queue s.cpu c level).trans (by rw [queue]; rfl)
  have lowest₁ : ∀ q < level, s₁.cpu.run_queue q = [] := by
    intro q less
    rw [← made₁]
    exact (enqueue_run_queue_other s.cpu c (Nat.ne_of_lt less)).trans (lowest q less)
  have current₁ : s₁.cpu.cur = a := by rw [← made₁]; exact current
  have first₁ : s₁.threads a = s.threads a := by rw [← made₁]; exact Function.update_of_ne differ ..
  have second₁ : Awake level (s₁.threads c) := by
    have set : s₁.threads c = { s.threads c with state := set_base (s.threads c).state KT_STATE_RUNNING } := by
      rw [← made₁]
      exact Function.update_self ..
    rw [set]
    exact second.set_base KT_STATE_RUNNING
  have slept := sleep_leaves current₁ (first₁ ▸ first) (by rw [first₁]; exact running)
  have tame : Tame s₁ (.sleep KT_STATE_WAITING_MSG) := by
    refine .inr ⟨.inr (by decide),fun _ => ?_⟩
    rw [current₁]
    exact linked_iff.mpr ⟨level,inside,by rw [queue₁]; exact List.mem_cons_self⟩
  have inv₂ := sleep_inv inv₁ tame
  rw [slept] at inv₂
  generalize made₂ : set_thread { s₁ with cpu := dequeue s₁.cpu a level } a
    { s₁.threads a with state := set_base (s₁.threads a).state KT_STATE_WAITING_MSG } = s₂ at slept inv₂
  have queue₂ : s₂.cpu.run_queue level = [b,c] := by
    rw [← made₂]
    exact (dequeue_run_queue s₁.cpu a level level).trans (by rw [queue₁,List.erase_cons_head])
  have lowest₂ : ∀ q < level, s₂.cpu.run_queue q = [] := by
    intro q less
    rw [← made₂]
    exact (dequeue_run_queue s₁.cpu a level q).trans (by rw [lowest₁ q less]; rfl)
  have current₂ : s₂.cpu.cur = a := by
    have kept := (sleep_run_queue s₁ KT_STATE_WAITING_MSG).1
    rw [slept,current₁] at kept
    exact kept
  have first₂ : s₂.threads a = { s₁.threads a with state := set_base (s₁.threads a).state KT_STATE_WAITING_MSG } := by
    rw [← made₂]
    exact Function.update_self ..
  have second₂ : s₂.threads c = s₁.threads c := by rw [← made₂]; exact Function.update_of_ne (Ne.symm differ) ..
  have busy : s₂.cpu.run_queue level ≠ [] := by simp [queue₂]
  replace inv₂ : Inv s₂ := inv₂
  obtain ⟨s₃,done⟩ : ∃ s₃, schedule s₂ = some s₃ := by
    obtain ⟨next,selected,_⟩ := select_spec inv₂.toShape inside busy lowest₂
    exact ⟨_,by rw [schedule,selected]; rfl⟩
  have inv₃ := schedule_inv inv₂ done
  obtain ⟨queues₃,threads₃,head⟩ := select_rotates inv₂.toShape inside busy lowest₂ done
  refine ⟨s₁,s₂,s₃,woken,congrArg (fun r : Bool × System => some r.2) slept,done,⟨by simp [queue],lowest,current ▸ apart⟩,
    ⟨by simp [queue₁],lowest₁,current₁ ▸ apart⟩,⟨by simp [queue₂],lowest₂,current₂ ▸ apart⟩,tame,inv₃,?_⟩
  refine ⟨inside,?_,?_,?_,?_,?_,?_,inv.placed level inside a linked⟩
  · intro q less
    rw [queues₃,Function.update_of_ne (Nat.ne_of_lt less)]
    exact lowest₂ q less
  · rw [queues₃,Function.update_self,queue₂]
    rfl
  · rw [queue₂] at head
    exact (Option.some.inj head).symm
  · rw [threads₃,second₂]
    exact second₁
  · rw [threads₃,first₂]
    exact (first₁ ▸ first).set_base KT_STATE_WAITING_MSG
  · rw [threads₃,first₂,base_set_base]
    decide

theorem starves_from (inv : Inv s) (shape : PingPong level a b c s) (n : Nat) :
    ∃ acts, selections acts = n ∧ TameAll s acts ∧ Throughout (Starving level b) s acts := by
  induction n generalizing s a c with
  | zero =>
    obtain ⟨_,_,_,_,_,_,starving,_⟩ := shape.round inv
    exact ⟨[],rfl,trivial,starving⟩
  | succ n ih =>
    obtain ⟨s₁,s₂,s₃,woken,slept,selected,starving,starving₁,starving₂,tame,inv₃,next⟩ := shape.round inv
    obtain ⟨acts,count,later,through⟩ := ih inv₃ next
    refine ⟨.wakeup c :: .sleep KT_STATE_WAITING_MSG :: .select :: acts,congrArg (· + 1) count,?_,
      starving,s₁,woken,starving₁,s₂,slept,starving₂,s₃,selected,through⟩
    refine ⟨shape.object,trivial,?_⟩
    rintro _ same₁
    obtain rfl := Option.some.inj (woken.symm.trans same₁)
    refine ⟨trivial,tame,?_⟩
    rintro _ same₂
    obtain rfl := Option.some.inj (slept.symm.trans same₂)
    refine ⟨trivial,trivial,?_⟩
    rintro _ same₃
    obtain rfl := Option.some.inj (selected.symm.trans same₃)
    exact later

/-- Two threads that wake each other and sleep keep the third one waiting through any number of selections. -/
theorem starves {start : System} (started : Started start) (run : TameRun start s) (shape : PingPong level a b c s) (n : Nat) :
    ∃ acts, selections acts = n ∧ TameAll s acts ∧ Throughout (Starving level b) s acts :=
  starves_from (tame_run_inv started run) shape n

theorem starves_third : ∃ s, TameRun boot s ∧ s.cpu.run_queue 16 = [1,3] ∧
    ∀ n, ∃ acts, selections acts = n ∧ TameAll s acts ∧ Throughout (Starving 16 3) s acts := by
  have run₁ : TameRun boot _ := .act .start (wakes 1) trivial rfl
  have run₂ : TameRun boot _ := .act run₁ (show Permitted .select from trivial) trivial rfl
  have run₃ : TameRun boot _ := .act run₂ (wakes 3) trivial rfl
  refine ⟨_,run₃,rfl,starves (a := 1) (c := 5) boot_started run₃ ⟨by decide,?_,rfl,rfl,⟨rfl,rfl,rfl,rfl⟩,⟨rfl,rfl,rfl,rfl⟩,
    by decide,wakes 5⟩⟩
  decide

end PingPong

end GridOS.Sched
