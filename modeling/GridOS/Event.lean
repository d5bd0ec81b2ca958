import GridOS.SyncRuns

/-!
The events of `source/kernel/event.c`: any number of them, and threads that wait without a
timeout for lists of them while others set and reset them.
-/
namespace GridOS.Event
open GridOS.Words GridOS.Sync

structure ke_event where
  status : kt_sync_status
  manual_reset : Bool

section Code
variable {ι τ : Type} [DecidableEq ι] [DecidableEq τ]

def satisfied (event : ke_event) (_thread : τ) : ke_event :=
  if event.manual_reset then event else { event with status := .KE_SYNC_SIGNALED_NO }

def signaled (event : ke_event) (_thread : τ) : kt_sync_status := event.status

def sync_ops : kt_sync_ops ke_event τ where
  satisfied := satisfied
  signaled := signaled

/-- Threads `τ` that use events `ι`. -/
abbrev World (ι τ : Type) := Sync.World ι ke_event τ

def set_status (w : World ι τ) (i : ι) (status : kt_sync_status) : World ι τ :=
  { w with objects := Function.update w.objects i { w.objects i with status } }

/-- What is returned, and the world. -/
def set_event (w : World ι τ) (i : ι) : Nat × World ι τ :=
  kt_sync_wakeup (set_status w i .KE_SYNC_SIGNALED_OK) i (if (w.objects i).manual_reset then 0 else 1)

def reset_event (w : World ι τ) (i : ι) : World ι τ := set_status w i .KE_SYNC_SIGNALED_NO

def ke_event_init (manual_reset initial_status : Bool) : ke_event where
  status := if initial_status then .KE_SYNC_SIGNALED_OK else .KE_SYNC_SIGNALED_NO
  manual_reset := manual_reset

end Code

/-! ### Runs -/

/-- The steps of `ke_events_wait` without a timeout, `ke_event_set`, `ke_event_reset`, and a wakeup
    from elsewhere. -/
inductive Act (ι τ : Type)
  | call (t : τ) (objects : List ι)
  | check (t : τ)
  | sleep (t : τ)
  | resume (t : τ)
  | set (i : ι)
  | reset (i : ι)
  | wakeup (t : τ)

section Runs
variable {ι τ : Type} [DecidableEq ι] [DecidableEq τ]

def wait (w : World ι τ) (act : WaitAct ι τ) : Option (World ι τ) := (wait_step sync_ops w act).map Prod.fst

/-- One step; `none` when the thread is elsewhere or off the run queue, or locks an event twice. -/
def step (w : World ι τ) : Act ι τ → Option (World ι τ)
  | .call t objects => wait w (.call t objects false false)
  | .check t => wait w (.check t)
  | .sleep t => wait w (.sleep t)
  | .resume t => wait w (.resume t false)
  | .set i => some (set_event w i).2
  | .reset i => some (reset_event w i)
  | .wakeup t => some (kt_wakeup w t)

/-- Auto-reset events behind `ke_event_init`, and threads that do not wait. -/
structure Started (w : World ι τ) : Prop where
  event : ∀ i, ∃ initial_status, w.objects i = ke_event_init false initial_status
  queue : ∀ i, w.wait_queue i = []
  awake : ∀ t, (w.threads t).asleep = false
  outside : ∀ t, w.places t = .outside

/-- A thread that takes one of its events leaves no other one signaled whose other waiters are
    all asleep or about to sleep; and no wakeup of a thread that is about to sleep finds its counter
    full. -/
def Tame (w : World ι τ) : Act ι τ → Prop
  | .check t => ∀ objects timed expired, w.places t = .checking objects true timed expired →
      ∀ i ∈ objects, (w.objects i).status = .KE_SYNC_SIGNALED_OK →
        objects.find? (fun j => (w.objects j).status ≠ .KE_SYNC_SIGNALED_NO) ≠ some i →
        (∃ u ∈ w.wait_queue i, u ≠ t) → ∃ u ∈ w.wait_queue i, u ≠ t ∧ Alert w u
  | .set i => ∀ t ∈ (w.wait_queue i).head?, Countable w t
  | .wakeup t => Countable w t
  | _ => True

inductive TameRun (start : World ι τ) : World ι τ → Prop
  | start : TameRun start start
  | act {w w' : World ι τ} {act : Act ι τ} (run : TameRun start w) (tame : Tame w act) (done : step w act = some w') :
      TameRun start w'

/-- If an event is signaled and a thread that waits for it is off the run queue, then a thread that
    waits for it runs and will check it before it sleeps. -/
def NoneStranded (w : World ι τ) : Prop :=
  ∀ i, (w.objects i).status = .KE_SYNC_SIGNALED_OK → (∃ t ∈ w.wait_queue i, (w.threads t).asleep = true) →
    ∃ t ∈ w.wait_queue i, Alert w t

/-! ### The invariant -/

structure Inv (w : World ι τ) : Prop where
  shape : Shape w
  auto : ∀ i, (w.objects i).manual_reset = false
  plain : ∀ i, (w.objects i).status ≠ .KE_SYNC_SIGNALED_CANCEL
  served : ∀ i, (w.objects i).status = .KE_SYNC_SIGNALED_OK → w.wait_queue i ≠ [] → ∃ t ∈ w.wait_queue i, Alert w t

variable {start w w' : World ι τ} {act : Act ι τ}

omit [DecidableEq ι] [DecidableEq τ] in
theorem Inv.none_stranded (inv : Inv w) : NoneStranded w := by
  rintro i signaled ⟨t,waits,asleep⟩
  exact inv.served i signaled (List.ne_nil_of_mem waits)

omit [DecidableEq ι] [DecidableEq τ] in
/-- Events that stay as they are, with the same queues and no thread less alert. -/
theorem Inv.quiet (inv : Inv w) (shape : Shape w') (objects : w'.objects = w.objects)
    (queue : w'.wait_queue = w.wait_queue) (alert : ∀ t, Alert w t → Alert w' t) : Inv w' := by
  refine ⟨shape,?_,?_,?_⟩
  · rw [objects]
    exact inv.auto
  · rw [objects]
    exact inv.plain
  · rw [objects,queue]
    intro i signaled waited
    obtain ⟨t,member,alert_t⟩ := inv.served i signaled waited
    exact ⟨t,member,alert t alert_t⟩

/-- Steps of a wait other than checks. -/
theorem quiet_inv {wact : WaitAct ι τ} {result : Option (kt_sync_wait_result ι)} (inv : Inv w)
    (moves : WaitMoves sync_ops w wact w' result) (other : ∀ t, wact ≠ .check t) : Inv w' := by
  obtain ⟨queue,objects⟩ := queue_moves moves other
  exact inv.quiet (moves_shape inv.shape moves) objects queue (fun t alert => alert_moves alert moves (other t))

omit [DecidableEq ι] [DecidableEq τ] in
/-- Whoever is alert in the queue stays so while another thread moves. -/
theorem served_still {t : τ} (inv : Inv w) (w' : World ι τ) (places : ∀ u, u ≠ t → w'.places u = w.places u)
    (threads : w'.threads = w.threads) {i : ι} (signaled : (w.objects i).status = .KE_SYNC_SIGNALED_OK)
    (absent : t ∉ w.wait_queue i) (queue : w'.wait_queue i = w.wait_queue i) (waited : w'.wait_queue i ≠ []) :
    ∃ u ∈ w'.wait_queue i, Alert w' u := by
  rw [queue] at waited ⊢
  obtain ⟨u,member,alert⟩ := inv.served i signaled waited
  have other : u ≠ t := fun same => absent (same ▸ member)
  exact ⟨u,member,alert.congr (congrFun threads u) (places u other)⟩

omit [DecidableEq ι] [DecidableEq τ] in
/-- Where a checking thread has its nodes. -/
theorem checking_listed {t : τ} {objects : List ι} {waiter_added timed expired : Bool} (inv : Inv w)
    (place : w.places t = .checking objects waiter_added timed expired) {i : ι} (member : t ∈ w.wait_queue i) :
    waiter_added = true ∧ i ∈ objects := by
  rw [inv.shape.listed,place] at member
  cases waiter_added with
  | true => exact ⟨rfl,member⟩
  | false => exact absurd member List.not_mem_nil

omit [DecidableEq τ] in
theorem set_status_inv {i : ι} {status : kt_sync_status} (inv : Inv w) (plain : status ≠ .KE_SYNC_SIGNALED_CANCEL)
    (served : status = .KE_SYNC_SIGNALED_OK → w.wait_queue i ≠ [] → ∃ t ∈ w.wait_queue i, Alert w t) :
    Inv (set_status w i status) := by
  refine ⟨objects_shape inv.shape _,?_,?_,?_⟩
  · intro j
    by_cases same : j = i
    · simp [same,set_status,inv.auto]
    · simp [same,set_status,inv.auto]
  · intro j
    by_cases same : j = i
    · simp [same,set_status,plain]
    · simp [same,set_status,inv.plain]
  · intro j signaled waited
    by_cases same : j = i
    · rw [same] at signaled waited ⊢
      exact served (by simpa [set_status] using signaled) waited
    · exact inv.served j (by simpa [set_status,same] using signaled) waited

/-- A thread leaves its queues; where an event is signaled and others wait, one of them is alert. -/
theorem leave_inv {t : τ} {objects : List ι} {waiter_added timed expired : Bool} (inv : Inv w)
    (awake : (w.threads t).asleep = false) (place : w.places t = .checking objects waiter_added timed expired)
    (handed : waiter_added = true → ∀ i ∈ objects, (w.objects i).status = .KE_SYNC_SIGNALED_OK →
      (∃ u ∈ w.wait_queue i, u ≠ t) → ∃ u ∈ w.wait_queue i, u ≠ t ∧ Alert w u) :
    Inv (leave w t objects waiter_added) := by
  refine ⟨leave_shape inv.shape awake place,inv.auto,inv.plain,?_⟩
  intro i signaled waited
  by_cases member : t ∈ w.wait_queue i
  · obtain ⟨added,listed⟩ := checking_listed inv place member
    have queue : (leave w t objects waiter_added).wait_queue i = (w.wait_queue i).erase t := if_pos ⟨added,listed⟩
    rw [queue] at waited ⊢
    obtain ⟨u,in_erased⟩ := List.exists_mem_of_ne_nil _ waited
    obtain ⟨other,in_queue⟩ := (inv.shape.nodup i).mem_erase_iff.mp in_erased
    obtain ⟨v,waits,another,alert⟩ := handed added i listed signaled ⟨u,in_queue,other⟩
    exact ⟨v,(inv.shape.nodup i).mem_erase_iff.mpr ⟨another,waits⟩,alert.congr rfl (Function.update_of_ne another ..)⟩
  · refine served_still inv (leave w t objects waiter_added) (fun u other => Function.update_of_ne other ..) rfl signaled member ?_ waited
    show (if waiter_added = true ∧ i ∈ objects then (w.wait_queue i).erase t else w.wait_queue i) = w.wait_queue i
    rw [List.erase_of_not_mem member,ite_self]

/-- A thread takes the first signaled event of its list. -/
theorem satisfied_inv {t : τ} {objects : List ι} {waiter_added timed expired : Bool} {taken : ι} (inv : Inv w)
    (tame : Tame w (.check t)) (awake : (w.threads t).asleep = false)
    (place : w.places t = .checking objects waiter_added timed expired)
    (first : objects.find? (fun i => (w.objects i).status ≠ .KE_SYNC_SIGNALED_NO) = some taken) :
    Inv (leave (set_status w taken .KE_SYNC_SIGNALED_NO) t objects waiter_added) := by
  have reset : Inv (set_status w taken .KE_SYNC_SIGNALED_NO) :=
    set_status_inv inv (fun other => by cases other) (fun other => by cases other)
  refine leave_inv reset awake place ?_
  intro added i listed signaled waited
  have differ : i ≠ taken := by
    rintro rfl
    simp [set_status] at signaled
  have still : (w.objects i).status = .KE_SYNC_SIGNALED_OK := by simpa [set_status,differ] using signaled
  rw [added] at place
  refine tame objects timed expired place i listed still ?_ waited
  rw [first]
  exact fun same => differ (Option.some.inj same).symm

theorem check_inv {t : τ} {objects : List ι} {waiter_added timed expired : Bool} (inv : Inv w)
    (tame : Tame w (.check t)) (awake : (w.threads t).asleep = false)
    (place : w.places t = .checking objects waiter_added timed expired)
    {r : World ι τ × Option (kt_sync_wait_result ι)}
    (checked : Checked sync_ops w t objects waiter_added timed r) : Inv r.1 := by
  have shape := checked_shape inv.shape awake place checked
  -- a signaled event is not among those of a thread that finds all of them quiet
  have unlisted : (∀ i ∈ objects, sync_ops.signaled (w.objects i) t = .KE_SYNC_SIGNALED_NO) →
      ∀ {i}, (w.objects i).status = .KE_SYNC_SIGNALED_OK → i ∉ objects := by
    intro quiet i signaled listed
    have silent : (w.objects i).status = .KE_SYNC_SIGNALED_NO := quiet i listed
    rw [silent] at signaled
    cases signaled
  have absent : ∀ {i}, i ∉ objects → t ∉ w.wait_queue i :=
    fun missing member => missing (checking_listed inv place member).2
  cases checked with
  | satisfied member signaled first =>
    rename_i taken
    have reset : satisfied (w.objects taken) t = { w.objects taken with status := .KE_SYNC_SIGNALED_NO } := by
      simp [satisfied,inv.auto]
    simp only [sync_ops,reset]
    exact satisfied_inv inv tame awake place first
  | canceled member canceled => exact absurd canceled (inv.plain _)
  | failed quiet unserved =>
    exact leave_inv inv awake place (fun _ i listed signaled _ => absurd listed (unlisted quiet signaled))
  | waits quiet added =>
    refine ⟨shape,inv.auto,inv.plain,fun i signaled waited => ?_⟩
    exact served_still inv _ (fun u other => move_place_other other w _) rfl signaled (absent (unlisted quiet signaled))
      rfl waited
  | joins quiet added =>
    refine ⟨shape,inv.auto,inv.plain,fun i signaled waited => ?_⟩
    have missing := unlisted quiet signaled
    exact served_still inv (move (add_waiter w t objects) t (.about objects timed))
      (fun u other => Function.update_of_ne other ..) rfl signaled (absent missing) (if_neg missing) waited

theorem set_inv {i : ι} (inv : Inv w) (tame : Tame w (.set i)) : Inv (set_event w i).2 := by
  have one : (set_event w i).2 = ((w.wait_queue i).take 1).foldl kt_wakeup (set_status w i .KE_SYNC_SIGNALED_OK) := by
    simp [set_event,kt_sync_wakeup,inv.auto]
    rfl
  rw [one]
  cases queue : w.wait_queue i with
  | nil => exact set_status_inv inv (fun other => by cases other) (fun _ waited => absurd queue waited)
  | cons first rest =>
    have countable : Countable w first := tame first (by rw [queue]; rfl)
    -- waking first and setting the status afterwards is the same
    have woken : Inv (kt_wakeup w first) := inv.quiet (wakeup_shape inv.shape first) rfl rfl
      (fun t alert => alert.wakeup inv.shape countable)
    have front : first ∈ w.wait_queue i := by
      rw [queue]
      exact List.mem_cons_self
    exact set_status_inv woken (fun other => by cases other)
      (fun _ _ => ⟨first,front,wakeup_alert inv.shape countable⟩)

theorem act_inv (inv : Inv w) (tame : Tame w act) (done : step w act = some w') : Inv w' := by
  cases act with
  | call t objects =>
    obtain ⟨⟨w',result⟩,moved,rfl⟩ := Option.map_eq_some_iff.mp done
    exact quiet_inv inv (step_moves moved) (fun u => by simp)
  | check t =>
    obtain ⟨⟨w',result⟩,moved,rfl⟩ := Option.map_eq_some_iff.mp done
    cases step_moves moved with
    | check awake place nodup => exact check_inv inv tame awake place (check_satisfied_checked ..)
  | sleep t =>
    obtain ⟨⟨w',result⟩,moved,rfl⟩ := Option.map_eq_some_iff.mp done
    exact quiet_inv inv (step_moves moved) (fun u => by simp)
  | resume t =>
    obtain ⟨⟨w',result⟩,moved,rfl⟩ := Option.map_eq_some_iff.mp done
    exact quiet_inv inv (step_moves moved) (fun u => by simp)
  | set i =>
    obtain rfl := Option.some.inj done
    exact set_inv inv tame
  | reset i =>
    obtain rfl := Option.some.inj done
    exact set_status_inv inv (fun other => by cases other) (fun other => by cases other)
  | wakeup t =>
    obtain rfl := Option.some.inj done
    exact inv.quiet (wakeup_shape inv.shape t) rfl rfl (fun u alert => alert.wakeup inv.shape tame)

omit [DecidableEq ι] [DecidableEq τ] in
theorem started_inv (started : Started start) : Inv start := by
  refine ⟨started_shape started.queue started.outside started.awake,?_,?_,?_⟩
  · intro i
    obtain ⟨initial_status,event⟩ := started.event i
    rw [event]
    rfl
  · intro i
    obtain ⟨initial_status,event⟩ := started.event i
    rw [event]
    cases initial_status <;> exact fun other => by cases other
  · intro i _ waited
    exact absurd (started.queue i) waited

theorem tame_run_inv (started : Started start) (run : TameRun start w) : Inv w := by
  induction run with
  | start => exact started_inv started
  | act _ tame done inv => exact act_inv inv tame done

/-- In every state that tame steps reach no waiter is stranded. -/
theorem tame_run_events_served {start w : World ι τ} (started : Started start) (run : TameRun start w) :
    NoneStranded w := (tame_run_inv started run).none_stranded

end Runs

/-- Two quiet events, and threads that are numbered. -/
def fresh : World Bool Nat where
  objects := fun _ => ke_event_init false false
  wait_queue := fun _ => []
  threads := fun _ => ⟨false,0⟩
  places := fun _ => .outside

theorem fresh_started : Started fresh := ⟨fun _ => ⟨false,rfl⟩,fun _ => rfl,fun _ => rfl,fun _ => rfl⟩

/-- Thread 1 waits for both events and thread 2 for the first one, which is set. -/
theorem tame_run_events_served_two : ∃ w, TameRun fresh w ∧ (w.objects false).status = .KE_SYNC_SIGNALED_OK ∧
    2 ∈ w.wait_queue false ∧ (w.threads 2).asleep = true ∧ NoneStranded w := by
  have tame : ∀ {w : World Bool Nat} {act : Act Bool Nat} {w' : World Bool Nat}, TameRun fresh w → Tame w act →
      step w act = some w' → TameRun fresh w' := fun run ok done => .act run ok done
  have early : ∀ {w : World Bool Nat} {t : Nat} {objects : List Bool} {timed expired : Bool},
      w.places t = .checking objects false timed expired → Tame w (.check t) := by
    intro w t objects timed expired place objects' timed' expired' added
    rw [place] at added
    cases added
  have r₁ := tame .start (show Tame fresh (.call 1 [true,false]) from trivial) rfl
  have r₂ := tame r₁ (show Tame _ (.check 1) from early rfl) rfl
  have r₃ := tame r₂ (show Tame _ (.sleep 1) from trivial) rfl
  have r₄ := tame r₃ (show Tame _ (.call 2 [false]) from trivial) rfl
  have r₅ := tame r₄ (show Tame _ (.check 2) from early rfl) rfl
  have r₆ := tame r₅ (show Tame _ (.sleep 2) from trivial) rfl
  have asleep : ∀ {w : World Bool Nat} {objects : List Bool} {timed : Bool} {rest : List Nat},
      w.wait_queue false = 1 :: rest → w.places 1 = .switching objects timed → Tame w (.set false) := by
    intro w objects timed rest queue place t first objects' timed' about
    rw [queue,List.head?_cons,Option.mem_some_iff] at first
    rw [← first,place] at about
    cases about
  have r₇ := tame r₆ (show Tame _ (.set false) from asleep rfl rfl) rfl
  exact ⟨_,r₇,rfl,List.mem_cons_of_mem 1 (List.mem_singleton_self 2),rfl,tame_run_events_served fresh_started r₇⟩

/-- Thread 1 waits for both events and thread 2 for the first one only. Both events are set, which
    wakes thread 1 twice; it takes the second event and leaves. -/
theorem second_event_strands : ∃ acts w, Started fresh ∧ List.foldlM step fresh acts = some w ∧
    (w.objects false).status = .KE_SYNC_SIGNALED_OK ∧ w.wait_queue false = [2] ∧ (w.threads 2).asleep = true ∧
    ¬NoneStranded w := by
  refine ⟨[.call 1 [true,false],.check 1,.sleep 1,.call 2 [false],.check 2,.sleep 2,.set false,.set true,.resume 1,
    .check 1],_,fresh_started,rfl,rfl,rfl,rfl,?_⟩
  intro none_stranded
  obtain ⟨t,waits,awake,_⟩ := none_stranded false rfl ⟨2,List.mem_singleton_self 2,rfl⟩
  obtain rfl := List.mem_singleton.mp waits
  cases awake

end GridOS.Event
