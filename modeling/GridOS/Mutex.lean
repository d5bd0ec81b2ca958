import GridOS.SyncRuns

/-!
The mutex of `source/kernel/mutex.c`, a synchronisation object that its owner may lock
again. A run also counts how many successful locks of each thread are not yet matched by
an unlock.
-/
namespace GridOS.Mutex
open GridOS.Words GridOS.Sync

structure ke_mutex (τ : Type) where
  count : Nat
  owner : Option τ

section Code
variable {τ : Type} [DecidableEq τ]

def satisfied (mutex : ke_mutex τ) (thread : τ) : ke_mutex τ where
  count := add mutex.count 1
  owner := if mutex.count = 0 then some thread else mutex.owner

def signaled (mutex : ke_mutex τ) (thread : τ) : kt_sync_status :=
  if mutex.count = 0 ∨ mutex.owner = some thread then .KE_SYNC_SIGNALED_OK else .KE_SYNC_SIGNALED_NO

def sync_ops : kt_sync_ops (ke_mutex τ) τ where
  satisfied := satisfied
  signaled := signaled

/-- Threads that use one mutex. -/
abbrev World (τ : Type) := Sync.World Unit (ke_mutex τ) τ

def set_mutex (w : World τ) (mutex : ke_mutex τ) : World τ := { w with objects := fun _ => mutex }

def do_release (w : World τ) : World τ :=
  (kt_sync_wakeup (set_mutex w { w.objects () with owner := none }) () 0).2

/-- On zeroed storage. -/
def ke_mutex_init (initial_ownership : Option τ) : ke_mutex τ :=
  match initial_ownership with
  | none => ⟨0,none⟩
  | some current => satisfied ⟨0,none⟩ current

/-- What is returned, and the section. -/
def ke_mutex_unlock (w : World τ) (current : τ) : Nat × World τ :=
  let mutex := w.objects ()
  let pre_count := mutex.count
  if pre_count = 0 ∨ mutex.owner ≠ some current then (pre_count,w) else
  let w := set_mutex w { mutex with count := sub mutex.count 1 }
  (pre_count,if (w.objects ()).count = 0 then do_release w else w)

end Code

/-! ### Runs -/

/-- The world, and how many locks of each thread are not unlocked yet. -/
structure State (τ : Type) where
  world : World τ
  depth : τ → Nat

/-- The steps of `ke_mutex_lock`, `ke_mutex_unlock`, and a wakeup from elsewhere. -/
inductive Act (τ : Type)
  | lock (t : τ)
  | check (t : τ)
  | sleep (t : τ)
  | resume (t : τ)
  | unlock (t : τ)
  | wakeup (t : τ)

section Runs
variable {τ : Type} [DecidableEq τ]

/-- A step of `ke_mutex_lock`, which is `kt_wait_objects` on one object without a timeout. -/
def wait (s : State τ) (t : τ) (act : WaitAct Unit τ) : Option (State τ) :=
  (wait_step sync_ops s.world act).map (fun r => {
    world := r.1
    depth := match r.2 with
      | some (.KE_WAIT_OK _) => Function.update s.depth t (s.depth t + 1)
      | _ => s.depth })

/-- One step; `none` when the thread is elsewhere or off the run queue. -/
def step (s : State τ) : Act τ → Option (State τ)
  | .lock t => wait s t (.call t [()] false false)
  | .check t => wait s t (.check t)
  | .sleep t => wait s t (.sleep t)
  | .resume t => wait s t (.resume t false)
  | .unlock t => if (s.world.threads t).asleep then none else
    match s.world.places t with
    | .outside => some {
        world := (ke_mutex_unlock s.world t).2
        depth := if (s.world.objects ()).owner = some t then Function.update s.depth t (s.depth t - 1) else s.depth }
    | _ => none
  | .wakeup t => some { s with world := kt_wakeup s.world t }

/-- A mutex behind `ke_mutex_init`, owned by the thread that asked for it. -/
structure Started (s : State τ) : Prop where
  mutex : ∃ initial_ownership, s.world.objects () = ke_mutex_init initial_ownership ∧
    ∀ t, s.depth t = if initial_ownership = some t then 1 else 0
  queue : s.world.wait_queue () = []
  awake : ∀ t, (s.world.threads t).asleep = false
  outside : ∀ t, s.world.places t = .outside

/-- Locks are nested fewer than 2^32 deep. -/
def Shallow (s : State τ) : Act τ → Prop
  | .check _ => (s.world.objects ()).count + 1 < modulus
  | _ => True

/-- No wakeup of a thread that is about to sleep finds its counter full. -/
def Tame (s : State τ) : Act τ → Prop
  | .unlock t => (s.world.objects ()).owner = some t → (s.world.objects ()).count = 1 →
      ∀ u ∈ s.world.wait_queue (), Countable s.world u
  | .wakeup t => Countable s.world t
  | _ => True

inductive TameRun (start : State τ) : State τ → Prop
  | start : TameRun start start
  | act {s s' : State τ} {act : Act τ} (run : TameRun start s) (shallow : Shallow s act) (tame : Tame s act)
      (done : step s act = some s') : TameRun start s'

/-- At most one thread has locks; the mutex has an owner if it is counted, and counts the
    owner's locks; an unlock by any other thread changes nothing; and no thread is off the run
    queue while the mutex is free. -/
structure Correct (s : State τ) : Prop where
  exclusive : ∀ t u, 0 < s.depth t → 0 < s.depth u → t = u
  owner : (s.world.objects ()).owner.isSome ↔ 0 < (s.world.objects ()).count
  nesting : ∀ t, (s.world.objects ()).owner = some t → (s.world.objects ()).count = s.depth t
  strangers : ∀ t, (s.world.objects ()).owner ≠ some t →
    ke_mutex_unlock s.world t = ((s.world.objects ()).count,s.world)
  waiters : ∀ t, (s.world.threads t).asleep = true → (s.world.objects ()).count ≠ 0

/-! ### The invariant -/

/-- The objects that a thread waits for. -/
def waitsFor : Place Unit → List Unit
  | .outside => [()]
  | .checking objects _ _ _ => objects
  | .about objects _ => objects
  | .switching objects _ => objects

structure Inv (s : State τ) : Prop where
  shape : Shape s.world
  word : (s.world.objects ()).count < modulus
  owner : (s.world.objects ()).owner.isSome ↔ (s.world.objects ()).count ≠ 0
  depth : ∀ t, s.depth t = if (s.world.objects ()).owner = some t then (s.world.objects ()).count else 0
  free : (s.world.objects ()).count = 0 → ∀ t ∈ s.world.wait_queue (), Alert s.world t
  lone : ∀ t, waitsFor (s.world.places t) = [()]

variable {start s s' : State τ} {act : Act τ}

theorem Inv.correct (inv : Inv s) : Correct s := by
  refine ⟨?_,?_,?_,?_,?_⟩
  · intro t u left right
    rw [inv.depth] at left right
    by_cases first : (s.world.objects ()).owner = some t
    · by_cases second : (s.world.objects ()).owner = some u
      · exact Option.some.inj (first.symm.trans second)
      · rw [if_neg second] at right
        exact absurd right (Nat.lt_irrefl 0)
    · rw [if_neg first] at left
      exact absurd left (Nat.lt_irrefl 0)
  · rw [inv.owner]
    exact Nat.pos_iff_ne_zero.symm
  · intro t owns
    rw [inv.depth,if_pos owns]
  · intro t stranger
    simp only [ke_mutex_unlock]
    rw [if_pos (.inr stranger)]
  · intro t asleep zero
    -- a sleeping thread is in the queue, and those are alert while the mutex is free
    have sleeps : ∃ objects timed, s.world.places t = .switching objects timed := by
      by_contra elsewhere
      push Not at elsewhere
      rw [inv.shape.awake t elsewhere] at asleep
      cases asleep
    obtain ⟨objects,timed,place⟩ := sleeps
    have lone := inv.lone t
    rw [place] at lone
    have member : t ∈ s.world.wait_queue () := by
      rw [inv.shape.listed,place]
      show () ∈ objects
      rw [show objects = [()] from lone]
      exact List.mem_singleton_self ()
    rw [(inv.free zero t member).1] at asleep
    cases asleep

omit [DecidableEq τ] in
theorem lone_update {places : τ → Place Unit} [DecidableEq τ] (lone : ∀ t, waitsFor (places t) = [()]) {t : τ}
    {place : Place Unit} (here : waitsFor place = [()]) : ∀ u, waitsFor (Function.update places t place u) = [()] := by
  intro u
  by_cases same : u = t
  · rw [same,Function.update_self]
    exact here
  · rw [Function.update_of_ne same]
    exact lone u

/-- A step of a wait that leaves the mutex and the queue as they are. -/
theorem quiet_inv {w' : World τ} {wact : WaitAct Unit τ} {result : Option (kt_sync_wait_result Unit)} (inv : Inv s)
    (moves : WaitMoves sync_ops s.world wact w' result) (other : ∀ t, wact ≠ .check t)
    (lone : ∀ t, waitsFor (w'.places t) = [()]) : Inv { s with world := w' } := by
  obtain ⟨queue,objects⟩ := queue_moves moves other
  refine ⟨moves_shape inv.shape moves,?_,?_,?_,?_,lone⟩
  · dsimp only
    rw [objects]
    exact inv.word
  · dsimp only
    rw [objects]
    exact inv.owner
  · dsimp only
    rw [objects]
    exact inv.depth
  · dsimp only
    rw [objects,queue]
    intro zero t member
    exact alert_moves (inv.free zero t member) moves (other t)

omit [DecidableEq τ] in
theorem signaled_ok {mutex : ke_mutex τ} [DecidableEq τ] {t : τ} (ok : signaled mutex t = .KE_SYNC_SIGNALED_OK) :
    mutex.count = 0 ∨ mutex.owner = some t := by
  by_contra no
  rw [signaled,if_neg no] at ok
  cases ok

omit [DecidableEq τ] in
theorem signaled_no {mutex : ke_mutex τ} [DecidableEq τ] {t : τ} (quiet : signaled mutex t = .KE_SYNC_SIGNALED_NO) :
    mutex.count ≠ 0 := by
  intro zero
  rw [signaled,if_pos (.inl zero)] at quiet
  cases quiet

/-- The mutex is locked once more, by a thread that may. -/
theorem satisfied_inv {t : τ} {world : World τ} (inv : Inv s) (may : (s.world.objects ()).count = 0 ∨
    (s.world.objects ()).owner = some t) (room : (s.world.objects ()).count + 1 < modulus) (shape : Shape world)
    (objects : world.objects () = satisfied (s.world.objects ()) t) (lone : ∀ t, waitsFor (world.places t) = [()]) :
    Inv { world, depth := Function.update s.depth t (s.depth t + 1) } := by
  have grown : (satisfied (s.world.objects ()) t).count = (s.world.objects ()).count + 1 := add_exact room
  have owns : (satisfied (s.world.objects ()) t).owner = some t := by
    rw [satisfied]
    by_cases zero : (s.world.objects ()).count = 0
    · rw [if_pos zero]
    · rw [if_neg zero]
      exact may.resolve_left zero
  refine ⟨shape,?_,?_,?_,?_,lone⟩
  · dsimp only
    rw [objects,grown]
    exact room
  · dsimp only
    rw [objects,grown,owns]
    simp
  · intro u
    dsimp only
    rw [objects,grown,owns]
    by_cases same : u = t
    · rw [same,Function.update_self,if_pos rfl,inv.depth]
      by_cases owned : (s.world.objects ()).owner = some t
      · rw [if_pos owned]
      · rw [if_neg owned,may.resolve_right owned]
    · rw [Function.update_of_ne same,inv.depth,if_neg (fun other => same (Option.some.inj other).symm)]
      split
      · rename_i owned
        rcases may with zero | mine
        · exact zero
        · exact absurd (Option.some.inj (owned.symm.trans mine)) same
      · rfl
  · dsimp only
    rw [objects,grown]
    intro zero
    cases zero

theorem check_inv {t : τ} {objects : List Unit} {waiter_added timed expired : Bool} (inv : Inv s)
    (room : (s.world.objects ()).count + 1 < modulus) (awake : (s.world.threads t).asleep = false)
    (place : s.world.places t = .checking objects waiter_added timed expired) {r : World τ × Option (kt_sync_wait_result Unit)}
    (checked : Checked sync_ops s.world t objects waiter_added timed r) :
    Inv { world := r.1, depth := match r.2 with
      | some (.KE_WAIT_OK _) => Function.update s.depth t (s.depth t + 1)
      | _ => s.depth } := by
  have lone := inv.lone t
  rw [place] at lone
  have listed : objects = [()] := lone
  have shape := checked_shape inv.shape awake place checked
  have locked : (∀ i ∈ objects, sync_ops.signaled (s.world.objects i) t = .KE_SYNC_SIGNALED_NO) →
      (s.world.objects ()).count ≠ 0 := by
    intro quiet
    exact signaled_no (quiet () (by rw [listed]; exact List.mem_singleton_self ()))
  cases checked with
  | satisfied member signaled first =>
    refine satisfied_inv inv (signaled_ok signaled) room shape ?_ (lone_update inv.lone rfl)
    show Function.update s.world.objects () _ () = _
    rw [Function.update_self]
    rfl
  | canceled member canceled =>
    rename_i i
    have impossible : signaled (s.world.objects i) t = .KE_SYNC_SIGNALED_CANCEL := canceled
    rw [signaled] at impossible
    split at impossible <;> cases impossible
  | failed quiet unserved =>
    rename_i result
    have zero := locked quiet
    have same_depth : (match some result with
        | some (.KE_WAIT_OK _) => Function.update s.depth t (s.depth t + 1)
        | _ => s.depth) = s.depth := by
      cases result with
      | KE_WAIT_OK i => exact absurd rfl (unserved i)
      | KE_WAIT_TIMEDOUT => rfl
      | KE_WAIT_ABANDONED => rfl
    rw [same_depth]
    exact ⟨shape,inv.word,inv.owner,inv.depth,fun free => absurd free zero,lone_update inv.lone rfl⟩
  | waits quiet added =>
    exact ⟨shape,inv.word,inv.owner,inv.depth,fun free => absurd free (locked quiet),lone_update inv.lone listed⟩
  | joins quiet added =>
    exact ⟨shape,inv.word,inv.owner,inv.depth,fun free => absurd free (locked quiet),lone_update inv.lone listed⟩

/-- The owner unlocks; its last unlock wakes all waiters. -/
theorem unlock_inv {t : τ} (inv : Inv s) (tame : Tame s (.unlock t)) :
    Inv {
      world := (ke_mutex_unlock s.world t).2
      depth := if (s.world.objects ()).owner = some t then Function.update s.depth t (s.depth t - 1) else s.depth } := by
  by_cases owned : (s.world.objects ()).owner = some t
  · have counted : (s.world.objects ()).count ≠ 0 := inv.owner.mp (by rw [owned]; rfl)
    have exact_count : sub (s.world.objects ()).count 1 = (s.world.objects ()).count - 1 :=
      sub_exact (Nat.pos_of_ne_zero counted) inv.word
    have depth := inv.depth
    rw [if_pos owned]
    simp only [ke_mutex_unlock]
    rw [if_neg (by simp [counted,owned])]
    simp only [set_mutex,exact_count]
    split
    · rename_i last
      have one : (s.world.objects ()).count = 1 := by omega
      have woken : WokenAll (set_mutex s.world ⟨0,none⟩) (List.foldl kt_wakeup (set_mutex s.world ⟨0,none⟩)
          (s.world.wait_queue ())) (s.world.wait_queue ()) :=
        foldl_wakeup (objects_shape inv.shape _) (inv.shape.nodup ()) (tame owned one)
      have released : do_release { s.world with objects := fun _ =>
          { s.world.objects () with count := (s.world.objects ()).count - 1 } } =
          List.foldl kt_wakeup (set_mutex s.world ⟨0,none⟩) (s.world.wait_queue ()) := by
        simp only [do_release,kt_sync_wakeup,set_mutex,one]
        rfl
      rw [released]
      refine ⟨woken.shape,?_,?_,?_,?_,?_⟩
      · dsimp only
        rw [woken.objects]
        exact (by decide : 0 < modulus)
      · dsimp only
        rw [woken.objects]
        simp [set_mutex]
      · intro u
        dsimp only
        rw [woken.objects]
        show Function.update s.depth t (s.depth t - 1) u = if none = some u then 0 else 0
        by_cases same : u = t
        · rw [same,Function.update_self,depth,if_pos owned,one]
          simp
        · rw [Function.update_of_ne same,depth,if_neg (fun other => same (Option.some.inj (other.symm.trans owned)))]
          simp
      · dsimp only
        rw [woken.wait_queue]
        exact fun _ u member => woken.alert u member
      · dsimp only
        rw [woken.places]
        exact inv.lone
    · rename_i more
      have word := inv.word
      refine ⟨objects_shape inv.shape _,?_,?_,?_,fun zero => absurd zero more,inv.lone⟩
      · exact Nat.lt_of_le_of_lt (Nat.sub_le _ 1) word
      · dsimp only
        rw [owned]
        exact iff_of_true rfl more
      · intro u
        dsimp only
        by_cases same : u = t
        · rw [same,Function.update_self,depth,if_pos owned,if_pos owned]
        · have stranger : (s.world.objects ()).owner ≠ some u :=
            fun other => same (Option.some.inj (other.symm.trans owned))
          rw [Function.update_of_ne same,depth,if_neg stranger,if_neg stranger]
  · rw [if_neg owned,(inv.correct.strangers t owned)]
    exact inv

theorem wakeup_inv {t : τ} (inv : Inv s) (tame : Tame s (.wakeup t)) : Inv { s with world := kt_wakeup s.world t } :=
  ⟨wakeup_shape inv.shape t,inv.word,inv.owner,inv.depth,
    fun zero u member => (inv.free zero u member).wakeup inv.shape tame,inv.lone⟩

theorem act_inv (inv : Inv s) (shallow : Shallow s act) (tame : Tame s act) (done : step s act = some s') : Inv s' := by
  cases act with
  | lock t =>
    obtain ⟨⟨w',result⟩,moved,rfl⟩ := Option.map_eq_some_iff.mp done
    have moves := step_moves moved
    have kept : Inv { s with world := w' } := by
      refine quiet_inv inv moves (fun u => by simp) ?_
      cases moves with
      | refuse => exact inv.lone
      | call awake place => exact lone_update inv.lone rfl
    cases moves <;> exact kept
  | check t =>
    obtain ⟨⟨w',result⟩,moved,rfl⟩ := Option.map_eq_some_iff.mp done
    cases step_moves moved with
    | check awake place nodup => exact check_inv inv shallow awake place (check_satisfied_checked ..)
  | sleep t =>
    obtain ⟨⟨w',result⟩,moved,rfl⟩ := Option.map_eq_some_iff.mp done
    have moves := step_moves moved
    have kept : Inv { s with world := w' } := by
      refine quiet_inv inv moves (fun u => by simp) ?_
      cases moves with
      | sleep awake place =>
        have lone := inv.lone t
        rw [place] at lone
        exact lone_update inv.lone lone
    cases moves
    exact kept
  | resume t =>
    obtain ⟨⟨w',result⟩,moved,rfl⟩ := Option.map_eq_some_iff.mp done
    have moves := step_moves moved
    have kept : Inv { s with world := w' } := by
      refine quiet_inv inv moves (fun u => by simp) ?_
      cases moves with
      | resume awake place =>
        have lone := inv.lone t
        rw [place] at lone
        exact lone_update inv.lone lone
    cases moves
    exact kept
  | unlock t =>
    simp only [step] at done
    split at done
    · cases done
    split at done
    · obtain rfl := Option.some.inj done
      exact unlock_inv inv tame
    · cases done
  | wakeup t =>
    obtain rfl := Option.some.inj done
    exact wakeup_inv inv tame

theorem started_inv (started : Started start) : Inv start := by
  obtain ⟨initial_ownership,mutex,depth⟩ := started.mutex
  refine ⟨started_shape (fun _ => started.queue) started.outside started.awake,?_,?_,?_,?_,?_⟩
  · rw [mutex]
    cases initial_ownership with
    | none => exact (by decide : 0 < modulus)
    | some t => exact (by decide : add 0 1 < modulus)
  · rw [mutex]
    cases initial_ownership with
    | none => simp [ke_mutex_init]
    | some t => simp [ke_mutex_init,satisfied,add,modulus]
  · intro t
    rw [depth,mutex]
    cases initial_ownership with
    | none => simp [ke_mutex_init]
    | some u => simp [ke_mutex_init,satisfied,add,modulus]
  · rw [started.queue]
    exact fun _ t member => absurd member List.not_mem_nil
  · intro t
    rw [started.outside]
    rfl

theorem tame_run_inv (started : Started start) (run : TameRun start s) : Inv s := by
  induction run with
  | start => exact started_inv started
  | act _ shallow tame done inv => exact act_inv inv shallow tame done

/-- In every state that tame steps reach the mutex is correct. -/
theorem tame_run_correct {start s : State τ} (started : Started start) (run : TameRun start s) : Correct s :=
  (tame_run_inv started run).correct

end Runs

/-- A free mutex for threads that are numbered. -/
def fresh : State Nat where
  world := { objects := fun _ => ke_mutex_init none, wait_queue := fun _ => [], threads := fun _ => ⟨false,0⟩,
             places := fun _ => .outside }
  depth := fun _ => 0

theorem fresh_started : Started fresh := ⟨⟨none,rfl,fun _ => rfl⟩,rfl,fun _ => rfl,fun _ => rfl⟩

/-- Thread 0 locks twice, thread 1 sleeps. -/
theorem tame_run_correct_nested : ∃ s, TameRun fresh s ∧ s.depth 0 = 2 ∧ (s.world.threads 1).asleep = true ∧ Correct s := by
  have tame : ∀ {s : State Nat} {act : Act Nat} {s' : State Nat}, TameRun fresh s → Shallow s act → Tame s act →
      step s act = some s' → TameRun fresh s' := fun run small ok done => .act run small ok done
  have r₁ := tame .start (show Shallow fresh (.lock 0) from trivial) trivial rfl
  have r₂ := tame r₁ (show Shallow _ (.check 0) from (by decide : 0 + 1 < modulus)) trivial rfl
  have r₃ := tame r₂ (show Shallow _ (.lock 0) from trivial) trivial rfl
  have r₄ := tame r₃ (show Shallow _ (.check 0) from (by decide : 1 + 1 < modulus)) trivial rfl
  have r₅ := tame r₄ (show Shallow _ (.lock 1) from trivial) trivial rfl
  have r₆ := tame r₅ (show Shallow _ (.check 1) from (by decide : 2 + 1 < modulus)) trivial rfl
  have r₇ := tame r₆ (show Shallow _ (.sleep 1) from trivial) trivial rfl
  exact ⟨_,r₇,rfl,rfl,tame_run_correct fresh_started r₇⟩

/-- The mutex is free and thread 1, which found it locked, is about to sleep with `count`
    pending wakeups. -/
def passing (count : Nat) : State Nat where
  world := { objects := fun _ => ⟨0,none⟩, wait_queue := fun _ => [1],
             threads := Function.update (fun _ => ⟨false,0⟩) 1 ⟨false,count⟩,
             places := Function.update (fun _ => .outside) 1 (.about [()] false) }
  depth := fun _ => 0

/-- Thread 0 has locked the mutex meanwhile. -/
def holding (count : Nat) : State Nat where
  world := { (passing count).world with objects := fun _ => ⟨1,some 0⟩ }
  depth := Function.update (fun _ => 0) 0 1

theorem holding_unlocked (count : Nat) : step (holding count) (.unlock 0) = some (passing (add count 1)) := by
  have released : (ke_mutex_unlock (holding count).world 0).2 = (passing (add count 1)).world := by
    have zero : sub 1 1 = 0 := by decide
    simp [ke_mutex_unlock,holding,passing,set_mutex,zero,do_release,kt_sync_wakeup,kt_wakeup,Sleeper.kt_wakeup]
  simpa [step,holding,passing] using released

theorem passing_locked (count : Nat) : List.foldlM step (passing count) [.lock 0,.check 0] = some (holding count) := by
  have called : step (passing count) (.lock 0) =
      some { passing count with world := move (passing count).world 0 (.checking [()] false false false) } := rfl
  have checked : check_satisfied sync_ops (move (passing count).world 0 (.checking [()] false false false)) 0 [()]
      false false false = ((holding count).world,some (.KE_WAIT_OK ())) := by
    have one : add 0 1 = 1 := by decide
    simp [check_satisfied,passing,holding,move,sync_ops,signaled,satisfied,leave,one]
    exact funext fun _ => Function.update_self ..
  have locked : step { passing count with world := move (passing count).world 0 (.checking [()] false false false) }
      (.check 0) = some (holding count) := by
    have stepped : wait_step sync_ops (move (passing count).world 0 (.checking [()] false false false)) (.check 0) =
        some ((holding count).world,some (.KE_WAIT_OK ())) := by
      rw [← checked]
      rfl
    show wait _ 0 (.check 0) = _
    rw [wait,stepped]
    rfl
  rw [List.foldlM_cons,called,Option.bind_eq_bind,Option.bind_some,List.foldlM_cons,locked]
  rfl

/-- Thread 0 locks and unlocks `n` times, and thread 1 is woken as often. -/
theorem passing_rounds (n : Nat) : ∀ count < modulus,
    List.foldlM step (passing count) (List.replicate n [.lock 0,.check 0,.unlock 0]).flatten =
      some (passing ((count + n) % modulus)) := by
  induction n with
  | zero =>
    intro count word
    rw [Nat.add_zero,Nat.mod_eq_of_lt word]
    rfl
  | succ n ih =>
    intro count word
    have round : List.foldlM step (passing count) [.lock 0,.check 0,.unlock 0] = some (passing (add count 1)) := by
      have parts : ([.lock 0,.check 0,.unlock 0] : List (Act Nat)) = [.lock 0,.check 0] ++ [.unlock 0] := rfl
      rw [parts,List.foldlM_append,passing_locked,Option.bind_eq_bind,Option.bind_some,List.foldlM_cons,
        holding_unlocked,Option.bind_eq_bind,Option.bind_some,List.foldlM_nil]
      rfl
    rw [List.replicate_succ,List.flatten_cons,List.foldlM_append,round,Option.bind_eq_bind,Option.bind_some,
      ih (add count 1) (Nat.mod_lt _ (by decide)),add,Nat.mod_add_mod,Nat.add_assoc,Nat.add_comm 1 n]

/-- Thread 1 finds the mutex locked by thread 0. -/
theorem fresh_held : List.foldlM step fresh [.lock 0,.check 0,.lock 1,.check 1] = some (holding 0) := by
  have one : add 0 1 = 1 := by decide
  simp [step,wait,wait_step,fresh,ke_mutex_init,check_satisfied,passing,holding,move,sync_ops,signaled,satisfied,leave,
    add_waiter,one,Y_SYNC_MAX_OBJS_COUNT,KE_SYNC_STATIC_WAIT_NODE_COUNT]
  exact funext fun _ => Function.update_self ..

/-- Thread 1 finds the mutex locked; before it sleeps, 2^32 unlocks wake it. -/
theorem full_counter_loses_unlocks : ∃ acts s, Started fresh ∧ List.foldlM step fresh acts = some s ∧
    (s.world.threads 1).asleep = true ∧ (s.world.objects ()).count = 0 ∧ ¬Correct s := by
  let opening : List (Act Nat) := [.lock 0,.check 0,.lock 1,.check 1]
  let rounds : List (Act Nat) := (List.replicate (modulus - 1) [.lock 0,.check 0,.unlock 0]).flatten
  have one : add 0 1 = 1 := by decide
  have opened : List.foldlM step fresh opening = some (holding 0) := fresh_held
  have full : List.foldlM step (passing 1) rounds = some (passing 0) := by
    rw [passing_rounds (modulus - 1) 1 (by decide)]
    rfl
  have slept : step (passing 0) (.sleep 1) = some {
      passing 0 with world := move (kt_sleep (passing 0).world 1) 1 (.switching [()] false) } := rfl
  refine ⟨opening ++ .unlock 0 :: (rounds ++ [.sleep 1]),
    { passing 0 with world := move (kt_sleep (passing 0).world 1) 1 (.switching [()] false) },fresh_started,?_,rfl,rfl,?_⟩
  · rw [List.foldlM_append,opened,Option.bind_eq_bind,Option.bind_some,List.foldlM_cons,holding_unlocked,one,
      Option.bind_eq_bind,Option.bind_some,List.foldlM_append,full,Option.bind_eq_bind,Option.bind_some,List.foldlM_cons,
      slept]
    rfl
  · intro correct
    exact correct.waiters 1 rfl rfl

end GridOS.Mutex
