import GridOS.TimerRuns

/-!
The counter `active_timers` of a base against the timers that are pending and not deferrable, over every run of
the timer calls, of the clock and of `__run_timers`. A cascade moves timers with `internal_add_timer`, which counts
them once more.
-/
namespace GridOS.TimerCount
open GridOS.Timer
open GridOS.TimerRuns

section Moved
variable {τ : Type} [DecidableEq τ]

/-- The timers of a list that are not deferrable. -/
def counted (timers : τ → timer_list) (list : List τ) : Nat :=
  (list.filter (fun timer => !(timers timer).deferrable)).length

/-- How many timers that are not deferrable the cascades move. -/
def cascades_moved : List Nat → World τ → Nat
  | [], _ => 0
  | N :: rest, w =>
    counted w.timers (w.vec (N+1) (w.INDEX N)) +
      if w.INDEX N = 0 then cascades_moved rest (cascade w (N+1) (w.INDEX N)) else 0

def turn_moved (w : World τ) : Nat :=
  if w.timer_jiffies.toNat &&& TVR_MASK = 0 then cascades_moved [0,1,2,3] w else 0

def run (base : Nat) (ops : List (Op τ)) : System τ := ops.foldl step (start base)

/-- The counter is off by `drift`. -/
def Counted (w : World τ) (drift : BitVec 32) : Prop :=
  ∃ active : Finset τ, (∀ timer, timer ∈ active ↔ (w.timers timer).pending = true ∧ (w.timers timer).deferrable = false) ∧
    w.active_timers = BitVec.ofNat 32 active.card + drift

/-- The counter is the number of pending timers that are not deferrable, so 0 when none is pending. -/
structure Sound (w : World τ) : Prop where
  counts : ∃ active : Finset τ,
    (∀ timer, timer ∈ active ↔ (w.timers timer).pending = true ∧ (w.timers timer).deferrable = false) ∧
      w.active_timers = BitVec.ofNat 32 active.card
  idle : (∀ timer, (w.timers timer).pending = false) → w.active_timers = 0

/-- What a step adds to the counter without a timer becoming pending. -/
def added (s : System τ) : Op τ → BitVec 32
  | .turn =>
    if s.world.work_list = [] ∧ time_after_eq s.world.jiffies s.world.timer_jiffies then
      BitVec.ofNat 32 (turn_moved s.world)
    else 0
  | _ => 0

/-- The cascades of a tick move no timer that is not deferrable, or `2^32` of them. -/
def Careful (s : System τ) : Op τ → Prop
  | .turn => s.world.work_list = [] → time_after_eq s.world.jiffies s.world.timer_jiffies = true →
      BitVec.ofNat 32 (turn_moved s.world) = 0
  | _ => True

end Moved

section Proofs
variable {τ : Type} [DecidableEq τ] {w w' : World τ} {drift : BitVec 32} {timer : τ}

omit [DecidableEq τ] in
theorem Counted.sound (counted : Counted w 0) : Sound w := by
  obtain ⟨active,members,count⟩ := counted
  simp only [BitVec.ofNat_eq_ofNat,BitVec.add_zero] at count
  refine ⟨⟨active,members,count⟩,fun none => ?_⟩
  have empty : active = ∅ := by
    refine Finset.eq_empty_of_forall_notMem (fun timer member => ?_)
    have pending := ((members timer).mp member).1
    rw [none timer] at pending
    cases pending
  rw [count,empty]
  rfl

omit [DecidableEq τ] in
/-- A counter that is right is not off. -/
theorem Counted.drift_eq (counted : Counted w drift) (sound : Sound w) : drift = 0 := by
  obtain ⟨active,members,count⟩ := counted
  obtain ⟨active',members',count'⟩ := sound.counts
  have same : active = active' := by
    ext timer
    rw [members,members']
  rw [count',same] at count
  exact (BitVec.add_right_eq_self.mp count.symm)

omit [DecidableEq τ] in
theorem Counted.congr (counted : Counted w drift)
    (same : ∀ timer, ((w'.timers timer).pending = true ∧ (w'.timers timer).deferrable = false) ↔
      (w.timers timer).pending = true ∧ (w.timers timer).deferrable = false)
    (count : w'.active_timers = w.active_timers) : Counted w' drift := by
  obtain ⟨active,members,total⟩ := counted
  exact ⟨active,fun timer => (members timer).trans (same timer).symm,count.trans total⟩

/-- A timer stops to be pending. -/
theorem Counted.off (counted : Counted w drift) (pending : (w.timers timer).pending = true)
    (timers : w'.timers = Function.update w.timers timer { w.timers timer with pending := false })
    (count : w'.active_timers = if (w.timers timer).deferrable then w.active_timers else w.active_timers - 1) :
    Counted w' drift := by
  cases deferrable : (w.timers timer).deferrable with
  | true =>
    rw [deferrable,if_pos rfl] at count
    refine counted.congr (fun x => ?_) count
    rw [timers]
    by_cases same : x = timer
    · rw [same,Function.update_self,deferrable]
      simp
    · rw [Function.update_of_ne same]
  | false =>
    rw [deferrable,if_neg (by decide)] at count
    obtain ⟨active,members,total⟩ := counted
    have member : timer ∈ active := (members timer).mpr ⟨pending,deferrable⟩
    refine ⟨active.erase timer,fun x => ?_,?_⟩
    · rw [Finset.mem_erase,members,timers]
      by_cases same : x = timer
      · rw [same,Function.update_self]
        simp
      · rw [Function.update_of_ne same]
        simp [same]
    · have card := Finset.card_erase_add_one member
      rw [count,total,← card,BitVec.ofNat_add,BitVec.add_assoc,BitVec.add_comm _ drift,← BitVec.add_assoc]
      exact BitVec.add_sub_cancel ..

/-- A timer becomes pending, or stays so. -/
theorem Counted.on (counted : Counted w drift)
    (others : ∀ x, x ≠ timer → w'.timers x = w.timers x)
    (own : (w'.timers timer).pending = true ∧ (w'.timers timer).deferrable = (w.timers timer).deferrable)
    (count : w'.active_timers = if (w.timers timer).deferrable ∨ (w.timers timer).pending then w.active_timers
      else w.active_timers + 1) : Counted w' drift := by
  by_cases before : (w.timers timer).deferrable = true ∨ (w.timers timer).pending = true
  · rw [if_pos before] at count
    refine counted.congr (fun x => ?_) count
    by_cases same : x = timer
    · rw [same,own.1,own.2]
      rcases before with deferrable | pending
      · simp [deferrable]
      · simp [pending]
    · rw [others x same]
  · rw [if_neg before] at count
    push Not at before
    obtain ⟨active,members,total⟩ := counted
    have absent : timer ∉ active := fun member => before.2 ((members timer).mp member).1
    refine ⟨insert timer active,fun x => ?_,?_⟩
    · rw [Finset.mem_insert,members]
      by_cases same : x = timer
      · rw [same,own.1,own.2]
        simp [before.1]
      · rw [others x same]
        simp [same]
    · rw [count,total,Finset.card_insert_of_notMem absent,BitVec.ofNat_add,BitVec.add_assoc,BitVec.add_assoc,
        BitVec.add_comm drift]
      rfl

/-! ### The functions -/

theorem detach_expired_timer_timers (w : World τ) (timer : τ) :
    (detach_expired_timer w timer).timers = Function.update w.timers timer { w.timers timer with pending := false } ∧
      (detach_expired_timer w timer).active_timers =
        if (w.timers timer).deferrable then w.active_timers else w.active_timers - 1 := by
  unfold detach_expired_timer
  dsimp only
  split
  · exact ⟨by simp [detach_timer],rfl⟩
  · exact ⟨by simp [detach_timer],rfl⟩

theorem detach_if_pending_timers (clear_pending : Bool) (pending : (w.timers timer).pending = true) :
    (detach_if_pending w timer clear_pending).timers =
        Function.update w.timers timer { w.timers timer with pending := !clear_pending } ∧
      (detach_if_pending w timer clear_pending).active_timers =
        if (w.timers timer).deferrable then w.active_timers else w.active_timers - 1 := by
  unfold detach_if_pending
  rw [if_pos pending]
  dsimp only
  split
  · exact ⟨by simp [detach_timer,pending],rfl⟩
  · exact ⟨by simp [detach_timer,pending],rfl⟩

theorem internal_add_timer_count (w : World τ) (timer : τ) : (internal_add_timer w timer).active_timers =
    if (w.timers timer).deferrable then w.active_timers else w.active_timers + 1 := by
  unfold internal_add_timer
  dsimp only
  split
  · rfl
  · rfl

/-- A timer that is moved is counted once. -/
theorem mod_timer_count (w : World τ) (timer : τ) (expires : BitVec 32) :
    ((mod_timer w timer expires).timers timer).deferrable = (w.timers timer).deferrable ∧
      (mod_timer w timer expires).active_timers =
        if (w.timers timer).deferrable ∨ (w.timers timer).pending then w.active_timers else w.active_timers + 1 := by
  have between : ((detach_if_pending w timer false).timers timer).deferrable = (w.timers timer).deferrable ∧
      (detach_if_pending w timer false).active_timers =
        if (w.timers timer).pending ∧ ¬(w.timers timer).deferrable then w.active_timers - 1 else w.active_timers := by
    by_cases pending : (w.timers timer).pending = true
    · obtain ⟨timers,count⟩ := detach_if_pending_timers false pending
      rw [timers,count,Function.update_self]
      refine ⟨rfl,?_⟩
      cases (w.timers timer).deferrable <;> simp [pending]
    · have same : detach_if_pending w timer false = w := if_neg pending
      rw [same]
      exact ⟨rfl,by simp [pending]⟩
  obtain ⟨deferrable,count⟩ := between
  have add : ∀ w' : World τ, (w'.timers timer).deferrable = (w.timers timer).deferrable →
      w'.active_timers = (detach_if_pending w timer false).active_timers →
      ((internal_add_timer w' timer).timers timer).deferrable = (w.timers timer).deferrable ∧
        (internal_add_timer w' timer).active_timers =
          if (w.timers timer).deferrable ∨ (w.timers timer).pending then w.active_timers else w.active_timers + 1 := by
    intro w' own same
    rw [(internal_add_timer_added w' timer).timers,internal_add_timer_count,Function.update_self,same,count]
    refine ⟨own,?_⟩
    simp only [own]
    cases (w.timers timer).deferrable with
    | true => simp
    | false =>
      cases (w.timers timer).pending with
      | true =>
        simp only [Bool.false_eq_true,↓reduceIte,not_false_eq_true,and_self,BitVec.ofNat_eq_ofNat,
          BitVec.sub_add_cancel,or_true]
      | false => simp
  refine add _ ?_ rfl
  dsimp only
  rw [Function.update_self]
  exact deferrable

/-- The timers in the lists are pending. -/
structure AllLinked (w : World τ) : Prop where
  vec : ∀ n i timer, timer ∈ w.vec n i → (w.timers timer).pending = true
  work_list : ∀ timer ∈ w.work_list, (w.timers timer).pending = true

omit [DecidableEq τ] in
theorem AllLinked.linked (all : AllLinked w) (timer : τ) : Linked w timer := by
  intro off
  constructor
  · intro n i member
    exact Bool.false_ne_true (off.symm.trans (all.vec n i timer member))
  · intro member
    exact Bool.false_ne_true (off.symm.trans (all.work_list timer member))

/-- A cascade counts what it moves once more, and does nothing else to the timers. -/
structure Recounted (w w' : World τ) (more : Nat) : Prop where
  timers : w'.timers = w.timers
  work_list : w'.work_list = w.work_list
  timer_jiffies : w'.timer_jiffies = w.timer_jiffies
  linked : AllLinked w → AllLinked w'
  count : w'.active_timers = w.active_timers + BitVec.ofNat 32 more

theorem internal_add_timer_recounted (pending : (w.timers timer).pending = true) :
    Recounted w (internal_add_timer w timer) (counted w.timers [timer]) := by
  have added := internal_add_timer_added w timer
  have timers : (internal_add_timer w timer).timers = w.timers := by
    have same : ({ w.timers timer with pending := true } : timer_list) = w.timers timer := by rw [← pending]
    rw [added.timers,same,Function.update_eq_self]
  refine ⟨timers,added.work_list,added.timer_jiffies,?_,?_⟩
  · intro all
    refine ⟨?_,?_⟩
    · intro n i x member
      rw [timers]
      rcases (added.vec n i x).mp member with old | ⟨rfl,_⟩
      · exact all.vec n i x old
      · exact pending
    · rw [timers,added.work_list]
      exact all.work_list
  · rw [internal_add_timer_count,counted]
    cases deferrable : (w.timers timer).deferrable <;> simp [deferrable]

omit [DecidableEq τ] in
theorem Recounted.trans {w'' : World τ} {one two : Nat} (first : Recounted w w' one) (second : Recounted w' w'' two) :
    Recounted w w'' (one + two) where
  timers := second.timers.trans first.timers
  work_list := second.work_list.trans first.work_list
  timer_jiffies := second.timer_jiffies.trans first.timer_jiffies
  linked := fun all => second.linked (first.linked all)
  count := by rw [second.count,first.count,BitVec.ofNat_add,BitVec.add_assoc]

theorem spread_recounted (list : List τ) : ∀ {w : World τ}, (∀ timer ∈ list, (w.timers timer).pending = true) →
    Recounted w (list.foldl internal_add_timer w) (counted w.timers list) := by
  induction list with
  | nil =>
    intro w _
    exact ⟨rfl,rfl,rfl,id,(BitVec.add_zero _).symm⟩
  | cons first rest ih =>
    intro w pending
    have one := internal_add_timer_recounted (pending first List.mem_cons_self)
    have more := ih (w := internal_add_timer w first) (fun timer member => by
      rw [one.timers]
      exact pending timer (List.mem_cons_of_mem _ member))
    have total : counted w.timers (first :: rest) =
        counted w.timers [first] + counted (internal_add_timer w first).timers rest := by
      rw [one.timers,counted,counted,counted,← List.length_append,← List.filter_append,List.singleton_append]
    rw [List.foldl_cons,total]
    exact one.trans more

theorem cascade_recounted (all : AllLinked w) (n index : Nat) :
    Recounted w (cascade w n index) (counted w.timers (w.vec n index)) := by
  have emptied : Recounted w (w.set_vec n index []) 0 := by
    refine ⟨rfl,rfl,rfl,fun _ => ⟨?_,all.work_list⟩,(BitVec.add_zero _).symm⟩
    intro n' i timer member
    exact all.vec n' i timer (World.mem_emptied.mp member).2
  have spread := emptied.trans (spread_recounted (w := w.set_vec n index []) (w.vec n index) (all.vec n index))
  rw [Nat.zero_add] at spread
  exact spread

theorem cascades_recounted (levels : List Nat) : ∀ {w : World τ}, AllLinked w →
    Recounted w (cascades levels w) (cascades_moved levels w) := by
  induction levels with
  | nil =>
    intro w _
    exact ⟨rfl,rfl,rfl,id,(BitVec.add_zero _).symm⟩
  | cons N rest ih =>
    intro w all
    have one := cascade_recounted all (N+1) (w.INDEX N)
    rw [cascades,cascades_moved]
    by_cases more : w.INDEX N = 0
    · rw [if_pos more,if_pos more]
      exact one.trans (ih (one.linked all))
    · rw [if_neg more,if_neg more,Nat.add_zero]
      exact one

/-- A tick moves its timers to the work list, and counts more those that its cascades move. -/
theorem turn_recounted (all : AllLinked w) : (run_timers_turn w).timers = w.timers ∧ AllLinked (run_timers_turn w) ∧
    (run_timers_turn w).active_timers = w.active_timers + BitVec.ofNat 32 (turn_moved w) := by
  have spread : Recounted w (if w.timer_jiffies.toNat &&& TVR_MASK = 0 then cascades [0,1,2,3] w else w) (turn_moved w) := by
    unfold turn_moved
    split
    · exact cascades_recounted [0,1,2,3] all
    · exact ⟨rfl,rfl,rfl,id,(BitVec.add_zero _).symm⟩
  unfold run_timers_turn
  dsimp only
  generalize (if w.timer_jiffies.toNat &&& TVR_MASK = 0 then cascades [0,1,2,3] w else w) = w' at spread
  have linked := spread.linked all
  refine ⟨spread.timers,⟨?_,?_⟩,spread.count⟩
  · intro n i timer member
    exact linked.vec n i timer (World.mem_emptied.mp member).2
  · intro timer member
    exact linked.vec 0 _ timer member

end Proofs

/-! ### Every run -/

section Runs
variable {τ : Type} [DecidableEq τ] {s : System τ} {drift : BitVec 32}

structure Inv (w : World τ) (drift : BitVec 32) : Prop where
  linked : AllLinked w
  counts : Counted w drift

/-- A timer leaves its list and is not pending any more. -/
theorem Inv.off {w w' : World τ} {timer : τ} (inv : Inv w drift) (pending : (w.timers timer).pending = true)
    (detached : Detached w w' timer)
    (timers : w'.timers = Function.update w.timers timer { w.timers timer with pending := false })
    (count : w'.active_timers = if (w.timers timer).deferrable then w.active_timers else w.active_timers - 1) :
    Inv w' drift := by
  refine ⟨⟨?_,?_⟩,inv.counts.off pending timers count⟩
  · intro n i x member
    obtain ⟨old,away⟩ := (detached.vec n i x).mp member
    rw [detached.timers x away]
    exact inv.linked.vec n i x old
  · intro x member
    obtain ⟨old,away⟩ := (detached.work_list x).mp member
    rw [detached.timers x away]
    exact inv.linked.work_list x old

theorem Inv.mod {w : World τ} (inv : Inv w drift) (timer : τ) (expires : BitVec 32) :
    Inv (hal_timer_mod w timer expires) drift := by
  unfold hal_timer_mod
  dsimp only
  split
  · exact inv
  · have moved := mod_timer_moved (inv.linked.linked timer) (w.slacked timer expires)
    obtain ⟨deferrable,count⟩ := mod_timer_count w timer (w.slacked timer expires)
    refine ⟨⟨?_,?_⟩,inv.counts.on moved.timers ⟨moved.own.1,deferrable⟩ count⟩
    · intro n i x member
      rcases (moved.vec n i x).mp member with ⟨old,away⟩ | ⟨rfl,_⟩
      · rw [moved.timers x away]
        exact inv.linked.vec n i x old
      · exact moved.own.1
    · intro x member
      obtain ⟨old,away⟩ := (moved.work_list x).mp member
      rw [moved.timers x away]
      exact inv.linked.work_list x old

omit [DecidableEq τ] in
/-- A step that adds nothing to the counter. -/
theorem Inv.unmoved {w : World τ} (inv : Inv w drift) : Inv w (drift + 0) := by
  have same : drift + 0 = drift := BitVec.add_zero drift
  rw [same]
  exact inv

theorem step_inv (inv : Inv s.world drift) (op : Op τ) : Inv (step s op).world (drift + added s op) := by
  cases op with
  | setup timer deferrable slack expires =>
    refine Inv.unmoved ?_
    rw [step]
    split
    · exact inv
    · next off =>
      have others : ∀ x, x ≠ timer → Function.update s.world.timers timer ⟨expires,slack,deferrable,false⟩ x =
          s.world.timers x := fun x away => Function.update_of_ne away ..
      obtain ⟨no_vec,no_work⟩ := inv.linked.linked timer (Bool.eq_false_iff.mpr off)
      refine ⟨⟨?_,?_⟩,inv.counts.congr (fun x => ?_) rfl⟩
      · intro n i x member
        dsimp only at member ⊢
        rw [others x (fun same => no_vec n i (same ▸ member))]
        exact inv.linked.vec n i x member
      · intro x member
        dsimp only at member ⊢
        rw [others x (fun same => no_work (same ▸ member))]
        exact inv.linked.work_list x member
      · dsimp only
        by_cases same : x = timer
        · rw [same,Function.update_self]
          simp [off]
        · rw [others x same]
  | hal_timer_add timer =>
    refine Inv.unmoved ?_
    rw [step,hal_timer_add]
    split
    · exact inv
    · exact inv.mod timer _
  | hal_timer_mod timer expires =>
    exact (inv.mod timer expires).unmoved
  | hal_timer_del timer =>
    refine Inv.unmoved ?_
    rw [step]
    by_cases pending : (s.world.timers timer).pending = true
    · obtain ⟨timers,count⟩ := detach_if_pending_timers true pending
      exact inv.off pending (detach_if_pending_detached (inv.linked.linked timer) true) timers count
    · have same : hal_timer_del s.world timer = s.world := if_neg pending
      rw [same]
      exact inv
  | tick =>
    refine Inv.unmoved ?_
    exact ⟨⟨inv.linked.vec,inv.linked.work_list⟩,inv.counts.congr (fun _ => Iff.rfl) rfl⟩
  | turn =>
    rw [step,added]
    split
    · obtain ⟨timers,linked,count⟩ := turn_recounted inv.linked
      obtain ⟨active,members,total⟩ := inv.counts
      refine ⟨linked,active,?_,?_⟩
      · rw [timers]
        exact members
      · rw [count,total,BitVec.add_assoc]
    · exact inv.unmoved
  | fire =>
    refine Inv.unmoved ?_
    cases list : s.world.work_list with
    | nil =>
      have idle : step s .fire = s := by rw [step,list]
      rw [idle]
      exact inv
    | cons timer rest =>
      have fires : (step s .fire).world = detach_expired_timer s.world timer := by rw [step,list]
      have pending := inv.linked.work_list timer (by rw [list]; exact List.mem_cons_self)
      obtain ⟨timers,count⟩ := detach_expired_timer_timers s.world timer
      rw [fires]
      exact inv.off pending (detach_expired_timer_detached s.world timer).1 timers count

theorem run_concat (base : Nat) (before : List (Op τ)) (op : Op τ) :
    run base (before ++ [op]) = step (run base before) op := by
  rw [run,List.foldl_concat]
  rfl

theorem start_inv (base : Nat) : Inv (run base ([] : List (Op τ))).world 0 where
  linked := ⟨fun _ _ _ none => (by cases none),fun _ none => by cases none⟩
  counts := ⟨∅,fun _ => by simp [run,start],rfl⟩

theorem careful_iff (s : System τ) (op : Op τ) : Careful s op ↔ added s op = 0 := by
  cases op with
  | turn =>
    unfold Careful added
    by_cases ready : s.world.work_list = [] ∧ time_after_eq s.world.jiffies s.world.timer_jiffies = true
    · rw [if_pos ready]
      exact ⟨fun careful => careful ready.1 ready.2,fun none _ _ => none⟩
    · rw [if_neg ready]
      exact iff_of_true (fun done comes => absurd ⟨done,comes⟩ ready) rfl
  | _ => exact iff_of_true trivial rfl

/-- The counter is right in every state of a run exactly when no tick of it cascades a timer that is counted. -/
theorem active_timers_iff (base : Nat) (ops : List (Op τ)) :
    (∀ before, before <+: ops → Sound (run base before).world) ↔
      ∀ before op, before ++ [op] <+: ops → Careful (run base before) op := by
  constructor
  · intro sound
    have exact_count : ∀ before, before <+: ops → Inv (run base before).world 0 := by
      intro before
      induction before using List.reverseRecOn with
      | nil => exact fun _ => start_inv base
      | append_singleton before op ih =>
        intro starts
        have stepped := step_inv (ih ((List.prefix_append ..).trans starts)) op
        rw [← run_concat] at stepped
        have none := stepped.counts.drift_eq (sound _ starts)
        rw [none] at stepped
        exact stepped
    intro before op starts
    have stepped := step_inv (exact_count before ((List.prefix_append ..).trans starts)) op
    rw [← run_concat] at stepped
    have none := stepped.counts.drift_eq (sound _ starts)
    rw [BitVec.ofNat_eq_ofNat,BitVec.zero_add] at none
    exact (careful_iff _ op).mpr none
  · intro careful before starts
    have inv : Inv (run base before).world 0 := by
      induction before using List.reverseRecOn with
      | nil => exact start_inv base
      | append_singleton before op ih =>
        have stepped := step_inv (ih ((List.prefix_append ..).trans starts)) op
        rw [← run_concat,(careful_iff _ op).mp (careful before op starts)] at stepped
        exact stepped
    exact inv.counts.sound

/-- A timer that `hal_timer_init` has filled in and that is set 257 ticks ahead is put off to the tick 1528, and cascades at
    the tick 1280. -/
theorem cascaded_timer : ¬Sound (run 1270 ([.setup () false (-1) 0,.hal_timer_mod () 1527,.turn] ++
    (List.replicate 10 [.tick,.turn]).flatten ++ [.hal_timer_del ()])).world := by
  intro sound
  exact absurd (sound.idle (by decide +kernel)) (by decide +kernel)

end Runs

end GridOS.TimerCount
