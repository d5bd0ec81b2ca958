import GridOS.Timer

/-!
When a timer goes off, over every run of the timer calls, of the clock and of `__run_timers`, with calls between
any two callbacks of a tick. Beside the code there is an alarm clock in unbounded numbers: a timer that is set is
armed with the time it was set to, and is due at that time or, when this is past, at the next tick of the wheel.
-/
namespace GridOS.TimerRuns
open GridOS.Timer
open GridOS.Wheel (block size slotOf Holds)

/-- What a timer was set to, and the tick at which it is due. -/
structure Alarm where
  expiry : Int
  due : Nat
deriving DecidableEq

/-- The code and the alarm clock: the tick that the wheel comes to next, the timers that are armed, and what went off, with
    its alarm and the tick. -/
structure System (τ : Type) where
  world : World τ
  now : Nat
  armed : τ → Option Alarm
  fired : List (τ × Option Alarm × Nat)

inductive Op (τ : Type)
  /-- A timer that is not pending is filled in. -/
  | setup (timer : τ) (deferrable : Bool) (slack expires : BitVec 32)
  | hal_timer_add (timer : τ)
  | hal_timer_mod (timer : τ) (expires : BitVec 32)
  | hal_timer_del (timer : τ)
  /-- The clock goes on. -/
  | tick
  /-- `__run_timers` begins a tick that has come. -/
  | turn
  /-- The first timer of the tick goes off. -/
  | fire

section Steps
variable {τ : Type} [DecidableEq τ]

/-- The time that is asked for, and what the slack adds to it. -/
def System.expiry (s : System τ) (timer : τ) (expires : BitVec 32) : Int :=
  s.world.jiffies_64 + (expires - s.world.jiffies).toInt + (s.world.slacked timer expires - expires).toNat

/-- A timer is set; one that is set to this time already stays as it is. -/
def System.arm (s : System τ) (timer : τ) (expires : BitVec 32) : τ → Option Alarm :=
  if (s.armed timer).map Alarm.expiry = some (s.expiry timer expires) then s.armed else
  Function.update s.armed timer
    (some ⟨s.expiry timer expires,(max (s.now : Int) (s.expiry timer expires)).toNat⟩)

def step (s : System τ) : Op τ → System τ
  | .setup timer deferrable slack expires =>
    if (s.world.timers timer).pending then s else
    { s with world :=
        { s.world with timers := Function.update s.world.timers timer ⟨expires,slack,deferrable,false⟩ } }
  | .hal_timer_add timer =>
    { s with world := hal_timer_add s.world timer
             armed := if (s.armed timer).isSome then s.armed else s.arm timer (s.world.timers timer).expires }
  | .hal_timer_mod timer expires =>
    { s with world := hal_timer_mod s.world timer expires, armed := s.arm timer expires }
  | .hal_timer_del timer =>
    { s with world := hal_timer_del s.world timer, armed := Function.update s.armed timer none }
  | .tick => { s with world := { s.world with jiffies_64 := s.world.jiffies_64 + 1 } }
  | .turn =>
    if s.world.work_list = [] ∧ time_after_eq s.world.jiffies s.world.timer_jiffies then
      { s with world := run_timers_turn s.world, now := s.now + 1 }
    else s
  | .fire =>
    match s.world.work_list with
    | [] => s
    | timer :: _ =>
      { s with world := detach_expired_timer s.world timer
               armed := Function.update s.armed timer none
               fired := s.fired ++ [(timer,s.armed timer,s.now - 1)] }

/-- No timer is pending and the wheel is at the time of the clock. -/
def start (base : Nat) : System τ where
  world :=
    { timer_jiffies := BitVec.ofNat 32 base, next_timer := BitVec.ofNat 32 base, active_timers := 0
      vec := fun _ _ => [], timers := fun _ => ⟨0,0,false,false⟩, jiffies_64 := base, work_list := [] }
  now := base
  armed := fun _ => none
  fired := []

/-- The pending timers are the armed ones, a tick does not end before all that was due at it went off, and what goes off is
    armed and goes off at the tick at which it is due. -/
structure Sound (s : System τ) : Prop where
  pending : ∀ timer, (s.world.timers timer).pending = true ↔ (s.armed timer).isSome = true
  waiting : ∀ timer alarm, s.armed timer = some alarm →
    s.now ≤ alarm.due ∨ timer ∈ s.world.work_list ∧ alarm.due + 1 = s.now
  working : ∀ timer ∈ s.world.work_list, ∃ alarm, s.armed timer = some alarm ∧ alarm.due + 1 = s.now
  fired : ∀ timer armed tick, (timer,armed,tick) ∈ s.fired → ∃ alarm, armed = some alarm ∧ alarm.due = tick

/-- The time that a timer is set to, slack and all, is less than `2^31` ticks from the wheel's. -/
def System.Near (s : System τ) (timer : τ) (expires : BitVec 32) : Prop :=
  (s.now : Int) - 2 ^ 31 < s.expiry timer expires ∧ s.expiry timer expires < s.now + 2 ^ 31

def Careful (s : System τ) : Op τ → Prop
  | .hal_timer_add timer => s.armed timer = none → s.Near timer (s.world.timers timer).expires
  | .hal_timer_mod timer expires => s.Near timer expires
  | _ => True

instance (s : System τ) (timer : τ) (expires : BitVec 32) : Decidable (s.Near timer expires) :=
  inferInstanceAs (Decidable (_ ∧ _))

instance (s : System τ) : (op : Op τ) → Decidable (Careful s op)
  | .hal_timer_add timer =>
    inferInstanceAs (Decidable (s.armed timer = none → s.Near timer (s.world.timers timer).expires))
  | .hal_timer_mod timer expires => inferInstanceAs (Decidable (s.Near timer expires))
  | .setup .. | .hal_timer_del _ | .tick | .turn | .fire => .isTrue trivial

/-- The states of the runs from a base time in which every time set is near. -/
inductive NearRun (base : Nat) : System τ → Prop
  | start : NearRun base (start base)
  | step {s : System τ} (run : NearRun base s) (op : Op τ) (careful : Careful s op) : NearRun base (step s op)

end Steps

/-! ### The calls -/

section Calls
variable {τ : Type} [DecidableEq τ] {w w' : World τ} {timer : τ}

/-- A timer left the list it was in. -/
structure Detached (w w' : World τ) (timer : τ) : Prop where
  timer_jiffies : w'.timer_jiffies = w.timer_jiffies
  vec : ∀ n i x, x ∈ w'.vec n i ↔ x ∈ w.vec n i ∧ x ≠ timer
  work_list : ∀ x, x ∈ w'.work_list ↔ x ∈ w.work_list ∧ x ≠ timer
  timers : ∀ x, x ≠ timer → w'.timers x = w.timers x

theorem detach_timer_detached (w : World τ) (timer : τ) (clear_pending : Bool) :
    Detached w (detach_timer w timer clear_pending) timer where
  timer_jiffies := rfl
  vec := fun n i x => by simp [detach_timer]
  work_list := fun x => by simp [detach_timer]
  timers := fun x other => Function.update_of_ne other ..

theorem detach_expired_timer_detached (w : World τ) (timer : τ) :
    Detached w (detach_expired_timer w timer) timer ∧
      ((detach_expired_timer w timer).timers timer).pending = false := by
  have detached := detach_timer_detached w timer true
  have off : ((detach_timer w timer true).timers timer).pending = false := by
    simp [detach_timer]
  unfold detach_expired_timer
  dsimp only
  split
  · exact ⟨detached,off⟩
  · exact ⟨⟨detached.timer_jiffies,detached.vec,detached.work_list,detached.timers⟩,off⟩

/-- A timer that is in no list unless it is pending. -/
def Linked (w : World τ) (timer : τ) : Prop :=
  (w.timers timer).pending = false → (∀ n i, timer ∉ w.vec n i) ∧ timer ∉ w.work_list

theorem detach_if_pending_detached (linked : Linked w timer) (clear_pending : Bool) :
    Detached w (detach_if_pending w timer clear_pending) timer := by
  have detached := detach_timer_detached w timer clear_pending
  unfold detach_if_pending
  split
  · dsimp only
    split
    · exact detached
    · exact ⟨detached.timer_jiffies,detached.vec,detached.work_list,detached.timers⟩
  · next off =>
    obtain ⟨no_vec,no_work⟩ := linked (Bool.eq_false_iff.mpr off)
    refine ⟨rfl,?_,?_,fun _ _ => rfl⟩
    · intro n i x
      exact ⟨fun member => ⟨member,fun same => no_vec n i (same ▸ member)⟩,And.left⟩
    · intro x
      exact ⟨fun member => ⟨member,fun same => no_work (same ▸ member)⟩,And.left⟩

theorem hal_timer_del_pending (w : World τ) (timer : τ) : ((hal_timer_del w timer).timers timer).pending = false := by
  unfold hal_timer_del detach_if_pending
  split
  · dsimp only
    split
    · simp [detach_timer]
    · simp [detach_timer]
  · next off => exact Bool.eq_false_iff.mpr off

omit [DecidableEq τ] in
/-- A list that is emptied has no timer, and the others have those that they had. -/
theorem World.mem_emptied {w : World τ} {n i n' i' : Nat} {timer : τ} :
    timer ∈ (w.set_vec n i []).vec n' i' ↔ ¬(n' = n ∧ i' = i) ∧ timer ∈ w.vec n' i' := by
  unfold World.set_vec
  dsimp only
  split
  · next here => simp [here]
  · next other => exact (and_iff_right other).symm

/-- A timer is linked into the slot for its time. -/
structure Added (w w' : World τ) (timer : τ) : Prop where
  timer_jiffies : w'.timer_jiffies = w.timer_jiffies
  vec : ∀ n i x, x ∈ w'.vec n i ↔ x ∈ w.vec n i ∨
    x = timer ∧ (n,i) = internal_add_timer_vec w.timer_jiffies (w.timers timer).expires
  work_list : w'.work_list = w.work_list
  timers : w'.timers = Function.update w.timers timer { w.timers timer with pending := true }

theorem list_add_timer_added (w : World τ) (timer : τ) : Added w (list_add_timer w timer) timer := by
  refine ⟨rfl,?_,rfl,rfl⟩
  intro n i x
  unfold list_add_timer World.set_vec
  dsimp only
  by_cases here : n = (internal_add_timer_vec w.timer_jiffies (w.timers timer).expires).1 ∧
      i = (internal_add_timer_vec w.timer_jiffies (w.timers timer).expires).2
  · rw [if_pos here,List.mem_append,List.mem_singleton,here.1,here.2]
    simp
  · rw [if_neg here]
    have other : (n,i) ≠ internal_add_timer_vec w.timer_jiffies (w.timers timer).expires :=
      fun same => here (Prod.ext_iff.mp same)
    simp [other]

theorem internal_add_timer_added (w : World τ) (timer : τ) : Added w (internal_add_timer w timer) timer := by
  have added := list_add_timer_added w timer
  unfold internal_add_timer
  dsimp only
  split
  · exact added
  · exact ⟨added.timer_jiffies,added.vec,added.work_list,added.timers⟩

/-- A timer is moved to another time. -/
structure Moved (w w' : World τ) (timer : τ) (expires : BitVec 32) : Prop where
  timer_jiffies : w'.timer_jiffies = w.timer_jiffies
  vec : ∀ n i x, x ∈ w'.vec n i ↔ x ∈ w.vec n i ∧ x ≠ timer ∨
    x = timer ∧ (n,i) = internal_add_timer_vec w.timer_jiffies expires
  work_list : ∀ x, x ∈ w'.work_list ↔ x ∈ w.work_list ∧ x ≠ timer
  timers : ∀ x, x ≠ timer → w'.timers x = w.timers x
  own : (w'.timers timer).pending = true ∧ (w'.timers timer).expires = expires

theorem mod_timer_moved (linked : Linked w timer) (expires : BitVec 32) :
    Moved w (mod_timer w timer expires) timer expires := by
  have detached := detach_if_pending_detached linked false
  unfold mod_timer
  dsimp only
  generalize detach_if_pending w timer false = between at detached
  have added := internal_add_timer_added
    { between with timers := Function.update between.timers timer { between.timers timer with expires } } timer
  refine ⟨added.timer_jiffies.trans detached.timer_jiffies,?_,?_,?_,?_⟩
  · intro n i x
    rw [added.vec n i x,← detached.timer_jiffies,← detached.vec n i x]
    dsimp only
    rw [Function.update_self]
  · intro x
    rw [added.work_list]
    exact detached.work_list x
  · intro x other
    rw [added.timers,Function.update_of_ne other]
    dsimp only
    rw [Function.update_of_ne other]
    exact detached.timers x other
  · rw [added.timers,Function.update_self]
    dsimp only
    rw [Function.update_self]
    exact ⟨rfl,rfl⟩

end Calls

/-! ### The cascades -/

/-- What the lists of the wheel hold: the level `n` as it is at the time `clock n`. -/
def InWheel {τ : Type} (vec : Nat → Nat → List τ) (armed : τ → Option Alarm) (clock : Nat → Nat) : Prop :=
  ∀ n i timer, timer ∈ vec n i → n ≤ 4 ∧ ∃ alarm, armed timer = some alarm ∧
    Holds 256 64 (clock n) alarm.due n i ∧ (n ≠ 0 → (alarm.due : Int) = alarm.expiry)

/-- In the tick `W` the levels up to `k` have done with it, but for level 0. -/
def clock (W k n : Nat) : Nat := if n = 0 then W else if n ≤ k then W + 1 else W

section Cascades
variable {τ : Type} [DecidableEq τ] {w w' : World τ} {armed : τ → Option Alarm} {W k : Nat}

/-- Timers are moved within the wheel only. -/
structure Spread (w w' : World τ) : Prop where
  timer_jiffies : w'.timer_jiffies = w.timer_jiffies
  work_list : w'.work_list = w.work_list
  timers : w'.timers = w.timers
  kept : ∀ timer, (∃ n i, timer ∈ w.vec n i) → ∃ n i, timer ∈ w'.vec n i

/-- A timer whose slot of level `k` begins with the tick `W`. -/
def Begins (w : World τ) (armed : τ → Option Alarm) (W k : Nat) (timer : τ) : Prop :=
  (w.timers timer).pending = true ∧ ∃ alarm, armed timer = some alarm ∧ (alarm.due : Int) = alarm.expiry ∧
    (w.timers timer).expires = BitVec.ofInt 32 alarm.expiry ∧ W ≤ alarm.due ∧ alarm.due - W < block 256 64 k

/-- It goes to a level below. -/
theorem spread_one {timer : τ} (high : k ≤ 4) (ticks : w.timer_jiffies = BitVec.ofNat 32 W)
    (begins : Begins w armed W k timer) (wheel : InWheel w.vec armed (clock W k)) :
    InWheel (internal_add_timer w timer).vec armed (clock W k) ∧ Spread w (internal_add_timer w timer) ∧
      ∃ n i, timer ∈ (internal_add_timer w timer).vec n i := by
  obtain ⟨pending,alarm,here,exact_due,word,later,near⟩ := begins
  have added := internal_add_timer_added w timer
  have bound : block 256 64 k ≤ 2 ^ 31 := (Wheel.block_le (by decide) (by decide) high).trans (by decide)
  obtain ⟨level,le,vec,put⟩ := vec_of_near later (near.trans_le bound)
  have slot : internal_add_timer_vec w.timer_jiffies (w.timers timer).expires =
      (level,slotOf 256 64 alarm.due level) := by
    rw [ticks,word,← exact_due,BitVec.ofInt_natCast]
    exact vec
  refine ⟨?_,⟨added.timer_jiffies,added.work_list,?_,?_⟩,?_⟩
  · intro n i x member
    rcases (added.vec n i x).mp member with old | ⟨rfl,new⟩
    · exact wheel n i x old
    · rw [slot,Prod.mk.injEq] at new
      obtain ⟨rfl,rfl⟩ := new
      refine ⟨le,alarm,here,?_,fun _ => exact_due⟩
      unfold clock
      split
      · exact put.holds (by decide) (by decide)
      · next above =>
        -- a level that is shorter than the distance is below the one that cascades
        have below : n ≤ k := by
          by_contra beyond
          have longer := Wheel.block_le (r := 256) (q := 64) (by decide) (by decide) (Nat.le_of_not_le beyond)
          have far := put.2.1.resolve_left above
          omega
        rw [if_pos below]
        exact put.holds_next (by decide) (by decide) above
  · rw [added.timers]
    have same : ({ w.timers timer with pending := true } : timer_list) = w.timers timer := by
      rw [← pending]
    rw [same,Function.update_eq_self]
  · rintro x ⟨n,i,member⟩
    exact ⟨n,i,(added.vec n i x).mpr (.inl member)⟩
  · exact ⟨level,_,(added.vec level _ timer).mpr (.inr ⟨rfl,slot.symm⟩)⟩

omit [DecidableEq τ] in
theorem Spread.trans {w'' : World τ} (one : Spread w w') (two : Spread w' w'') : Spread w w'' where
  timer_jiffies := two.timer_jiffies.trans one.timer_jiffies
  work_list := two.work_list.trans one.work_list
  timers := two.timers.trans one.timers
  kept := fun timer linked => two.kept timer (one.kept timer linked)

/-- All timers of the slot go to levels below. -/
theorem spread_all (high : k ≤ 4) (list : List τ) : ∀ {w : World τ}, w.timer_jiffies = BitVec.ofNat 32 W →
    (∀ timer ∈ list, Begins w armed W k timer) → InWheel w.vec armed (clock W k) →
    InWheel (list.foldl internal_add_timer w).vec armed (clock W k) ∧ Spread w (list.foldl internal_add_timer w) ∧
      ∀ timer ∈ list, ∃ n i, timer ∈ (list.foldl internal_add_timer w).vec n i := by
  induction list with
  | nil =>
    intro w _ _ wheel
    exact ⟨wheel,⟨rfl,rfl,rfl,fun _ linked => linked⟩,fun _ none => by cases none⟩
  | cons first rest ih =>
    intro w ticks begins wheel
    obtain ⟨wheel₁,spread₁,linked₁⟩ := spread_one high ticks (begins first List.mem_cons_self) wheel
    have begins₁ : ∀ timer ∈ rest, Begins (internal_add_timer w first) armed W k timer := by
      intro timer member
      have begins := begins timer (List.mem_cons_of_mem _ member)
      unfold Begins at *
      rw [spread₁.timers]
      exact begins
    obtain ⟨wheel₂,spread₂,linked₂⟩ := ih (spread₁.timer_jiffies.trans ticks) begins₁ wheel₁
    rw [List.foldl_cons]
    refine ⟨wheel₂,spread₁.trans spread₂,?_⟩
    intro timer member
    rcases List.mem_cons.mp member with rfl | later
    · exact spread₂.kept timer linked₁
    · exact linked₂ timer later

/-- What the timers have to do with their alarms. -/
structure Set (w : World τ) (armed : τ → Option Alarm) : Prop where
  pending : ∀ timer, (w.timers timer).pending = true ↔ (armed timer).isSome = true
  word : ∀ timer alarm, armed timer = some alarm → (w.timers timer).expires = BitVec.ofInt 32 alarm.expiry

/-- A level cascades at a tick with which one of its slots begins. -/
theorem cascade_spread (high : k < 4) (ticks : w.timer_jiffies = BitVec.ofNat 32 W) (set : Set w armed)
    (begins : block 256 64 (k+1) ∣ W) (wheel : InWheel w.vec armed (clock W k)) :
    InWheel (cascade w (k+1) (slotOf 256 64 W (k+1))).vec armed (clock W (k+1)) ∧
      Spread w (cascade w (k+1) (slotOf 256 64 W (k+1))) := by
  set index := slotOf 256 64 W (k+1) with index_eq
  have now : clock W k (k+1) = W := by
    unfold clock
    rw [if_neg (Nat.succ_ne_zero k),if_neg (by omega)]
  have slot : ∀ timer ∈ w.vec (k+1) index, Begins w armed W (k+1) timer := by
    intro timer member
    obtain ⟨_,alarm,here,holds,exact_due⟩ := wheel (k+1) index timer member
    rw [now] at holds
    have near := holds.begins (by decide) (by decide) begins index_eq
    exact ⟨(set.pending timer).mpr (by rw [here]; rfl),alarm,here,exact_due (Nat.succ_ne_zero k),
      set.word timer alarm here,near⟩
  have emptied : InWheel (w.set_vec (k+1) index []).vec armed (clock W (k+1)) := by
    intro n i timer member
    obtain ⟨other,member⟩ := World.mem_emptied.mp member
    obtain ⟨le,alarm,here,holds,exact_due⟩ := wheel n i timer member
    refine ⟨le,alarm,here,?_,exact_due⟩
    by_cases own : n = k + 1
    · subst own
      rw [now] at holds
      have done : clock W (k+1) (k+1) = W + 1 := by
        unfold clock
        rw [if_neg (Nat.succ_ne_zero k),if_pos le_rfl]
      rw [done]
      refine holds.next (by decide) (by decide) (fun _ same => ?_)
      exact other ⟨rfl,same⟩
    · have same : clock W (k+1) n = clock W k n := by
        unfold clock
        have bounds : n ≤ k + 1 ↔ n ≤ k := by omega
        simp only [bounds]
      rw [same]
      exact holds
  have all := spread_all (k := k+1) (by omega) (w.vec (k+1) index) (w := w.set_vec (k+1) index []) ticks slot emptied
  obtain ⟨wheel',spread,linked⟩ := all
  refine ⟨wheel',spread.timer_jiffies,spread.work_list,spread.timers,?_⟩
  rintro timer ⟨n,i,member⟩
  by_cases here : n = k + 1 ∧ i = index
  · obtain ⟨rfl,rfl⟩ := here
    exact linked timer member
  · apply spread.kept
    exact ⟨n,i,World.mem_emptied.mpr ⟨here,member⟩⟩

omit [DecidableEq τ] in
/-- Where no slot of a level begins with the tick, none begins above. -/
theorem wheel_rest (wheel : InWheel w.vec armed (clock W k)) (inside : ¬block 256 64 (k+1) ∣ W) :
    InWheel w.vec armed (clock W 4) := by
  intro n i timer member
  obtain ⟨le,alarm,here,holds,exact_due⟩ := wheel n i timer member
  refine ⟨le,alarm,here,?_,exact_due⟩
  unfold clock at *
  by_cases bottom : n = 0
  · rw [if_pos bottom] at *
    exact holds
  rw [if_neg bottom] at *
  rw [if_pos le]
  by_cases done : n ≤ k
  · rw [if_pos done] at holds
    exact holds
  · rw [if_neg done] at holds
    refine holds.next (by decide) (by decide) (fun begins => ?_)
    exact absurd ((Wheel.block_dvd (by omega)).trans begins) inside

omit [DecidableEq τ] in
theorem INDEX_eq (ticks : w.timer_jiffies = BitVec.ofNat 32 W) (high : k < 4) :
    w.INDEX k = slotOf 256 64 W (k+1) := by
  have mask (n : Nat) : n &&& TVN_MASK = n % 64 := Nat.and_two_pow_sub_one_eq_mod n 6
  unfold World.INDEX TVR_BITS TVN_BITS
  rw [ticks,BitVec.toNat_ofNat,mask,Nat.shiftRight_eq_div_pow,slotOf,size,block]
  obtain rfl | rfl | rfl | rfl : k = 0 ∨ k = 1 ∨ k = 2 ∨ k = 3 := by omega
  all_goals norm_num
  all_goals omega

/-- The levels from `k` on cascade. -/
theorem cascades_spread (count : Nat) : ∀ {k : Nat} {w : World τ}, k + count = 4 →
    w.timer_jiffies = BitVec.ofNat 32 W → Set w armed → block 256 64 (k+1) ∣ W → InWheel w.vec armed (clock W k) →
    InWheel (cascades (List.range' k count) w).vec armed (clock W 4) ∧ Spread w (cascades (List.range' k count) w) := by
  induction count with
  | zero =>
    intro k w last _ _ _ wheel
    obtain rfl : k = 4 := last
    exact ⟨wheel,rfl,rfl,rfl,fun _ linked => linked⟩
  | succ count ih =>
    intro k w last ticks set begins wheel
    obtain ⟨wheel',spread⟩ := cascade_spread (by omega) ticks set begins wheel
    have ticks' := spread.timer_jiffies.trans ticks
    have set' : Set (cascade w (k+1) (slotOf 256 64 W (k+1))) armed := by
      refine ⟨?_,?_⟩
      · rw [spread.timers]
        exact set.pending
      · rw [spread.timers]
        exact set.word
    rw [List.range'_succ,cascades]
    rw [INDEX_eq ticks (by omega)]
    by_cases more : slotOf 256 64 W (k+1) = 0
    · rw [if_pos more]
      have next := (Wheel.begins_succ begins).mp more
      obtain ⟨wheel'',spread'⟩ := ih (by omega) ticks' set' next wheel'
      exact ⟨wheel'',spread.trans spread'⟩
    · rw [if_neg more]
      exact ⟨wheel_rest wheel' (fun next => more ((Wheel.begins_succ begins).mpr next)),spread⟩

end Cascades

/-! ### Every run -/

section Runs
variable {τ : Type} [DecidableEq τ] {s : System τ} {base : Nat}

structure Inv (s : System τ) : Prop where
  ticks : s.world.timer_jiffies = BitVec.ofNat 32 s.now
  wheel : InWheel s.world.vec s.armed (fun _ => s.now)
  set : Set s.world s.armed
  placed : ∀ timer alarm, s.armed timer = some alarm →
    timer ∈ s.world.work_list ∨ ∃ n i, timer ∈ s.world.vec n i
  working : ∀ timer ∈ s.world.work_list, ∃ alarm, s.armed timer = some alarm ∧ alarm.due + 1 = s.now
  near : ∀ timer alarm, s.armed timer = some alarm →
    (alarm.due : Int) - 2 ^ 31 < alarm.expiry ∧ alarm.expiry ≤ alarm.due ∧ alarm.expiry < s.now + 2 ^ 31
  fired : ∀ timer armed tick, (timer,armed,tick) ∈ s.fired → ∃ alarm, armed = some alarm ∧ alarm.due = tick

omit [DecidableEq τ] in
/-- A timer in the wheel is not over. -/
theorem Inv.waiting (inv : Inv s) {timer : τ} {alarm : Alarm} (here : s.armed timer = some alarm) :
    s.now ≤ alarm.due ∨ timer ∈ s.world.work_list ∧ alarm.due + 1 = s.now := by
  rcases inv.placed timer alarm here with working | ⟨n,i,member⟩
  · obtain ⟨alarm',here',due⟩ := inv.working timer working
    obtain rfl : alarm = alarm' := Option.some.inj (here.symm.trans here')
    exact .inr ⟨working,due⟩
  · obtain ⟨_,alarm',here',holds,_⟩ := inv.wheel n i timer member
    obtain rfl : alarm = alarm' := Option.some.inj (here.symm.trans here')
    exact .inl (holds.le (by decide) (by decide))

omit [DecidableEq τ] in
theorem Inv.sound (inv : Inv s) : Sound s :=
  ⟨inv.set.pending,fun _ _ here => inv.waiting here,inv.working,inv.fired⟩

omit [DecidableEq τ] in
/-- A timer that is not armed is in no list. -/
theorem Inv.unlinked (inv : Inv s) {timer : τ} (none : s.armed timer = none) :
    (∀ n i, timer ∉ s.world.vec n i) ∧ timer ∉ s.world.work_list := by
  constructor
  · intro n i member
    obtain ⟨_,alarm,here,_⟩ := inv.wheel n i timer member
    rw [none] at here
    cases here
  · intro member
    obtain ⟨alarm,here,_⟩ := inv.working timer member
    rw [none] at here
    cases here

omit [DecidableEq τ] in
theorem Inv.armed_none_iff (inv : Inv s) (timer : τ) :
    s.armed timer = none ↔ (s.world.timers timer).pending = false := by
  rw [← Option.not_isSome_iff_eq_none,← inv.set.pending,Bool.not_eq_true]

omit [DecidableEq τ] in
theorem Inv.linked (inv : Inv s) (timer : τ) : Linked s.world timer :=
  fun off => inv.unlinked ((inv.armed_none_iff timer).mpr off)

/-- A timer is disarmed. -/
theorem Inv.drop (inv : Inv s) {w : World τ} {timer : τ} (detached : Detached s.world w timer)
    (off : (w.timers timer).pending = false) {fired : List (τ × Option Alarm × Nat)}
    (right : ∀ timer armed tick, (timer,armed,tick) ∈ fired → ∃ alarm, armed = some alarm ∧ alarm.due = tick) :
    Inv { s with world := w, armed := Function.update s.armed timer none, fired } := by
  have other : ∀ {x : τ} {alarm : Alarm}, Function.update s.armed timer none x = some alarm →
      x ≠ timer ∧ s.armed x = some alarm := by
    intro x alarm here
    by_cases same : x = timer
    · rw [same,Function.update_self] at here
      cases here
    · rw [Function.update_of_ne same] at here
      exact ⟨same,here⟩
  refine ⟨detached.timer_jiffies.trans inv.ticks,?_,⟨?_,?_⟩,?_,?_,?_,right⟩
  · intro n i x member
    obtain ⟨old,away⟩ := (detached.vec n i x).mp member
    dsimp only
    rw [Function.update_of_ne away]
    exact inv.wheel n i x old
  · intro x
    dsimp only
    by_cases same : x = timer
    · rw [same,Function.update_self,off]
      simp
    · rw [Function.update_of_ne same,detached.timers x same]
      exact inv.set.pending x
  · intro x alarm here
    obtain ⟨away,old⟩ := other here
    dsimp only
    rw [detached.timers x away]
    exact inv.set.word x alarm old
  · intro x alarm here
    obtain ⟨away,old⟩ := other here
    rcases inv.placed x alarm old with working | ⟨n,i,member⟩
    · exact .inl ((detached.work_list x).mpr ⟨working,away⟩)
    · exact .inr ⟨n,i,(detached.vec n i x).mpr ⟨member,away⟩⟩
  · intro x member
    obtain ⟨old,away⟩ := (detached.work_list x).mp member
    dsimp only
    rw [Function.update_of_ne away]
    exact inv.working x old
  · intro x alarm here
    exact inv.near x alarm (other here).2

/-- Where the code puts a timer with this time: into a slot that holds its due tick. -/
theorem put_slot {now : Nat} {expiry : Int} (near : (now : Int) - 2 ^ 31 < expiry ∧ expiry < now + 2 ^ 31) :
    ∃ n ≤ 4, internal_add_timer_vec (BitVec.ofNat 32 now) (BitVec.ofInt 32 expiry) =
        (n,slotOf 256 64 (max (now : Int) expiry).toNat n) ∧
      Holds 256 64 now (max (now : Int) expiry).toNat n (slotOf 256 64 (max (now : Int) expiry).toNat n) ∧
      (n ≠ 0 → ((max (now : Int) expiry).toNat : Int) = expiry) := by
  by_cases past : expiry < now
  · have due : (max (now : Int) expiry).toNat = now := by omega
    rw [due,vec_of_past past near.1.le]
    have level : Wheel.Level 256 64 now now 0 := ⟨le_rfl,.inl rfl,by rw [block,size]; omega⟩
    exact ⟨0,Nat.zero_le _,rfl,level.holds (by decide) (by decide),fun wrong => absurd rfl wrong⟩
  · have due : ((max (now : Int) expiry).toNat : Int) = expiry := by omega
    generalize (max (now : Int) expiry).toNat = D at *
    subst due
    rw [BitVec.ofInt_natCast]
    obtain ⟨n,le,vec,put⟩ := vec_of_near (W := now) (D := D) (by omega) (by omega)
    exact ⟨n,le,vec,put.holds (by decide) (by decide),fun _ => rfl⟩

/-- A timer is armed. -/
theorem Inv.put (inv : Inv s) {w : World τ} {timer : τ} {expiry : Int}
    (near : (s.now : Int) - 2 ^ 31 < expiry ∧ expiry < s.now + 2 ^ 31)
    (moved : Moved s.world w timer (BitVec.ofInt 32 expiry)) :
    Inv { s with world := w
                 armed := Function.update s.armed timer (some ⟨expiry,(max (s.now : Int) expiry).toNat⟩) } := by
  obtain ⟨level,le,slot,holds,exact_due⟩ := put_slot near
  have own : Function.update s.armed timer (some ⟨expiry,(max (s.now : Int) expiry).toNat⟩) timer =
      some ⟨expiry,(max (s.now : Int) expiry).toNat⟩ := Function.update_self ..
  have other : ∀ x, x ≠ timer →
      Function.update s.armed timer (some ⟨expiry,(max (s.now : Int) expiry).toNat⟩) x = s.armed x :=
    fun x away => Function.update_of_ne away ..
  refine ⟨moved.timer_jiffies.trans inv.ticks,?_,⟨?_,?_⟩,?_,?_,?_,inv.fired⟩
  · intro n i x member
    rcases (moved.vec n i x).mp member with ⟨old,away⟩ | ⟨rfl,new⟩
    · dsimp only
      rw [other x away]
      exact inv.wheel n i x old
    · rw [inv.ticks,slot,Prod.mk.injEq] at new
      obtain ⟨rfl,rfl⟩ := new
      exact ⟨le,_,own,holds,exact_due⟩
  · intro x
    dsimp only
    by_cases same : x = timer
    · rw [same,own,moved.own.1]
      simp
    · rw [other x same,moved.timers x same]
      exact inv.set.pending x
  · intro x alarm here
    dsimp only at here ⊢
    by_cases same : x = timer
    · rw [same,own] at here
      obtain rfl := Option.some.inj here
      rw [same]
      exact moved.own.2
    · rw [other x same] at here
      rw [moved.timers x same]
      exact inv.set.word x alarm here
  · intro x alarm here
    dsimp only at here ⊢
    by_cases same : x = timer
    · rw [same]
      exact .inr ⟨level,_,(moved.vec level _ timer).mpr (.inr ⟨rfl,by rw [inv.ticks]; exact slot.symm⟩)⟩
    · rw [other x same] at here
      rcases inv.placed x alarm here with working | ⟨n,i,member⟩
      · exact .inl ((moved.work_list x).mpr ⟨working,same⟩)
      · exact .inr ⟨n,i,(moved.vec n i x).mpr (.inl ⟨member,same⟩)⟩
  · intro x member
    obtain ⟨old,away⟩ := (moved.work_list x).mp member
    dsimp only
    rw [other x away]
    exact inv.working x old
  · intro x alarm here
    dsimp only at here ⊢
    by_cases same : x = timer
    · rw [same,own] at here
      obtain rfl := Option.some.inj here
      dsimp only
      omega
    · rw [other x same] at here
      exact inv.near x alarm here

theorem clock_zero (now : Nat) : clock now 0 = fun _ => now := by
  funext n
  unfold clock
  split
  · rfl
  · next above => rw [if_neg (by omega)]

/-- The levels above the root are done with the tick when its slot becomes the work list. -/
theorem Inv.turned (inv : Inv s) : ∃ w, InWheel w.vec s.armed (clock s.now 4) ∧ Spread s.world w ∧
    run_timers_turn s.world = { w.set_vec 0 (slotOf 256 64 s.now 0) [] with
      timer_jiffies := w.timer_jiffies + 1, work_list := w.vec 0 (slotOf 256 64 s.now 0) } := by
  have root : s.world.timer_jiffies.toNat &&& TVR_MASK = slotOf 256 64 s.now 0 := by
    have mask : s.world.timer_jiffies.toNat &&& TVR_MASK = s.world.timer_jiffies.toNat % 256 :=
      Nat.and_two_pow_sub_one_eq_mod _ 8
    rw [mask,inv.ticks,BitVec.toNat_ofNat,slotOf,block,size,Nat.div_one]
    omega
  have wheel : InWheel s.world.vec s.armed (clock s.now 0) := by
    rw [clock_zero]
    exact inv.wheel
  have begins : slotOf 256 64 s.now 0 = 0 ↔ block 256 64 1 ∣ s.now := Wheel.begins_succ (one_dvd _)
  have spread : InWheel (if slotOf 256 64 s.now 0 = 0 then cascades [0,1,2,3] s.world else s.world).vec s.armed
        (clock s.now 4) ∧
      Spread s.world (if slotOf 256 64 s.now 0 = 0 then cascades [0,1,2,3] s.world else s.world) := by
    split
    · next first => exact cascades_spread 4 rfl inv.ticks inv.set (begins.mp first) wheel
    · next inside =>
      exact ⟨wheel_rest wheel (fun next => inside (begins.mpr next)),rfl,rfl,rfl,fun _ linked => linked⟩
  refine ⟨_,spread.1,spread.2,?_⟩
  unfold run_timers_turn
  rw [root]

/-- The next tick begins when the one before it is done. -/
theorem Inv.turn (inv : Inv s) (done : s.world.work_list = []) :
    Inv { s with world := run_timers_turn s.world, now := s.now + 1 } := by
  obtain ⟨w,wheel,spread,turned⟩ := inv.turned
  rw [turned]
  refine ⟨?_,?_,⟨?_,?_⟩,?_,?_,?_,inv.fired⟩
  · dsimp only
    rw [spread.timer_jiffies,inv.ticks]
    exact (BitVec.ofNat_add ..).symm
  · intro n i timer member
    obtain ⟨other,member⟩ := World.mem_emptied.mp member
    obtain ⟨le,alarm,here,holds,exact_due⟩ := wheel n i timer member
    refine ⟨le,alarm,here,?_,exact_due⟩
    unfold clock at holds
    by_cases bottom : n = 0
    · rw [if_pos bottom] at holds
      refine holds.next (by decide) (by decide) (fun _ same => ?_)
      exact other ⟨bottom,by rw [same,bottom]⟩
    · rw [if_neg bottom,if_pos le] at holds
      exact holds
  · intro timer
    have same : (w.timers timer).pending = (s.world.timers timer).pending := by rw [spread.timers]
    exact (Bool.eq_iff_iff.mp same).trans (inv.set.pending timer)
  · intro timer alarm here
    have same : (w.timers timer).expires = (s.world.timers timer).expires := by rw [spread.timers]
    exact same.trans (inv.set.word timer alarm here)
  · intro timer alarm here
    have linked : ∃ n i, timer ∈ s.world.vec n i := by
      rcases inv.placed timer alarm here with working | linked
      · rw [done] at working
        cases working
      · exact linked
    obtain ⟨n,i,member⟩ := spread.kept timer linked
    by_cases slot : n = 0 ∧ i = slotOf 256 64 s.now 0
    · obtain ⟨rfl,rfl⟩ := slot
      exact .inl member
    · exact .inr ⟨n,i,World.mem_emptied.mpr ⟨slot,member⟩⟩
  · intro timer member
    obtain ⟨_,alarm,here,holds,_⟩ := wheel 0 _ timer member
    obtain ⟨later,near⟩ := holds.begins (by decide) (by decide) (one_dvd _) rfl
    refine ⟨alarm,here,?_⟩
    have now : clock s.now 4 0 = s.now := rfl
    rw [now] at later near
    rw [block] at near
    dsimp only
    omega
  · intro timer alarm here
    have near := inv.near timer alarm here
    dsimp only
    omega

omit [DecidableEq τ] in
/-- The time in the code is the one of the alarm. -/
theorem expiry_word (s : System τ) (timer : τ) (expires : BitVec 32) :
    BitVec.ofInt 32 (s.expiry timer expires) = s.world.slacked timer expires := by
  have ticks : BitVec.ofInt 32 (s.world.jiffies_64 : Int) = s.world.jiffies := BitVec.ofInt_natCast ..
  unfold System.expiry
  rw [BitVec.ofInt_add,BitVec.ofInt_add,ticks,BitVec.ofInt_toInt,BitVec.ofInt_natCast,BitVec.ofNat_toNat,
    BitVec.setWidth_eq,BitVec.add_comm s.world.jiffies,BitVec.sub_add_cancel,BitVec.add_comm expires,
    BitVec.sub_add_cancel]

omit [DecidableEq τ] in
/-- Two times that are near are the same when their words are. -/
theorem near_inj {now : Nat} {a b : Int} (near_a : (now : Int) - 2 ^ 31 ≤ a ∧ a < now + 2 ^ 31)
    (near_b : (now : Int) - 2 ^ 31 ≤ b ∧ b < now + 2 ^ 31) (same : BitVec.ofInt 32 a = BitVec.ofInt 32 b) : a = b := by
  have words := congrArg BitVec.toNat same
  rw [BitVec.toNat_ofInt,BitVec.toNat_ofInt] at words
  omega

omit [DecidableEq τ] in
/-- A timer that is armed is set to the time that the code compares with exactly when it is armed with it. -/
theorem Inv.same_iff (inv : Inv s) {timer : τ} {expires : BitVec 32} (near : s.Near timer expires) {alarm : Alarm}
    (here : s.armed timer = some alarm) :
    (s.world.timers timer).expires = s.world.slacked timer expires ↔ alarm.expiry = s.expiry timer expires := by
  rw [inv.set.word timer alarm here,← expiry_word]
  constructor
  · intro same
    have bounds := inv.near timer alarm here
    have later : s.now ≤ alarm.due + 1 := by
      rcases inv.waiting here with waits | ⟨_,due⟩
      · omega
      · omega
    refine near_inj ⟨?_,bounds.2.2⟩ ⟨near.1.le,near.2⟩ same
    omega
  · intro same
    rw [same]

/-- `hal_timer_mod` sets a timer, or finds it set. -/
theorem Inv.mod (inv : Inv s) {timer : τ} {expires : BitVec 32} (near : s.Near timer expires) :
    Inv { s with world := hal_timer_mod s.world timer expires, armed := s.arm timer expires } := by
  have set : ¬((s.armed timer).map Alarm.expiry = some (s.expiry timer expires)) →
      Inv { s with world := mod_timer s.world timer (s.world.slacked timer expires), armed := s.arm timer expires } := by
    intro unset
    rw [System.arm,if_neg unset]
    have moved := mod_timer_moved (inv.linked timer) (s.world.slacked timer expires)
    rw [← expiry_word] at moved ⊢
    exact inv.put near moved
  unfold hal_timer_mod
  dsimp only
  cases here : s.armed timer with
  | none =>
    have off := (inv.armed_none_iff timer).mp here
    rw [if_neg (fun wrong => by rw [off] at wrong; exact absurd wrong.1 (by decide))]
    exact set (by rw [here]; simp)
  | some alarm =>
    have pending : (s.world.timers timer).pending = true := (inv.set.pending timer).mpr (by rw [here]; rfl)
    by_cases same : (s.world.timers timer).expires = s.world.slacked timer expires
    · have armed := (inv.same_iff near here).mp same
      rw [if_pos ⟨pending,same⟩,System.arm,if_pos (by rw [here,Option.map_some,armed])]
      exact inv
    · rw [if_neg (fun both => same both.2)]
      refine set (fun wrong => same ((inv.same_iff near here).mpr ?_))
      rw [here,Option.map_some,Option.some.injEq] at wrong
      exact wrong

theorem step_inv (inv : Inv s) {op : Op τ} (careful : Careful s op) : Inv (step s op) := by
  cases op with
  | setup timer deferrable slack expires =>
    rw [step]
    split
    · exact inv
    · next off =>
      have none := (inv.armed_none_iff timer).mpr (Bool.eq_false_iff.mpr off)
      have others : ∀ x, x ≠ timer → Function.update s.world.timers timer ⟨expires,slack,deferrable,false⟩ x =
          s.world.timers x := fun x away => Function.update_of_ne away ..
      refine ⟨inv.ticks,inv.wheel,⟨?_,?_⟩,inv.placed,inv.working,inv.near,inv.fired⟩
      · intro x
        dsimp only
        by_cases same : x = timer
        · rw [same,Function.update_self,none]
          simp
        · rw [others x same]
          exact inv.set.pending x
      · intro x alarm here
        have away : x ≠ timer := by
          rintro rfl
          exact absurd (none.symm.trans here) (by simp)
        dsimp only
        rw [others x away]
        exact inv.set.word x alarm here
  | hal_timer_add timer =>
    rw [step,hal_timer_add]
    cases here : s.armed timer with
    | none =>
      have off := (inv.armed_none_iff timer).mp here
      rw [if_neg (by rw [off]; decide),if_neg (by decide)]
      exact inv.mod (careful here)
    | some alarm =>
      have pending : (s.world.timers timer).pending = true := (inv.set.pending timer).mpr (by rw [here]; rfl)
      rw [if_pos pending,if_pos Option.isSome_some]
      exact inv
  | hal_timer_mod timer expires => exact inv.mod careful
  | hal_timer_del timer =>
    exact inv.drop (detach_if_pending_detached (inv.linked timer) true) (hal_timer_del_pending _ _) inv.fired
  | tick =>
    rw [step]
    exact ⟨inv.ticks,inv.wheel,⟨inv.set.pending,inv.set.word⟩,inv.placed,inv.working,inv.near,inv.fired⟩
  | turn =>
    rw [step]
    split
    · next ready => exact inv.turn ready.1
    · exact inv
  | fire =>
    cases list : s.world.work_list with
    | nil =>
      have idle : step s .fire = s := by rw [step,list]
      rw [idle]
      exact inv
    | cons timer rest =>
      have fires : step s .fire =
          { s with world := detach_expired_timer s.world timer
                   armed := Function.update s.armed timer none
                   fired := s.fired ++ [(timer,s.armed timer,s.now - 1)] } := by rw [step,list]
      rw [fires]
      obtain ⟨detached,off⟩ := detach_expired_timer_detached s.world timer
      refine inv.drop detached off ?_
      intro x armed tick member
      rcases List.mem_append.mp member with old | new
      · exact inv.fired x armed tick old
      · rw [List.mem_singleton,Prod.mk.injEq,Prod.mk.injEq] at new
        obtain ⟨rfl,rfl,rfl⟩ := new
        obtain ⟨alarm,here,due⟩ := inv.working x (by rw [list]; exact List.mem_cons_self)
        exact ⟨alarm,here,by omega⟩

omit [DecidableEq τ] in
theorem start_inv (base : Nat) : Inv (start base : System τ) where
  ticks := rfl
  wheel := fun _ _ _ none => by cases none
  set := ⟨fun _ => by simp [start],fun _ _ none => by cases none⟩
  placed := fun _ _ none => by cases none
  working := fun _ none => by cases none
  near := fun _ _ none => by cases none
  fired := fun _ _ _ none => by cases none

theorem run_inv (run : NearRun base s) : Inv s := by
  induction run with
  | start => exact start_inv base
  | step _ op careful ih => exact step_inv ih careful

end Runs

/-- Timers go off when they are due, and no earlier, later or more often; and the slack puts a timer off by at most what
    is allowed. -/
theorem timers_go_off {τ : Type} [DecidableEq τ] :
    (∀ slack expires jiffies : BitVec 32,
      (apply_slack slack expires jiffies - expires).toNat ≤ allowed_slack slack expires jiffies) ∧
      ∀ base (s : System τ), NearRun base s → Sound s :=
  ⟨apply_slack_between,fun _ _ run => (run_inv run).sound⟩

/-- A timer that is set two ticks ahead, where the time wraps. -/
theorem timers_go_off_wrapping : ∃ s : System Bool, Sound s ∧ s.fired = [(false,some ⟨4294967297,4294967297⟩,4294967297)] ∧
    (apply_slack 5 300 7 - 300).toNat ≤ allowed_slack 5 300 7 := by
  have run := (NearRun.start : NearRun 4294967295 (start 4294967295 : System Bool))
    |>.step (.hal_timer_mod false 1) (by decide +kernel)
    |>.step .turn trivial
    |>.step .tick trivial
    |>.step .turn trivial
    |>.step .tick trivial
    |>.step .turn trivial
    |>.step .fire trivial
  exact ⟨_,timers_go_off.2 _ _ run,by decide +kernel,(@timers_go_off Bool _).1 5 300 7⟩

/-- A timer that is asked for `2^31 - 1` ticks ahead: the slack puts it where the code takes it for past, and it goes off at
    the next tick. -/
theorem far_timer :
    let s : System Unit := step (start 1000) (.setup () false (-1) 0)
    ((2147484647 : BitVec 32) - s.world.jiffies).toInt = 2 ^ 31 - 1 ∧
      (step s (.hal_timer_mod () 2147484647)).armed () = some ⟨2155872256,2155872256⟩ ∧
      (step (step (step s (.hal_timer_mod () 2147484647)) .turn) .fire).fired =
        [((),some ⟨2155872256,2155872256⟩,1000)] ∧
      ¬Sound (step (step (step s (.hal_timer_mod () 2147484647)) .turn) .fire) := by
  refine ⟨by decide +kernel,by decide +kernel,by decide +kernel,?_⟩
  intro sound
  obtain ⟨alarm,here,due⟩ := sound.fired () (some ⟨2155872256,2155872256⟩) 1000 (by decide +kernel)
  obtain rfl := Option.some.inj here
  exact absurd due (by decide)

end GridOS.TimerRuns
