import GridOS.Event
import GridOS.Mutex

/-!
The loop of `kt_sync_wakeup` round by round: which waiters it wakes, and what number it gives to `ke_mutex_unlock` and
`ke_event_set`. The break of the last round stands before the round is counted.
-/
namespace GridOS.Sync

section Rounds
variable {σ τ : Type}

/-- The rounds of the loop that are left, with `count` wakeups asked for and `i` of them counted; a `count` of 0 stays. -/
def wakeup_rounds (kt_wakeup : σ → τ → σ) : List τ → Nat → Nat → σ → Nat × σ
  | [], _, i, s => (i,s)
  | who :: rest, count, i, s =>
    let s := kt_wakeup s who
    if count ≠ 0 ∧ count - 1 = 0 then (i,s) else wakeup_rounds kt_wakeup rest (count - 1) (i + 1) s

/-- The waiters that are asked for: the first `count` of the queue, all of them if it is 0. -/
def asked (queue : List τ) (count : Nat) : List τ := if count = 0 then queue else queue.take count

theorem asked_cons (who : τ) (rest : List τ) {count : Nat} (further : ¬(count ≠ 0 ∧ count - 1 = 0)) :
    asked (who :: rest) count = who :: asked rest (count - 1) := by
  unfold asked
  by_cases all : count = 0
  · rw [if_pos all,if_pos (by omega)]
  · obtain ⟨n,rfl⟩ : ∃ n, count = n + 1 := ⟨count - 1,by omega⟩
    rw [if_neg all,List.take_succ_cons,Nat.add_sub_cancel,if_neg (by omega)]

/-- The loop wakes the waiters that are asked for. -/
theorem wakeup_rounds_woken (kt_wakeup : σ → τ → σ) (queue : List τ) (count i : Nat) (s : σ) :
    (wakeup_rounds kt_wakeup queue count i s).2 = (asked queue count).foldl kt_wakeup s := by
  induction queue generalizing count i s with
  | nil => simp [wakeup_rounds,asked]
  | cons who rest ih =>
    rw [wakeup_rounds]
    by_cases last : count ≠ 0 ∧ count - 1 = 0
    · have one : count = 1 := by omega
      rw [if_pos last,one]
      rfl
    · rw [if_neg last,ih,asked_cons who rest last]
      rfl

/-- It counts all of them but the one it breaks off behind. -/
theorem wakeup_rounds_counted (kt_wakeup : σ → τ → σ) (queue : List τ) (count i : Nat) (s : σ) :
    (wakeup_rounds kt_wakeup queue count i s).1 =
      i + if count = 0 ∨ queue.length < count then queue.length else count - 1 := by
  induction queue generalizing count i s with
  | nil =>
    rw [List.length_nil,if_pos (by omega)]
    rfl
  | cons who rest ih =>
    rw [wakeup_rounds,List.length_cons]
    by_cases last : count ≠ 0 ∧ count - 1 = 0
    · rw [if_pos last,if_neg (by omega),last.2,Nat.add_zero]
    · rw [if_neg last,ih]
      split <;> split <;> omega

end Rounds

section Result
variable {ι ω τ : Type} [DecidableEq ι] [DecidableEq τ]

/-- The code of `kt_sync_wakeup`. -/
def kt_sync_wakeup_loop (w : World ι ω τ) (sync : ι) (count : Nat) : Nat × World ι ω τ :=
  wakeup_rounds kt_wakeup (w.wait_queue sync) count 0 w

omit [DecidableEq ι] in
theorem kt_sync_wakeup_rounds (w : World ι ω τ) (sync : ι) (count : Nat) :
    kt_sync_wakeup_loop w sync count = kt_sync_wakeup w sync count := by
  refine Prod.ext ?_ (wakeup_rounds_woken ..)
  rw [kt_sync_wakeup_loop,wakeup_rounds_counted,Nat.zero_add]
  unfold kt_sync_wakeup
  dsimp only
  by_cases all : count = 0
  · rw [if_pos (.inl all),if_pos all,if_pos (.inl all)]
  · rw [if_neg all,List.length_take]
    split <;> split <;> omega

/-- The waiters that are asked for are woken, their number is returned, and it tells whether there were any. -/
structure WakesAsked (w : World ι ω τ) (sync : ι) (count : Nat) : Prop where
  woken : (kt_sync_wakeup_loop w sync count).2 = (asked (w.wait_queue sync) count).foldl kt_wakeup w
  number : (kt_sync_wakeup_loop w sync count).1 = (asked (w.wait_queue sync) count).length
  told : (kt_sync_wakeup_loop w sync count).1 ≠ 0 ↔ asked (w.wait_queue sync) count ≠ []

omit [DecidableEq ι] in
theorem wakes_asked_iff (w : World ι ω τ) (sync : ι) (count : Nat) :
    WakesAsked w sync count ↔ count = 0 ∨ (w.wait_queue sync).length < count := by
  have counted := wakeup_rounds_counted kt_wakeup (w.wait_queue sync) count 0 w
  rw [← kt_sync_wakeup_loop,Nat.zero_add] at counted
  have asked_length : (asked (w.wait_queue sync) count).length =
      if count = 0 then (w.wait_queue sync).length else min count (w.wait_queue sync).length := by
    unfold asked
    split
    · rfl
    · exact List.length_take
  constructor
  · intro wakes
    have number := wakes.number
    rw [counted,asked_length] at number
    by_contra short
    rw [if_neg short,if_neg (fun all => short (.inl all))] at number
    omega
  · intro condition
    have number : (kt_sync_wakeup_loop w sync count).1 = (asked (w.wait_queue sync) count).length := by
      rw [counted,asked_length,if_pos condition]
      split <;> omega
    refine ⟨wakeup_rounds_woken ..,number,?_⟩
    rw [number,ne_eq,List.length_eq_zero_iff]

end Result

end GridOS.Sync

namespace GridOS.Mutex
open GridOS.Words GridOS.Sync
variable {τ : Type} [DecidableEq τ]

/-- What `do_release` returns, the `wokenup` of `ke_mutex_unlock`. -/
def wokenup (w : World τ) : Nat := (kt_sync_wakeup_loop (set_mutex w { w.objects () with owner := none }) () 0).1

end GridOS.Mutex

namespace GridOS.Event
open GridOS.Sync
variable {ι τ : Type} [DecidableEq ι] [DecidableEq τ]

/-- What `set_event` returns. -/
theorem set_event_count (w : World ι τ) (i : ι) : (set_event w i).1 =
    (kt_sync_wakeup_loop (set_status w i .KE_SYNC_SIGNALED_OK) i (if (w.objects i).manual_reset then 0 else 1)).1 := by
  rw [kt_sync_wakeup_rounds]
  rfl

end GridOS.Event

namespace GridOS.Sync
variable {ι ω τ : Type} [DecidableEq ι] [DecidableEq τ]

/-- The number is right if and only if all waiters are asked for or fewer wait than are asked for. So the mutex sees
    whether there was anyone to wake, and an event that resets itself does only when there was nobody. -/
theorem wake_count_iff :
    (∀ (w : World ι ω τ) (sync : ι) (count : Nat),
      WakesAsked w sync count ↔ count = 0 ∨ (w.wait_queue sync).length < count) ∧
    (∀ w : Mutex.World τ, Mutex.wokenup w ≠ 0 ↔ w.wait_queue () ≠ []) ∧
    (∀ (w : Event.World ι τ) (i : ι), ((Event.set_event w i).1 ≠ 0 ↔ w.wait_queue i ≠ []) ↔
      (w.objects i).manual_reset = true ∨ w.wait_queue i = []) := by
  refine ⟨wakes_asked_iff,fun w => ?_,fun w i => ?_⟩
  · exact ((wakes_asked_iff _ () 0).mpr (.inl rfl)).told
  · rw [Event.set_event_count]
    cases manual : (w.objects i).manual_reset with
    | true => exact iff_of_true ((wakes_asked_iff _ i 0).mpr (.inl rfl)).told (.inl rfl)
    | false =>
      have counted := wakeup_rounds_counted kt_wakeup (w.wait_queue i) 1 0 (Event.set_status w i .KE_SYNC_SIGNALED_OK)
      rw [if_neg Bool.false_ne_true,or_iff_right Bool.false_ne_true]
      change ((wakeup_rounds kt_wakeup (w.wait_queue i) 1 0 _).1 ≠ 0 ↔ _) ↔ _
      rw [counted]
      by_cases empty : w.wait_queue i = []
      · simp [empty]
      · simp [empty]

/-- One waiter and one wakeup asked for: the waiter is woken, and 0 is returned. -/
theorem last_woken_uncounted : ¬WakesAsked
    (⟨fun _ => (),fun _ => [()],fun _ => ⟨true,0⟩,fun _ => .outside⟩ : World Unit Unit Unit) () 1 := by
  intro wakes
  have number : (0 : Nat) = 1 := wakes.number
  cases number

end GridOS.Sync
