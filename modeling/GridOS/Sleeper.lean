import GridOS.Words

/-!
One thread as its wakers see it: whether it is off the run queue, and how many wakeups
came while it ran. `kt_sleep` and `kt_wakeup` act on it as they act on the thread when
no forced sleep is involved; `GridOS.Wakeup` relates the two.
-/
namespace GridOS
open GridOS.Words

structure Sleeper where
  asleep : Bool
  wakeup_count : Nat
  deriving DecidableEq

namespace Sleeper

/-- Whether the thread is suspended. -/
def kt_sleep (t : Sleeper) : Bool × Sleeper :=
  if t.asleep then (true,t) else
  if t.wakeup_count ≠ 0 then (false,{ t with wakeup_count := 0 })
  else (true,{ t with asleep := true })

def kt_wakeup (t : Sleeper) : Sleeper :=
  if t.asleep then { t with asleep := false } else { t with wakeup_count := add t.wakeup_count 1 }

/-- A running thread's pending wakeups do not fill their counter. -/
def Roomy (t : Sleeper) : Prop := t.asleep = true ∨ t.wakeup_count + 1 < modulus

section Rules
variable {t : Sleeper}

@[simp] theorem wakeup_awake (t : Sleeper) : (kt_wakeup t).asleep = false := by
  cases asleep : t.asleep <;> simp [kt_wakeup,asleep]

/-- A wakeup that finds the thread running is pending. -/
theorem wakeup_pending (roomy : Roomy t) (running : t.asleep = false) :
    (kt_wakeup t).wakeup_count = t.wakeup_count + 1 := by
  have room : t.wakeup_count + 1 < modulus := roomy.resolve_left (by simp [running])
  simp [kt_wakeup,running,add_exact room]

theorem wakeup_count_asleep (asleep : t.asleep = true) : (kt_wakeup t).wakeup_count = t.wakeup_count := by
  simp [kt_wakeup,asleep]

theorem sleep_pending (running : t.asleep = false) (pending : t.wakeup_count ≠ 0) :
    kt_sleep t = (false,⟨false,0⟩) := by
  obtain ⟨asleep,wakeup_count⟩ := t
  obtain rfl : asleep = false := running
  simp [kt_sleep,show wakeup_count ≠ 0 from pending]

theorem sleep_plain (running : t.asleep = false) (plain : t.wakeup_count = 0) : kt_sleep t = (true,⟨true,0⟩) := by
  obtain ⟨asleep,wakeup_count⟩ := t
  obtain rfl : asleep = false := running
  obtain rfl : wakeup_count = 0 := plain
  rfl

theorem sleep_again (asleep : t.asleep = true) : kt_sleep t = (true,t) := by
  simp [kt_sleep,asleep]

end Rules

end Sleeper

end GridOS
