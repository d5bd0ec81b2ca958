import Mathlib.Data.List.Infix

/-!
A lock that is a queue: who arrives joins at the end, the first one may enter, and leaves the
queue with the lock. Runs are told by their events, and a lock of a program is first come first
served when its events are those of a run of this one.
-/
namespace GridOS.FifoLock

variable {τ : Type}

inductive Event (τ : Type)
  | arrive (t : τ)
  | enter (t : τ)
  | leave (t : τ)

/-- The threads at the lock in their order, and whether the first one is inside. -/
structure Queue (τ : Type) where
  threads : List τ
  held : Bool

inductive Step : Queue τ → Event τ → Queue τ → Prop
  | arrive {threads : List τ} {held : Bool} {t : τ} (absent : t ∉ threads) :
      Step ⟨threads,held⟩ (.arrive t) ⟨threads ++ [t],held⟩
  | enter {t : τ} {rest : List τ} : Step ⟨t :: rest,false⟩ (.enter t) ⟨t :: rest,true⟩
  | leave {t : τ} {rest : List τ} : Step ⟨t :: rest,true⟩ (.leave t) ⟨rest,false⟩

/-- A run from the free lock. -/
inductive Run : List (Event τ) → Queue τ → Prop
  | free : Run [] ⟨[],false⟩
  | step {events : List (Event τ)} {e : Event τ} {queue next : Queue τ} (before : Run events queue)
      (step : Step queue e next) : Run (events ++ [e]) next

def arrivals (events : List (Event τ)) : List τ := events.filterMap fun
  | .arrive t => some t
  | _ => none

def entries (events : List (Event τ)) : List τ := events.filterMap fun
  | .enter t => some t
  | _ => none

def leaves (events : List (Event τ)) : List τ := events.filterMap fun
  | .leave t => some t
  | _ => none

variable {events : List (Event τ)} {queue : Queue τ}

/-- Who arrived has left or is still in the queue, in this order. -/
theorem Run.arrivals (run : Run events queue) : arrivals events = leaves events ++ queue.threads := by
  induction run with
  | free => rfl
  | step before step ih =>
    unfold FifoLock.arrivals leaves at *
    rw [List.filterMap_append,List.filterMap_append,ih]
    cases step with
    | arrive absent => simp
    | enter => simp
    | leave => simp

/-- Somebody is inside only while the queue is not empty. -/
theorem Run.threads_ne_nil (run : Run events queue) (held : queue.held = true) : queue.threads ≠ [] := by
  cases run with
  | free => cases held
  | step before step =>
    cases step with
    | arrive absent => simp
    | enter => simp
    | leave => cases held

/-- Nobody is in the queue twice. -/
theorem Run.nodup (run : Run events queue) : queue.threads.Nodup := by
  induction run with
  | free => exact List.nodup_nil
  | step before step ih =>
    cases step with
    | arrive absent => simpa [List.nodup_append] using ⟨ih,fun a mem same => absent (same ▸ mem)⟩
    | enter => exact ih
    | leave => exact ih.of_cons

/-- Who entered has left, but for the first of the queue while it is inside. -/
theorem Run.entries (run : Run events queue) :
    entries events = leaves events ++ queue.threads.take queue.held.toNat := by
  induction run with
  | free => rfl
  | step before step ih =>
    unfold FifoLock.entries leaves at *
    rw [List.filterMap_append,List.filterMap_append,ih]
    cases step with
    | @arrive threads held t absent =>
      cases held with
      | false => simp
      | true =>
        have some : 1 ≤ threads.length := List.length_pos_of_ne_nil (before.threads_ne_nil rfl)
        simp [List.take_append_of_le_length some]
    | enter => simp
    | leave => simp

/-- First come, first served: the entries are the first arrivals, in the order of arrival. -/
theorem Run.in_order (run : Run events queue) : FifoLock.entries events <+: FifoLock.arrivals events := by
  rw [run.arrivals,run.entries]
  exact (List.prefix_append_right_inj _).mpr (List.take_prefix _ _)

end GridOS.FifoLock
