import Mathlib.Logic.Relation

/-!
Loops whose rounds end with a result or go on from a next head. What a loop returns is the result of a head that it
reaches, and a predicate that some round always hands on keeps a loop from returning.
-/
namespace GridOS.Rounds
open Relation

variable {α β : Type}

/-- No result means that none of so many rounds was the last one. -/
def loop (round : α → β ⊕ α) : Nat → α → Option β
  | 0, _ => none
  | rounds+1, head =>
    match round head with
    | .inl result => some result
    | .inr next => loop round rounds next

/-- A round leads from one head to the other. -/
def Goes (round : α → β ⊕ α) (head next : α) : Prop := round head = .inr next

/-- The heads of a loop. -/
def Reached (round : α → β ⊕ α) : α → α → Prop := ReflTransGen (Goes round)

/-- The loop ends, and with this result. -/
def Returns (round : α → β ⊕ α) (head : α) (result : β) : Prop := ∃ rounds, loop round rounds head = some result

variable {round : α → β ⊕ α} {head next last : α} {result : β}

theorem returns_last (ends : round head = .inl result) : Returns round head result :=
  ⟨1,by rw [loop,ends]⟩

theorem returns_next (goes : Goes round head next) : Returns round head result ↔ Returns round next result := by
  constructor
  · rintro ⟨rounds,done⟩
    cases rounds with
    | zero => cases done
    | succ rounds =>
      rw [loop,goes] at done
      exact ⟨rounds,done⟩
  · rintro ⟨rounds,done⟩
    exact ⟨rounds+1,by rw [loop,goes]; exact done⟩

theorem returns_reached (reached : Reached round head next) : Returns round head result ↔ Returns round next result := by
  induction reached with
  | refl => exact Iff.rfl
  | tail _ goes ih => exact ih.trans (returns_next goes)

/-- The result comes from a head that the loop reaches. -/
theorem returns_iff : Returns round head result ↔ ∃ last, Reached round head last ∧ round last = .inl result := by
  constructor
  · rintro ⟨rounds,done⟩
    induction rounds generalizing head with
    | zero => cases done
    | succ rounds ih =>
      rw [loop] at done
      cases here : round head with
      | inl now =>
        rw [here] at done
        obtain rfl := Option.some.inj done
        exact ⟨head,.refl,here⟩
      | inr next =>
        rw [here] at done
        obtain ⟨last,reached,ends⟩ := ih done
        exact ⟨last,.head here reached,ends⟩
  · rintro ⟨last,reached,ends⟩
    exact (returns_reached reached).mpr (returns_last ends)

/-- What every round hands on holds of every head. -/
theorem Reached.induct {P : α → Prop} (reached : Reached round head last) (start : P head)
    (keeps : ∀ before next, Reached round head before → P before → Goes round before next → P next) : P last := by
  induction reached with
  | refl => exact start
  | tail before goes ih => exact keeps _ _ before ih goes

/-- A loop that ends with its first head reaches no other one. -/
theorem Reached.ended (reached : Reached round head last) (ends : round head = .inl result) : last = head := by
  rcases reached.cases_head with same | ⟨next,goes,_⟩
  · exact same.symm
  · rw [Goes,ends] at goes
    cases goes

/-- A loop does not end while each head leads to one like it. -/
theorem endless {P : α → Prop} (start : P head) (goes_on : ∀ head, P head → ∃ next, Goes round head next ∧ P next) :
    ¬Returns round head result := by
  rintro ⟨rounds,done⟩
  induction rounds generalizing head with
  | zero => cases done
  | succ rounds ih =>
    obtain ⟨next,goes,again⟩ := goes_on head start
    rw [loop,goes] at done
    exact ih again done

end GridOS.Rounds
