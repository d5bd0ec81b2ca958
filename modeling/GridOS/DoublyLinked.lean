import Mathlib.Tactic

/-!
Null-terminated doubly linked lists threaded through two link functions. `Linked`
reads a segment off the links; appending splits it, and the three edits a program
makes (a push at the front, an insertion after a node, a removal) are stated by
what the new links must be at the nodes next to the edit and that they agree with
the old ones everywhere else on the list.
-/
namespace GridOS.DoublyLinked
variable {α : Type*}

/-- The nodes of `l` are linked both ways, behind `before` and in front of `after`. -/
def Linked (next pre : α → α) : α → List α → α → Prop
  | _, [], _ => True
  | before, a :: l, after => pre a = before ∧ next a = l.headD after ∧ Linked next pre a l after

@[simp] theorem linked_nil (next pre : α → α) (before after : α) : Linked next pre before [] after := trivial

theorem linked_cons (next pre : α → α) (before after a : α) (l : List α) :
    Linked next pre before (a :: l) after ↔
      pre a = before ∧ next a = l.headD after ∧ Linked next pre a l after := Iff.rfl

/-- A segment depends on the links of its own nodes only. -/
theorem linked_congr {next pre next' pre' : α → α} {before after : α} {l : List α}
    (linked : Linked next pre before l after) (sameNext : ∀ a ∈ l, next' a = next a)
    (samePre : ∀ a ∈ l, pre' a = pre a) : Linked next' pre' before l after := by
  induction l generalizing before with
  | nil => trivial
  | cons a l ih =>
    obtain ⟨back,forth,rest⟩ := linked
    refine ⟨(samePre a (by simp)).trans back,(sameNext a (by simp)).trans forth,?_⟩
    exact ih rest (fun x member => sameNext x (by simp [member])) (fun x member => samePre x (by simp [member]))

/-- A segment splits at any point into two that meet there. -/
theorem linked_append (next pre : α → α) (before after : α) (l r : List α) :
    Linked next pre before (l ++ r) after ↔
      Linked next pre before l (r.headD after) ∧ Linked next pre (l.getLastD before) r after := by
  induction l generalizing before with
  | nil => simp
  | cons a l ih =>
    simp only [List.cons_append,linked_cons,ih,List.getLastD_cons]
    cases l with
    | nil => simp [and_assoc]
    | cons b l => simp [and_assoc]

/-- Redirecting the last node of a segment and changing nothing else of it. -/
theorem linked_redirect {next pre next' pre' : α → α} {before after after' : α} {l : List α}
    (linked : Linked next pre before l after) (distinct : l.Nodup)
    (last : ∀ a ∈ l.getLast?, next' a = after')
    (sameNext : ∀ a ∈ l, a ∉ l.getLast? → next' a = next a) (samePre : ∀ a ∈ l, pre' a = pre a) :
    Linked next' pre' before l after' := by
  induction l generalizing before with
  | nil => trivial
  | cons a l ih =>
    obtain ⟨back,forth,rest⟩ := linked
    have notIn : a ∉ l := (List.nodup_cons.mp distinct).1
    cases l with
    | nil => exact ⟨(samePre a (by simp)).trans back,last a (by simp),trivial⟩
    | cons b l =>
      have lastTail : (a :: b :: l).getLast? = (b :: l).getLast? := by simp [List.getLast?_cons_cons]
      have early : a ∉ (a :: b :: l).getLast? := by
        rw [lastTail]
        exact fun member => notIn (List.mem_of_getLast? member)
      refine ⟨(samePre a (by simp)).trans back,(sameNext a (by simp) early).trans forth,?_⟩
      apply ih rest (List.nodup_cons.mp distinct).2
      · intro x member; exact last x (by rw [lastTail]; exact member)
      · intro x member notLast
        exact sameNext x (List.mem_cons_of_mem _ member) (by rw [lastTail]; exact notLast)
      · intro x member; exact samePre x (List.mem_cons_of_mem _ member)

/-- Redirecting the first node of a segment backwards and changing nothing else of it. -/
theorem linked_rebase {next pre next' pre' : α → α} {before before' after : α} {l : List α}
    (linked : Linked next pre before l after) (distinct : l.Nodup)
    (first : ∀ a ∈ l.head?, pre' a = before')
    (samePre : ∀ a ∈ l, a ∉ l.head? → pre' a = pre a) (sameNext : ∀ a ∈ l, next' a = next a) :
    Linked next' pre' before' l after := by
  cases l with
  | nil => trivial
  | cons a l =>
    obtain ⟨back,forth,rest⟩ := linked
    have notIn : a ∉ l := (List.nodup_cons.mp distinct).1
    refine ⟨first a (by simp),(sameNext a (by simp)).trans forth,?_⟩
    apply linked_congr rest
    · intro x member; exact sameNext x (List.mem_cons_of_mem _ member)
    · intro x member
      refine samePre x (List.mem_cons_of_mem _ member) ?_
      rintro ⟨⟩
      exact notIn member

/-- Removing a node: its neighbours are linked to each other. -/
theorem linked_remove {next pre next' pre' : α → α} {before after a : α} {l r : List α}
    (linked : Linked next pre before (l ++ a :: r) after) (distinct : (l ++ a :: r).Nodup)
    (bridge : ∀ b ∈ l.getLast?, next' b = next a) (back : ∀ b ∈ r.head?, pre' b = pre a)
    (sameNext : ∀ b ∈ l ++ r, b ∉ l.getLast? → next' b = next b)
    (samePre : ∀ b ∈ l ++ r, b ∉ r.head? → pre' b = pre b) :
    Linked next' pre' before (l ++ r) after := by
  obtain ⟨left,⟨backA,forthA,right⟩⟩ := (linked_append ..).mp linked
  have parts := List.nodup_append.mp distinct
  have apart : ∀ x ∈ l, x ∉ r := fun x inl inr =>
    parts.2.2 x inl x (List.mem_cons_of_mem _ inr) rfl
  refine (linked_append ..).mpr ⟨?_,?_⟩
  · apply linked_redirect left parts.1
    · intro b member; exact (bridge b member).trans forthA
    · intro b member notLast; exact sameNext b (by simp [member]) notLast
    · intro b member
      exact samePre b (by simp [member]) (fun first => apart b member (List.mem_of_head? first))
  · apply linked_rebase right (List.nodup_cons.mp parts.2.1).2
    · intro b member; exact (back b member).trans backA
    · intro b member notFirst; exact samePre b (by simp [member]) notFirst
    · intro b member
      exact sameNext b (by simp [member]) (fun last => apart b (List.mem_of_getLast? last) member)

/-- Inserting a new node `b` behind `a`. -/
theorem linked_insert {next pre next' pre' : α → α} {before after a b : α} {l r : List α}
    (linked : Linked next pre before (l ++ a :: r) after) (distinct : (l ++ a :: r).Nodup)
    (forth : next' a = b) (onward : next' b = next a) (backB : pre' b = a)
    (backR : ∀ x ∈ r.head?, pre' x = b)
    (sameNext : ∀ x ∈ l ++ r, next' x = next x)
    (samePre : ∀ x ∈ l ++ a :: r, x ∉ r.head? → pre' x = pre x) :
    Linked next' pre' before (l ++ a :: b :: r) after := by
  obtain ⟨left,⟨backA,forthA,right⟩⟩ := (linked_append ..).mp linked
  have parts := List.nodup_append.mp distinct
  have apart : ∀ x ∈ l, x ∉ r := fun x inl inr =>
    parts.2.2 x inl x (List.mem_cons_of_mem _ inr) rfl
  have notIn : a ∉ r := (List.nodup_cons.mp parts.2.1).1
  refine (linked_append ..).mpr ⟨?_,?_,forth,backB,onward.trans forthA,?_⟩
  · apply linked_congr left
    · intro x member; exact sameNext x (by simp [member])
    · intro x member
      exact samePre x (by simp [member]) (fun first => apart x member (List.mem_of_head? first))
  · exact (samePre a (by simp) (fun first => notIn (List.mem_of_head? first))).trans backA
  · apply linked_rebase right (List.nodup_cons.mp parts.2.1).2
    · exact backR
    · intro x member notFirst; exact samePre x (by simp [member]) notFirst
    · intro x member; exact sameNext x (by simp [member])

/-- Pushing a new node in front of a whole list. -/
theorem linked_push {next pre next' pre' : α → α} {before after b : α} {l : List α}
    (linked : Linked next pre before l after) (distinct : l.Nodup)
    (backB : pre' b = before) (forth : next' b = l.headD after) (backL : ∀ x ∈ l.head?, pre' x = b)
    (sameNext : ∀ x ∈ l, next' x = next x) (samePre : ∀ x ∈ l, x ∉ l.head? → pre' x = pre x) :
    Linked next' pre' before (b :: l) after :=
  ⟨backB,forth,linked_rebase linked distinct backL samePre sameNext⟩

/-- The links at a node inside a list. -/
theorem linked_at {next pre : α → α} {before after a : α} {l r : List α}
    (linked : Linked next pre before (l ++ a :: r) after) :
    pre a = l.getLastD before ∧ next a = r.headD after := by
  obtain ⟨_,back,forth,_⟩ := (linked_append ..).mp linked
  exact ⟨back,forth⟩

end GridOS.DoublyLinked
