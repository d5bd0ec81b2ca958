import Mathlib.Data.List.Chain
import Mathlib.Data.List.Nodup
import Mathlib.Data.List.Rotate

/-!
Doubly linked circles threaded through two link functions. A circle may be read off
from any of its nodes (`Circled.rotate`), so that an edit is stated at its front: a node is
inserted behind the first one, or the second one is removed. The same edits of a list of
nodes are `replace`, which commutes with rotations.
-/
namespace GridOS.Circle
variable {α : Type*}

/-- The nodes of `l` are linked both ways, and the last one with the first one. -/
def Circled (next prev : α → α) (l : List α) : Prop :=
  List.IsChain (fun a b => next a = b ∧ prev b = a) (l ++ l.take 1)

section Links
variable {next prev next' prev' : α → α} {a b z : α} {l r s : List α}

/-! ### Reading a circle -/

theorem Circled.rotate (circle : Circled next prev (r ++ s)) : Circled next prev (s ++ r) := by
  cases r with
  | nil => simpa using circle
  | cons a r =>
    cases s with
    | nil => simpa using circle
    | cons b s =>
      have closed : List.IsChain (fun a b => next a = b ∧ prev b = a) ((a :: r) ++ b :: (s ++ [a])) := by
        simpa [Circled] using circle
      obtain ⟨left,right⟩ := List.isChain_split.mp closed
      have glued : List.IsChain (fun a b => next a = b ∧ prev b = a) ((b :: s) ++ a :: (r ++ [b])) :=
        List.isChain_split.mpr ⟨right,left⟩
      simpa [Circled] using glued

theorem Circled.isRotated (circle : Circled next prev l) (rotated : l.IsRotated r) : Circled next prev r := by
  obtain ⟨n,rfl⟩ := rotated
  rw [List.rotate_eq_drop_append_take_mod]
  refine Circled.rotate ?_
  rw [List.take_append_drop]
  exact circle

/-- The way from the first node of `r` through `r` to the first node of all. -/
theorem Circled.way (circle : Circled next prev (s ++ r)) (walked : r ≠ []) :
    List.IsChain (fun a b => next a = b) (r ++ (s ++ r).take 1) := by
  have forth : List.IsChain (fun a b => next a = b) (r ++ s ++ (r ++ s).take 1) := circle.rotate.imp (fun _ _ link => link.1)
  cases s with
  | nil => simpa using forth
  | cons a s =>
    cases r with
    | nil => exact absurd rfl walked
    | cons b r =>
      have split : List.IsChain (fun a b => next a = b) ((b :: r) ++ a :: (s ++ [b])) := by simpa using forth
      simpa using (List.isChain_split.mp split).1

theorem Circled.next_first (circle : Circled next prev (a :: l)) : next a = l.headD a := by
  cases l with
  | nil => exact (List.isChain_cons_cons.mp circle).1.1
  | cons b l => exact (List.isChain_cons_cons.mp circle).1.1

theorem Circled.prev_second (circle : Circled next prev (a :: l)) : prev (l.headD a) = a := by
  cases l with
  | nil => exact (List.isChain_cons_cons.mp circle).1.2
  | cons b l => exact (List.isChain_cons_cons.mp circle).1.2

/-- A node of a circle may be its first one. -/
theorem front (member : a ∈ l) : ∃ r, l.IsRotated (a :: r) := by
  obtain ⟨before,behind,rfl⟩ := List.append_of_mem member
  exact ⟨behind ++ before,List.isRotated_append⟩

theorem Circled.next_mem (circle : Circled next prev l) (member : a ∈ l) : next a ∈ l := by
  obtain ⟨r,rotated⟩ := front member
  rw [rotated.mem_iff,(circle.isRotated rotated).next_first]
  cases r with
  | nil => exact List.mem_singleton_self a
  | cons b r => exact List.mem_cons_of_mem a List.mem_cons_self

theorem Circled.prev_next (circle : Circled next prev l) (member : a ∈ l) : prev (next a) = a := by
  obtain ⟨r,rotated⟩ := front member
  rw [(circle.isRotated rotated).next_first,(circle.isRotated rotated).prev_second]

/-- The node before another one. -/
theorem Circled.exists_next (circle : Circled next prev l) (member : a ∈ l) : ∃ b ∈ l, next b = a := by
  obtain ⟨before,behind,rfl⟩ := List.append_of_mem member
  have rotated : Circled next prev (a :: (behind ++ before)) := circle.rotate
  rcases List.eq_nil_or_concat' (behind ++ before) with alone | ⟨others,b,last⟩
  · rw [alone] at rotated
    exact ⟨a,member,rotated.next_first⟩
  · rw [last] at rotated
    have turned : Circled next prev (b :: a :: others) := Circled.rotate (r := a :: others) (s := [b]) rotated
    refine ⟨b,?_,turned.next_first⟩
    have present : b ∈ behind ++ before := by simp [last]
    rcases List.mem_append.mp present with found | found
    · simp [found]
    · simp [found]

theorem Circled.next_prev (circle : Circled next prev l) (member : a ∈ l) : next (prev a) = a ∧ prev a ∈ l := by
  obtain ⟨b,found,link⟩ := circle.exists_next member
  rw [← link,circle.prev_next found]
  exact ⟨rfl,found⟩

/-- The nodes from `a` on, up to the one that `z` follows. -/
inductive Upto (next : α → α) (a z : α) : α → Prop
  | first : Upto next a z a
  | next {x : α} (walked : Upto next a z x) (other : next x ≠ z) : Upto next a z (next x)

theorem Upto.of_way (way : List.IsChain (fun a b => next a = b) (b :: (l ++ [z]))) (absent : z ∉ l)
    (walked : Upto next a z b) : ∀ x ∈ b :: l, Upto next a z x := by
  induction l generalizing b with
  | nil =>
    intro x member
    rw [List.mem_singleton.mp member]
    exact walked
  | cons c l ih =>
    obtain ⟨link,rest⟩ := List.isChain_cons_cons.mp way
    obtain ⟨other,absent⟩ := not_or.mp (mt List.mem_cons.mpr absent)
    intro x member
    rcases List.mem_cons.mp member with rfl | behind
    · exact walked
    · exact ih rest absent (link ▸ walked.next (by rw [link]; exact Ne.symm other)) x behind

/-- The node behind one of the way is on the way, or its end. -/
theorem next_on_way (way : List.IsChain (fun a b => next a = b) (a :: (l ++ [z]))) :
    ∀ x ∈ a :: l, next x ∈ l ∨ next x = z := by
  induction l generalizing a with
  | nil =>
    intro x member
    rw [List.mem_singleton.mp member]
    exact .inr (List.isChain_cons_cons.mp way).1
  | cons b l ih =>
    obtain ⟨link,rest⟩ := List.isChain_cons_cons.mp way
    intro x member
    rcases List.mem_cons.mp member with rfl | behind
    · exact .inl (link ▸ List.mem_cons_self)
    · exact (ih rest x behind).imp_left (List.mem_cons_of_mem b)

theorem upto_iff (way : List.IsChain (fun a b => next a = b) (a :: (l ++ [z]))) (absent : z ∉ l) (x : α) :
    Upto next a z x ↔ x ∈ a :: l := by
  constructor
  · intro walked
    induction walked with
    | first => exact List.mem_cons_self
    | next _ other member => exact List.mem_cons_of_mem a ((next_on_way way _ member).resolve_right other)
  · exact Upto.of_way way absent .first x

/-! ### Edits -/

/-- A chain whose links stay but for those from its end and those to its first node. -/
theorem chain_imp {R S : α → α → Prop} (kept : ∀ x ∈ l, ∀ y ∈ (l ++ [z]).tail, R x y → S x y)
    (chain : List.IsChain R (l ++ [z])) : List.IsChain S (l ++ [z]) := by
  induction l with
  | nil => exact List.isChain_singleton z
  | cons a l ih =>
    cases l with
    | nil =>
      have link := (List.isChain_cons_cons.mp chain).1
      exact List.isChain_pair.mpr (kept a List.mem_cons_self z (List.mem_singleton_self z) link)
    | cons b l =>
      obtain ⟨link,rest⟩ := List.isChain_cons_cons.mp chain
      refine List.isChain_cons_cons.mpr ⟨kept a List.mem_cons_self b List.mem_cons_self link,?_⟩
      refine ih (fun x inside y behind => ?_) rest
      exact kept x (List.mem_cons_of_mem a inside) y (List.mem_cons_of_mem b behind)

theorem Circled.congr (circle : Circled next prev l) (same_next : ∀ x ∈ l, next' x = next x)
    (same_prev : ∀ x ∈ l, prev' x = prev x) : Circled next' prev' l := by
  refine circle.imp_of_mem_imp ?_
  have inside : ∀ {x}, x ∈ l ++ l.take 1 → x ∈ l := by
    intro x member
    rcases List.mem_append.mp member with found | found
    · exact found
    · exact List.mem_of_mem_take found
  intro x y left right link
  rw [same_next x (inside left),same_prev y (inside right)]
  exact link

/-- The part of a circle that an edit at its front leaves alone. -/
theorem rest_kept {c : α} (chain : List.IsChain (fun a b => next a = b ∧ prev b = a) (c :: (r ++ [a])))
    (distinct : (a :: c :: r).Nodup) (same_next : ∀ x ∈ c :: r, next' x = next x)
    (same_prev : ∀ x ∈ a :: c :: r, x ≠ c → prev' x = prev x) :
    List.IsChain (fun a b => next' a = b ∧ prev' b = a) (c :: (r ++ [a])) := by
  refine chain_imp (l := c :: r) ?_ chain
  intro x inside y behind link
  have behind : y ∈ r ++ [a] := behind
  have other : y ≠ c := by
    rintro rfl
    obtain ⟨first,rest⟩ := List.nodup_cons.mp distinct
    rcases List.mem_append.mp behind with found | found
    · exact (List.nodup_cons.mp rest).1 found
    · rw [List.mem_singleton] at found
      exact first (found ▸ List.mem_cons_self)
  have member : y ∈ a :: c :: r := by
    rcases List.mem_append.mp behind with found | found
    · simp [found]
    · simp [List.mem_singleton.mp found]
  rw [same_next x inside,same_prev y member other]
  exact link

/-- A new node `b` is linked behind the first one. -/
theorem Circled.insert (circle : Circled next prev (a :: r)) (distinct : (a :: r).Nodup) (forth : next' a = b)
    (back : prev' b = a) (onward : next' b = next a) (far : prev' (next a) = b)
    (same_next : ∀ x ∈ r, next' x = next x) (same_prev : ∀ x ∈ a :: r, x ≠ next a → prev' x = prev x) :
    Circled next' prev' (a :: b :: r) := by
  have here := circle.next_first
  rw [here] at onward far same_prev
  cases r with
  | nil => exact List.isChain_cons_cons.mpr ⟨⟨forth,back⟩,List.isChain_pair.mpr ⟨onward,far⟩⟩
  | cons c r =>
    obtain ⟨_,chain⟩ := List.isChain_cons_cons.mp circle
    exact List.isChain_cons_cons.mpr ⟨⟨forth,back⟩,List.isChain_cons_cons.mpr ⟨⟨onward,far⟩,
      rest_kept chain distinct same_next same_prev⟩⟩

/-- The second node is taken out. -/
theorem Circled.remove (circle : Circled next prev (a :: b :: r)) (distinct : (a :: b :: r).Nodup)
    (forth : next' a = next b) (far : prev' (next b) = a) (same_next : ∀ x ∈ r, next' x = next x)
    (same_prev : ∀ x ∈ a :: r, x ≠ next b → prev' x = prev x) : Circled next' prev' (a :: r) := by
  obtain ⟨_,chain⟩ := List.isChain_cons_cons.mp circle
  cases r with
  | nil =>
    have here : next b = a := (List.isChain_pair.mp chain).1
    rw [here] at forth far
    exact List.isChain_pair.mpr ⟨forth,far⟩
  | cons c r =>
    obtain ⟨⟨here,_⟩,chain⟩ := List.isChain_cons_cons.mp chain
    rw [here] at forth far same_prev
    have others : (a :: c :: r).Nodup := distinct.sublist (.cons_cons a (.cons b (.refl _)))
    exact List.isChain_cons_cons.mpr ⟨⟨forth,far⟩,rest_kept chain others same_next same_prev⟩

end Links

/-! ### The same edits of lists -/

section Lists
variable [DecidableEq α] {x : α} {w p q l r : List α}

/-- `w` in place of every `x`. -/
def replace (x : α) (w l : List α) : List α := l.flatMap (fun y => if y = x then w else [y])

theorem replace_absent (absent : x ∉ l) : replace x w l = l := by
  induction l with
  | nil => rfl
  | cons y l ih =>
    rw [List.mem_cons,not_or] at absent
    obtain ⟨other,rest⟩ := absent
    rw [replace,List.flatMap_cons,if_neg (Ne.symm other)]
    exact congrArg (y :: ·) (ih rest)

theorem replace_append : replace x w (p ++ q) = replace x w p ++ replace x w q := List.flatMap_append

theorem replace_split (distinct : (p ++ x :: q).Nodup) : replace x w (p ++ x :: q) = p ++ (w ++ q) := by
  have left : x ∉ p := fun member => List.disjoint_of_nodup_append distinct member List.mem_cons_self
  have right : x ∉ q := (List.nodup_cons.mp (List.nodup_append.mp distinct).2.1).1
  have front : replace x w (x :: q) = w ++ replace x w q := by
    rw [replace,List.flatMap_cons,if_pos rfl]
    rfl
  rw [replace_append,replace_absent left,front,replace_absent right]

theorem replace_rotated (rotated : l.IsRotated r) : (replace x w l).IsRotated (replace x w r) := by
  obtain ⟨n,rfl⟩ := rotated
  rw [List.rotate_eq_drop_append_take_mod,replace_append]
  have whole : replace x w l = replace x w (l.take (n % l.length)) ++ replace x w (l.drop (n % l.length)) := by
    rw [← replace_append,List.take_append_drop]
  rw [whole]
  exact List.isRotated_append

end Lists

end GridOS.Circle
