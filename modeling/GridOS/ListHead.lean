import GridOS.Circle
import Mathlib.Tactic

/-!
The lists of `include/list.h` in the words of memory. A `struct list_head` is the word `next`
with the word `prev` behind it; a list is the circle of its head and its links, and a link may be
any member of the structure that holds it.
-/
namespace GridOS.ListHead
open GridOS.Circle

/-- The words of memory by their byte addresses. -/
abbrev Mem := Nat → Nat

def write (address value : Nat) (m : Mem) : Mem := Function.update m address value

theorem write_apply (address value a : Nat) (m : Mem) :
    write address value m a = if a = address then value else m a := Function.update_apply ..

def next (m : Mem) (list : Nat) : Nat := m list
def prev (m : Mem) (list : Nat) : Nat := m (list + 4)

def INIT_LIST_HEAD (list : Nat) (m : Mem) : Mem := write (list + 4) list (write list list m)

/-- `__list_add`. -/
def _list_add (new before behind : Nat) (m : Mem) : Mem :=
  let m := write (behind + 4) new m
  let m := write new behind m
  let m := write (new + 4) before m
  write before new m

def list_add (new head : Nat) (m : Mem) : Mem := _list_add new head (next m head) m

def list_add_tail (new head : Nat) (m : Mem) : Mem := _list_add new (prev m head) head m

/-- `__list_del`. -/
def _list_del (before behind : Nat) (m : Mem) : Mem := write before behind (write (behind + 4) before m)

def list_del_init (entry : Nat) (m : Mem) : Mem := INIT_LIST_HEAD entry (_list_del (prev m entry) (next m entry) m)

def LIST_POISON1 : Nat := 0x100
def LIST_POISON2 : Nat := 0x200

def list_del (entry : Nat) (m : Mem) : Mem :=
  write (entry + 4) LIST_POISON2 (write entry LIST_POISON1 (_list_del (prev m entry) (next m entry) m))

def list_empty (head : Nat) (m : Mem) : Bool := next m head == head

def list_is_singular (head : Nat) (m : Mem) : Bool := !list_empty head m && next m head == prev m head

/-- The links from `pos` on, up to the head. -/
def links_from (head : Nat) (m : Mem) : Nat → Nat → List Nat
  | 0, _ => []
  | fuel+1, pos => if pos = head then [] else pos :: links_from head m fuel (next m pos)

/-- The links that `list_for_each` visits. -/
def list_for_each (fuel head : Nat) (m : Mem) : List Nat := links_from head m fuel (next m head)

/-! ### Lists -/

/-- The words of two links are not shared. -/
def Spaced (a b : Nat) : Prop := a + 8 ≤ b ∨ b + 8 ≤ a

/-- The links of the list at `head`. -/
structure Ring (m : Mem) (head : Nat) (links : List Nat) : Prop where
  circle : Circled (next m) (prev m) (head :: links)
  spaced : (head :: links).Pairwise Spaced

theorem Spaced.symm {a b : Nat} (spaced : Spaced a b) : Spaced b a := Or.symm spaced

instance : Std.Symm Spaced := ⟨fun _ _ spaced => spaced.symm⟩

section Rings
variable {m : Mem} {head new : Nat} {links l r : List Nat}

theorem Ring.nodup (ring : Ring m head links) : (head :: links).Nodup := by
  refine ring.spaced.imp ?_
  intro a b spaced same
  unfold Spaced at spaced
  omega

/-- The list depends on the words of its links only. -/
theorem Ring.congr {m' : Mem} (ring : Ring m head links)
    (same : ∀ a ∈ head :: links, m' a = m a ∧ m' (a + 4) = m (a + 4)) : Ring m' head links :=
  ⟨ring.circle.congr (fun a member => (same a member).1) (fun a member => (same a member).2),ring.spaced⟩

theorem links_from_chain {fuel pos : Nat} (chain : List.IsChain (fun a b => next m a = b) (pos :: links ++ [head]))
    (absent : head ∉ pos :: links) (enough : links.length < fuel) :
    links_from head m (fuel + 1) pos = pos :: links := by
  induction links generalizing pos fuel with
  | nil =>
    obtain ⟨fuel,rfl⟩ := Nat.exists_eq_succ_of_ne_zero (Nat.ne_of_gt enough)
    have end_of_list : next m pos = head := (List.isChain_cons_cons.mp chain).1
    have other : pos ≠ head := by
      rintro rfl
      simp at absent
    simp [links_from,end_of_list,other]
  | cons a links ih =>
    obtain ⟨fuel,rfl⟩ := Nat.exists_eq_succ_of_ne_zero (Nat.ne_of_gt (Nat.lt_of_le_of_lt (Nat.zero_le _) enough))
    have other : pos ≠ head := by
      rintro rfl
      simp at absent
    obtain ⟨step,rest⟩ := List.isChain_cons_cons.mp chain
    rw [links_from,if_neg other,step]
    refine congrArg (pos :: ·) (ih rest (List.not_mem_of_not_mem_cons absent) ?_)
    simpa using enough

/-- `list_for_each` visits the links. -/
theorem Ring.list_for_each {fuel : Nat} (ring : Ring m head links) (enough : links.length < fuel) :
    list_for_each fuel head m = links := by
  rw [ListHead.list_for_each,ring.circle.next_first]
  cases links with
  | nil =>
    obtain ⟨fuel,rfl⟩ := Nat.exists_eq_succ_of_ne_zero (Nat.ne_of_gt enough)
    simp [links_from]
  | cons a links =>
    obtain ⟨fuel,rfl⟩ := Nat.exists_eq_succ_of_ne_zero (Nat.ne_of_gt (Nat.lt_of_le_of_lt (Nat.zero_le _) enough))
    have chain : List.IsChain (fun a b => next m a = b) (a :: links ++ [head]) := by
      simpa using ring.circle.way (s := [head]) (by simp)
    exact links_from_chain chain (List.nodup_cons.mp ring.nodup).1 (by simpa using enough)

theorem Ring.list_empty (ring : Ring m head links) : list_empty head m = true ↔ links = [] := by
  rw [ListHead.list_empty,beq_iff_eq,ring.circle.next_first]
  cases links with
  | nil => simp
  | cons a links =>
    have other := (List.nodup_cons.mp ring.nodup).1
    simp only [List.headD_cons,reduceCtorEq,iff_false]
    rintro rfl
    simp at other

/-- The link in front of which a new one is put, and the one before it. -/
theorem Ring.prev_at (ring : Ring m head (l ++ r)) : prev m (r.headD head) = l.getLastD head := by
  rcases List.eq_nil_or_concat' l with rfl | ⟨front,x,rfl⟩
  · exact ring.circle.prev_second
  · have turned : Circled (next m) (prev m) (x :: (r ++ head :: front)) := by
      have whole : Circled (next m) (prev m) ((head :: front) ++ (x :: r)) := by simpa using ring.circle
      simpa using whole.rotate
    have back := turned.prev_second
    cases r with
    | nil => simpa using back
    | cons t r => simpa using back

/-- The link behind which a new one is put, and the one behind it. -/
theorem Ring.next_at (ring : Ring m head (l ++ r)) : next m (l.getLastD head) = r.headD head := by
  rcases List.eq_nil_or_concat' l with rfl | ⟨front,x,rfl⟩
  · exact ring.circle.next_first
  · have turned : Circled (next m) (prev m) (x :: (r ++ head :: front)) := by
      have whole : Circled (next m) (prev m) ((head :: front) ++ (x :: r)) := by simpa using ring.circle
      simpa using whole.rotate
    have onward := turned.next_first
    cases r with
    | nil => simpa using onward
    | cons t r => simpa using onward

theorem Ring.list_is_singular (ring : Ring m head links) : list_is_singular head m = true ↔ ∃ a, links = [a] := by
  have first : next m head = links.headD head := ring.circle.next_first
  have last : prev m head = links.getLastD head := by
    have back := Ring.prev_at (l := links) (r := []) (by simpa using ring)
    simpa using back
  rw [ListHead.list_is_singular,Bool.and_eq_true,Bool.not_eq_true',beq_iff_eq,← Bool.not_eq_true,ring.list_empty,first,last]
  constructor
  · rintro ⟨some_link,same⟩
    obtain ⟨a,rest,rfl⟩ := List.exists_cons_of_ne_nil some_link
    cases rest with
    | nil => exact ⟨a,rfl⟩
    | cons b rest =>
      have distinct := (List.nodup_cons.mp (List.nodup_cons.mp ring.nodup).2).1
      obtain ⟨front,z,split⟩ := (List.eq_nil_or_concat' (b :: rest)).resolve_left (List.cons_ne_nil b rest)
      rw [split] at same distinct
      have same : a = z := by
        rwa [← List.cons_append,List.getLastD_concat] at same
      exact absurd (by simp [same]) distinct
  · rintro ⟨a,rfl⟩
    exact ⟨List.cons_ne_nil a [],rfl⟩

/-- What `list_add_tail` writes. -/
theorem list_add_tail_apply (new head a : Nat) (m : Mem) : list_add_tail new head m a =
    if a = prev m head then new else if a = new + 4 then prev m head else if a = new then head else
      if a = head + 4 then new else m a := by
  simp only [list_add_tail,_list_add,write_apply]

/-- Seen from the link behind which the new one comes. -/
theorem circled_list_add_tail {x t : Nat} {rest : List Nat} (circle : Circled (next m) (prev m) (x :: rest))
    (spaced : (x :: rest).Pairwise Spaced) (apart : ∀ a ∈ x :: rest, Spaced new a) (target : rest.headD x = t) :
    Circled (next (list_add_tail new t m)) (prev (list_add_tail new t m)) (x :: new :: rest) := by
  have back : prev m t = x := target ▸ circle.prev_second
  have forth : next m x = t := target ▸ circle.next_first
  have inside : t ∈ x :: rest := by
    rw [← target]
    cases rest with
    | nil => simp
    | cons a l => simp
  have spaced_x := apart x List.mem_cons_self
  have spaced_t := apart t inside
  have others : ∀ a ∈ x :: rest, ∀ b ∈ x :: rest, a ≠ b → Spaced a b :=
    fun a left b right differ => spaced.forall left right differ
  have distinct : (x :: rest).Nodup := spaced.imp (fun near same => by unfold Spaced at near; omega)
  have written : ∀ a, list_add_tail new t m a = if a = x then new else if a = new + 4 then x else
      if a = new then t else if a = t + 4 then new else m a := by
    intro a
    rw [list_add_tail_apply,back]
  refine circle.insert distinct ?_ ?_ ?_ ?_ ?_ ?_
  · simp [next,written]
  · have differ : new + 4 ≠ x := by unfold Spaced at *; omega
    simp [prev,written,differ]
  · have differ : new ≠ x := by unfold Spaced at *; omega
    rw [forth]
    simp [next,written,differ]
  · have differ : t + 4 ≠ x ∧ t ≠ new ∧ t + 4 ≠ new := by
      by_cases same : t = x
      · unfold Spaced at *; omega
      · have := others t inside x List.mem_cons_self same
        unfold Spaced at *; omega
    rw [forth]
    simp [prev,written,differ]
  · intro a member
    have near := apart a (List.mem_cons_of_mem x member)
    have other : a ≠ x := fun same => (List.nodup_cons.mp distinct).1 (same ▸ member)
    have differ : a ≠ new + 4 ∧ a ≠ new ∧ a ≠ t + 4 := by
      by_cases same : a = t
      · unfold Spaced at *; omega
      · have := others a (List.mem_cons_of_mem x member) t inside same
        unfold Spaced at *; omega
    simp [next,written,other,differ]
  · intro a member far
    rw [forth] at far
    have near := apart a member
    have := others a member t inside far
    have differ : a + 4 ≠ x ∧ a ≠ new ∧ a + 4 ≠ new ∧ a ≠ t := by
      by_cases same : a = x
      · unfold Spaced at *; omega
      · have := others a member x List.mem_cons_self same
        unfold Spaced at *; omega
    simp [prev,written,differ]

/-- A new link in front of the rest of the list, or at its end. -/
theorem Ring.list_add_tail (ring : Ring m head (l ++ r)) (apart : ∀ a ∈ head :: (l ++ r), Spaced new a) :
    Ring (list_add_tail new (r.headD head) m) head (l ++ new :: r) := by
  have back := ring.prev_at
  obtain ⟨front,x,whole⟩ : ∃ front x, head :: l = front ++ [x] := by
    rcases List.eq_nil_or_concat' l with rfl | ⟨front,x,rfl⟩
    · exact ⟨[],head,rfl⟩
    · exact ⟨head :: front,x,rfl⟩
  have last : l.getLastD head = x := by
    have ends : (head :: l).getLastD 0 = x := by rw [whole,List.getLastD_concat]
    rwa [List.getLastD_cons] at ends
  have first : (r ++ front).headD x = r.headD head := by
    cases r with
    | nil =>
      cases front with
      | nil => exact (List.cons.inj whole).1.symm
      | cons a front => exact (List.cons.inj whole).1.symm
    | cons t r => rfl
  have split : head :: (l ++ r) = front ++ (x :: r) := by
    rw [← List.cons_append,whole,List.append_assoc]
    rfl
  have turned : Circled (next m) (prev m) (x :: (r ++ front)) := by
    have circle := ring.circle
    rw [split] at circle
    exact circle.rotate
  have order : (front ++ x :: r).Perm (x :: (r ++ front)) := List.perm_append_comm
  have spaced : (x :: (r ++ front)).Pairwise Spaced := (order.pairwise_iff Spaced.symm).mp (split ▸ ring.spaced)
  have apart' : ∀ a ∈ x :: (r ++ front), Spaced new a := fun a member => apart a (by rw [split]; exact order.mem_iff.mpr member)
  have edited := circled_list_add_tail turned spaced apart' first
  constructor
  · have turned_back : Circled _ _ (front ++ (x :: new :: r)) := Circled.rotate (r := x :: new :: r) (s := front) edited
    rw [← List.cons_append,whole,List.append_assoc]
    exact turned_back
  · have moved : (head :: (l ++ new :: r)).Perm (new :: head :: (l ++ r)) :=
      (List.perm_middle.cons head).trans (.swap new head (l ++ r))
    exact (moved.pairwise_iff Spaced.symm).mpr (List.pairwise_cons.mpr ⟨apart,ring.spaced⟩)

/-- A new link behind the last one of `l`, or behind the head. -/
theorem Ring.list_add (ring : Ring m head (l ++ r)) (apart : ∀ a ∈ head :: (l ++ r), Spaced new a) :
    Ring (list_add new (l.getLastD head) m) head (l ++ new :: r) := by
  have same : ListHead.list_add new (l.getLastD head) m = ListHead.list_add_tail new (r.headD head) m := by
    rw [ListHead.list_add,ListHead.list_add_tail,ring.next_at,ring.prev_at]
  rw [same]
  exact ring.list_add_tail apart

/-- A new link touches only links. -/
theorem Ring.list_add_tail_same (ring : Ring m head (l ++ r)) {a : Nat}
    (other : ∀ b ∈ new :: head :: (l ++ r), a ≠ b ∧ a ≠ b + 4) : ListHead.list_add_tail new (r.headD head) m a = m a := by
  have before : l.getLastD head ∈ new :: head :: (l ++ r) := by
    rcases List.eq_nil_or_concat' l with rfl | ⟨front,x,rfl⟩
    · simp
    · simp
  have behind : r.headD head ∈ new :: head :: (l ++ r) := by
    cases r with
    | nil => simp
    | cons t r => simp
  obtain ⟨at_new,at_new_prev⟩ := other new (by simp)
  rw [list_add_tail_apply,ring.prev_at,if_neg (other _ before).1,if_neg at_new_prev,if_neg at_new,if_neg (other _ behind).2]

/-- What `list_del` writes. -/
theorem list_del_apply (entry a : Nat) (m : Mem) : list_del entry m a =
    if a = entry + 4 then LIST_POISON2 else if a = entry then LIST_POISON1 else if a = prev m entry then next m entry else
      if a = next m entry + 4 then prev m entry else m a := by
  simp only [list_del,_list_del,write_apply]

/-- Seen from the link before the one that is taken out. -/
theorem circled_list_del {a x : Nat} {rest : List Nat} (circle : Circled (next m) (prev m) (a :: x :: rest))
    (spaced : (a :: x :: rest).Pairwise Spaced) : Circled (next (list_del x m)) (prev (list_del x m)) (a :: rest) := by
  have back : prev m x = a := circle.prev_second
  have distinct : (a :: x :: rest).Nodup := spaced.imp (fun near same => by unfold Spaced at near; omega)
  have behind : next m x ∈ a :: rest := by
    have onward : next m x = rest.headD a := by
      have turned : Circled (next m) (prev m) (x :: (rest ++ [a])) := circle.rotate (r := [a])
      rw [turned.next_first]
      cases rest <;> rfl
    rw [onward]
    cases rest <;> simp
  have kept : ∀ y ∈ a :: rest, y ∈ a :: x :: rest := fun y member =>
    (List.mem_cons.mp member).elim (fun same => same ▸ List.mem_cons_self) (fun later => by simp [later])
  have others : ∀ y ∈ a :: x :: rest, ∀ z ∈ a :: x :: rest, y ≠ z → Spaced y z :=
    fun y left z right differ => spaced.forall left right differ
  have absent : ∀ y ∈ a :: rest, y ≠ x ∧ Spaced y x := by
    intro y member
    have differ : y ≠ x := by
      rintro rfl
      have twice := distinct
      simp only [List.nodup_cons,List.mem_cons,not_or] at twice
      rcases List.mem_cons.mp member with same | later
      · exact twice.1.1 same.symm
      · exact twice.2.1 later
    exact ⟨differ,others y (kept y member) x (by simp) differ⟩
  have near : ∀ y ∈ a :: rest, ∀ z ∈ a :: rest, y ≠ z + 4 := by
    intro y left z right
    by_cases same : y = z
    · omega
    · have apart := others y (kept y left) z (kept z right) same
      unfold Spaced at apart
      omega
  have written : ∀ y ∈ a :: rest, list_del x m y = if y = a then next m x else m y := by
    intro y member
    obtain ⟨differ,apart⟩ := absent y member
    have plus : y ≠ x + 4 := by unfold Spaced at apart; omega
    rw [list_del_apply,back,if_neg plus,if_neg differ,if_neg (near y member _ behind)]
  have written_back : ∀ y ∈ a :: rest, list_del x m (y + 4) = if y = next m x then a else m (y + 4) := by
    intro y member
    obtain ⟨differ,apart⟩ := absent y member
    have plus : y + 4 ≠ x + 4 ∧ y + 4 ≠ x := by unfold Spaced at apart; omega
    rw [list_del_apply,back,if_neg plus.1,if_neg plus.2,if_neg (near a List.mem_cons_self y member).symm]
    simp only [Nat.add_right_cancel_iff]
  refine circle.remove distinct ?_ ?_ ?_ ?_
  · exact (written a List.mem_cons_self).trans (if_pos rfl)
  · exact (written_back _ behind).trans (if_pos rfl)
  · intro y member
    have differ : y ≠ a := by
      rintro rfl
      exact (List.nodup_cons.mp distinct).1 (List.mem_cons_of_mem x member)
    exact (written y (List.mem_cons_of_mem a member)).trans (if_neg differ)
  · intro y member differ
    exact (written_back y member).trans (if_neg differ)

/-- A link is taken out. -/
theorem Ring.list_del {x : Nat} (ring : Ring m head (l ++ x :: r)) : Ring (list_del x m) head (l ++ r) := by
  obtain ⟨front,a,whole⟩ : ∃ front a, head :: l = front ++ [a] := by
    rcases List.eq_nil_or_concat' l with rfl | ⟨front,a,rfl⟩
    · exact ⟨[],head,rfl⟩
    · exact ⟨head :: front,a,rfl⟩
  have split : head :: (l ++ x :: r) = front ++ (a :: x :: r) := by
    rw [← List.cons_append,whole,List.append_assoc]
    rfl
  have circle := ring.circle
  have spaced := ring.spaced
  rw [split] at circle spaced
  have order : (front ++ a :: x :: r).Perm (a :: x :: (r ++ front)) := List.perm_append_comm
  have turned : Circled (next (ListHead.list_del x m)) (prev (ListHead.list_del x m)) (a :: (r ++ front)) :=
    circled_list_del circle.rotate ((order.pairwise_iff Spaced.symm).mp spaced)
  have turned_back : Circled (next (ListHead.list_del x m)) (prev (ListHead.list_del x m)) (front ++ (a :: r)) :=
    Circled.rotate (r := a :: r) (s := front) turned
  constructor
  · rw [← List.cons_append,whole,List.append_assoc]
    exact turned_back
  · refine ring.spaced.sublist (List.Sublist.cons_cons head ?_)
    exact (List.Sublist.refl l).append (List.sublist_cons_self x r)

/-- Memory has one list at a head. -/
theorem Ring.unique {links' : List Nat} (ring : Ring m head links) (ring' : Ring m head links') : links = links' := by
  have visited : ListHead.list_for_each (links.length + links'.length + 1) head m = links := ring.list_for_each (by omega)
  rw [← visited]
  exact ring'.list_for_each (by omega)

end Rings
end GridOS.ListHead
