import GridOS.ListHead

/-!
The order in which the block cache gives up its blocks: `fss_dbd_lru_update` and `fss_dbd_lru_add` of
`source/subsystem/fs/block.c`. The head of the list is given up first. A descriptor is moved behind its
successor in a list whose head is one of the links, so that the last one comes to the front.
-/
namespace GridOS.Lru
open GridOS.ListHead

def FSS_DBD_LEVEL_EXCHANGE_MASK : Nat := 127

/-- The words of memory and the access counters; a descriptor is named by the address of its link. -/
structure State where
  mem : Mem
  access_counter : Nat → Nat

/-- `ke_atomic_inc` of the counter. -/
def count_access (dbd : Nat) (s : State) : State :=
  { s with access_counter := Function.update s.access_counter dbd ((s.access_counter dbd + 1) % 2 ^ 32) }

/-- The access that is counted next is one at which places are exchanged. -/
def Exchanges (s : State) (dbd : Nat) : Prop := (s.access_counter dbd + 1) % 2 ^ 32 &&& FSS_DBD_LEVEL_EXCHANGE_MASK = 0

/-- The list is at `sort_list`. -/
def fss_dbd_lru_update (sort_list dbd : Nat) (s : State) : State :=
  let s := count_access dbd s
  if s.access_counter dbd &&& FSS_DBD_LEVEL_EXCHANGE_MASK = 0 then
    if list_is_singular sort_list s.mem then s else
    let behind := next s.mem dbd
    { s with mem := list_add dbd behind (list_del dbd s.mem) }
  else s

def fss_dbd_lru_add (sort_list which : Nat) (s : State) : State :=
  { s with mem := list_add_tail which sort_list s.mem }

/-- The descriptor and its successor have changed places. -/
def Swapped (l l' : List Nat) (dbd : Nat) : Prop :=
  ∃ a x b, l = a ++ dbd :: x :: b ∧ l' = a ++ x :: dbd :: b

/-- The list is a permutation of what it was in which only the descriptor and its successor may have changed places; the
    descriptor is not nearer to the head, and the last one stays where it is. -/
structure Updated (l l' : List Nat) (dbd : Nat) : Prop where
  perm : l'.Perm l
  swapped : l' = l ∨ Swapped l l' dbd
  place : l.idxOf dbd ≤ l'.idxOf dbd
  last : l.getLast? = some dbd → l' = l

section Update
variable {sort_list dbd : Nat} {s : State} {l a b : List Nat}

theorem update_moves (exchanges : Exchanges s dbd) (ring : Ring s.mem sort_list l) (two : 2 ≤ l.length) :
    (fss_dbd_lru_update sort_list dbd s).mem = list_add dbd (next s.mem dbd) (list_del dbd s.mem) := by
  have several : list_is_singular sort_list s.mem = false := by
    refine Bool.eq_false_iff.mpr (fun single => ?_)
    obtain ⟨x,rfl⟩ := ring.list_is_singular.mp single
    simp at two
  unfold fss_dbd_lru_update
  dsimp only
  rw [if_pos (by simpa [count_access,Exchanges] using exchanges)]
  have kept : ¬list_is_singular sort_list (count_access dbd s).mem = true := Bool.eq_false_iff.mp several
  rw [if_neg kept]
  rfl

/-- The links that stay are apart from the one that was taken out. -/
theorem apart_of_ring (ring : Ring s.mem sort_list (a ++ dbd :: b)) : ∀ x ∈ sort_list :: (a ++ b), Spaced dbd x := by
  have order : (sort_list :: (a ++ dbd :: b)).Perm (dbd :: sort_list :: (a ++ b)) :=
    (List.perm_middle.cons sort_list).trans (.swap ..)
  exact (List.pairwise_cons.mp ((order.pairwise_iff Spaced.symm).mp ring.spaced)).1

theorem next_of_ring (ring : Ring s.mem sort_list (a ++ dbd :: b)) : next s.mem dbd = b.headD sort_list := by
  have at_ : Ring s.mem sort_list ((a ++ [dbd]) ++ b) := by simpa using ring
  simpa using at_.next_at

/-- A descriptor with a successor changes places with it. -/
theorem update_middle {x : Nat} (exchanges : Exchanges s dbd) (ring : Ring s.mem sort_list (a ++ dbd :: x :: b)) :
    Ring (fss_dbd_lru_update sort_list dbd s).mem sort_list (a ++ x :: dbd :: b) := by
  have two : 2 ≤ (a ++ dbd :: x :: b).length := by simp only [List.length_append,List.length_cons]; omega
  rw [update_moves exchanges ring two,next_of_ring ring]
  have taken : Ring (list_del dbd s.mem) sort_list ((a ++ [x]) ++ b) := by simpa using ring.list_del
  have put := taken.list_add (by simpa using apart_of_ring ring)
  simpa using put

/-- The last descriptor comes to the head. -/
theorem update_last (exchanges : Exchanges s dbd) (ring : Ring s.mem sort_list (a ++ [dbd])) (others : a ≠ []) :
    Ring (fss_dbd_lru_update sort_list dbd s).mem sort_list (dbd :: a) := by
  have two : 2 ≤ (a ++ [dbd]).length := by
    have := List.length_pos_iff.mpr others
    simp only [List.length_append,List.length_singleton]
    omega
  rw [update_moves exchanges ring two,next_of_ring ring]
  have taken : Ring (list_del dbd s.mem) sort_list ([] ++ a) := by simpa using ring.list_del
  exact taken.list_add (by simpa using apart_of_ring ring)

/-- At an exchange the update is right exactly when the descriptor is not the last one. -/
theorem lru_updated_iff (exchanges : Exchanges s dbd) (ring : Ring s.mem sort_list l) (two : 2 ≤ l.length) (member : dbd ∈ l) :
    (∃ l', Ring (fss_dbd_lru_update sort_list dbd s).mem sort_list l' ∧ Updated l l' dbd) ↔ l.getLast? ≠ some dbd := by
  obtain ⟨a,b,rfl⟩ := List.append_of_mem member
  have distinct : (a ++ dbd :: b).Nodup := (List.nodup_cons.mp ring.nodup).2
  have absent : dbd ∉ a ++ b := (List.nodup_middle.mp distinct |> List.nodup_cons.mp).1
  cases b with
  | nil =>
    have others : a ≠ [] := by
      rintro rfl
      simp at two
    refine iff_of_false ?_ (fun other => other (by simp))
    rintro ⟨l',ring',updated⟩
    have front := ring'.unique (update_last exchanges ring others)
    rw [updated.last (by simp)] at front
    obtain ⟨x,rest,rfl⟩ := List.exists_cons_of_ne_nil others
    have same : x = dbd := (List.cons.inj front).1
    exact absent (by simp [same])
  | cons x b =>
    have before : dbd ∉ a := fun found => absent (List.mem_append_left _ found)
    have other : x ≠ dbd := fun same => absent (by simp [same])
    refine iff_of_true ⟨a ++ x :: dbd :: b,update_middle exchanges ring,?_,.inr ⟨a,x,b,rfl,rfl⟩,?_,?_⟩ ?_
    · exact List.Perm.append_left a (.swap dbd x b)
    · rw [List.idxOf_append_of_notMem before,List.idxOf_append_of_notMem before]
      simp
    · intro last
      have inside : dbd ∈ x :: b := by
        have ends : (x :: b).getLast? = some dbd := by simpa using last
        exact List.mem_of_getLast? ends
      exact absurd (List.mem_append_right a inside) absent
    · intro last
      have inside : dbd ∈ x :: b := by
        have ends : (x :: b).getLast? = some dbd := by simpa using last
        exact List.mem_of_getLast? ends
      exact absent (List.mem_append_right a inside)

end Update

/-- Two descriptors were added, and the next access of each is the 128th. -/
def two_added : State :=
  fss_dbd_lru_add 100 300 (fss_dbd_lru_add 100 200 ⟨INIT_LIST_HEAD 100 (fun _ => 0),fun _ => 127⟩)

theorem two_added_ring : Ring two_added.mem 100 [200,300] :=
  ⟨List.isChain_cons_cons.mpr ⟨by decide,List.isChain_cons_cons.mpr ⟨by decide,List.isChain_pair.mpr (by decide)⟩⟩,
    by unfold Spaced; decide⟩

theorem lru_updated_iff_first : ∃ l', Ring (fss_dbd_lru_update 100 200 two_added).mem 100 l' ∧ Updated [200,300] l' 200 :=
  (lru_updated_iff (by unfold Exchanges; decide) two_added_ring (by decide) (by decide)).mpr (by decide)

/-- The last descriptor, just accessed, is the next one to be given up. -/
theorem last_given_up_first : Ring two_added.mem 100 [200,300] ∧ Exchanges two_added 300 ∧
    Ring (fss_dbd_lru_update 100 300 two_added).mem 100 [300,200] ∧
    ¬∃ l', Ring (fss_dbd_lru_update 100 300 two_added).mem 100 l' ∧ Updated [200,300] l' 300 := by
  have exchanges : Exchanges two_added 300 := by unfold Exchanges; decide
  have moved : Ring (fss_dbd_lru_update 100 300 two_added).mem 100 [300,200] :=
    update_last (a := [200]) exchanges two_added_ring (List.cons_ne_nil _ _)
  refine ⟨two_added_ring,exchanges,moved,?_⟩
  rintro ⟨l',ring,updated⟩
  have same := updated.last rfl
  rw [ring.unique moved] at same
  exact absurd same (by decide)

end GridOS.Lru
