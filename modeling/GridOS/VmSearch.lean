import GridOS.VmRuns
import Mathlib.Order.Bounds.Basic

/-!
The search for a gap, `alloc_virtual_space`, on any list of nodes that stand one behind the other. When no sum
wraps, it is a first fit: the start moves on to the end of a node only if no space that begins in
between keeps clear of that node. The two ways to call it, with and without a desired address, go
through one loop, and its exits are told apart by the two node pointers.
-/
namespace GridOS.Vm
open GridOS.Words

/-- The space of `size` at `a` meets no node. -/
def Misses (nodes : List VmNode) (size a : Nat) : Prop := ∀ n ∈ nodes, n.stop ≤ a ∨ a + size ≤ n.start

/-- The space of `size` at `a` lies in the range and meets no node. -/
def Room (nodes : List VmNode) (range_start range_len size a : Nat) : Prop :=
  range_start ≤ a ∧ a + size ≤ range_start + range_len ∧ Misses nodes size a

/-- No sum that the search can come to wraps. -/
structure SumsFit (nodes : List VmNode) (range_start range_len desired size : Nat) : Prop where
  range : range_start + range_len < modulus
  start : range_start + size < modulus
  desired : desired + size < modulus
  nodes : ∀ n ∈ nodes, n.stop + size < modulus

section Search
variable {nodes : List VmNode} {range_start range_len desired size : Nat}

theorem SumsFit.fits (sums : SumsFit nodes range_start range_len desired size) : ∀ n ∈ nodes, n.stop < modulus := by
  intro n member
  have := sums.nodes n member
  omega

theorem SumsFit.limit (sums : SumsFit nodes range_start range_len desired size) :
    add range_len range_start = range_start + range_len := by
  have range := sums.range
  rw [add_exact (by omega),Nat.add_comm]

/-- A walk that has not failed: the last node it came to does not reach behind the start. -/
def Found.Clear (found : Found) : Prop := found.same = true → ∀ pS ∈ found.pS, add pS.start pS.size ≤ found.start

/-- Behind a walk that has not failed only the limit is checked. -/
theorem alloc_of_clear {found : Found}
    (walked : walk range_start range_len desired size nodes none (if desired ≠ 0 then desired else range_start) = found)
    (clear : found.Clear) :
    alloc_virtual_space nodes range_start range_len desired size = check_limit range_start range_len found.start size := by
  unfold alloc_virtual_space
  dsimp only
  rw [walked]
  refine if_neg ?_
  rintro ⟨same,pS,inFound,behind⟩
  exact behind (clear same pS inFound)

/-- The last node the walk came to, if there is one, ends where the nodes in front do. -/
theorem last_ends (fits : ∀ n ∈ nodes, n.stop < modulus) {l r : List VmNode} {start : Nat} (split : nodes = l ++ r)
    (before : ∀ n ∈ l, n.stop ≤ start) : ∀ p ∈ l.getLast?, add p.start p.size ≤ start := by
  intro p last
  have inL := List.mem_of_getLast? last
  rw [add_stop (fits p (by rw [split]; simp [inL]))]
  exact before p inL

/-- The walk steps behind one more node. -/
theorem ends_behind {l : List VmNode} {pS : VmNode} {start next : Nat} (later : start ≤ next) (before : ∀ n ∈ l, n.stop ≤ start)
    (behind : pS.stop ≤ next) : ∀ n ∈ l ++ [pS], n.stop ≤ next := by
  intro n member
  rcases List.mem_append.mp member with early | last
  · exact (before n early).trans later
  · rw [List.mem_singleton.mp last]
    exact behind

/-! ### Without a desired address -/

/-- What a first fit has found: a space that meets no node or passes the limit, and none before it. -/
structure First (nodes : List VmNode) (range_start range_len size : Nat) (found : Found) : Prop where
  low : range_start ≤ found.start
  word : found.start + size < modulus
  clear : found.Clear
  space : Misses nodes size found.start ∨ range_start + range_len < found.start + size
  passed : ∀ a, range_start ≤ a → a < found.start → ¬Misses nodes size a

/-- The nodes of `l` end before `start`, and every space before `start` meets one of them. -/
theorem walk_first (sums : SumsFit nodes range_start range_len 0 size) (positive : 0 < size)
    (ordered : nodes.Pairwise (fun a b => a.stop ≤ b.start)) (l r : List VmNode) (start : Nat) (split : nodes = l ++ r)
    (low : range_start ≤ start) (word : start + size < modulus) (before : ∀ n ∈ l, n.stop ≤ start)
    (passed : ∀ a, range_start ≤ a → a < start → ¬Misses nodes size a) :
    First nodes range_start range_len size (walk range_start range_len 0 size r l.getLast? start) := by
  induction r generalizing l start with
  | nil =>
    have ends := last_ends sums.fits split before
    rw [List.append_nil] at split
    subst split
    rw [walk]
    exact ⟨low,word,fun _ => ends,.inl (fun n member => .inl (before n member)),passed⟩
  | cons pS r ih =>
    have inside : pS ∈ nodes := by rw [split]; simp
    have step : nodes = (l ++ [pS]) ++ r := by rw [split,List.append_assoc]; rfl
    have stop := add_stop (sums.fits pS inside)
    have onward : ∀ next, start ≤ next → pS.stop ≤ next → next + size < modulus →
        (∀ a, range_start ≤ a → a < next → ¬Misses nodes size a) →
        First nodes range_start range_len size (walk range_start range_len 0 size r (some pS) next) := by
      intro next later behind word' passed'
      have rest := ih (l ++ [pS]) next step (low.trans later) word' (ends_behind later before behind) passed'
      rwa [List.getLast?_concat] at rest
    rw [walk,stop,add_exact word,add_exact sums.range]
    split
    · next gap =>
      refine ⟨low,word,fun same => (by cases same),.inl ?_,passed⟩
      intro n member
      rw [split] at member ordered
      rcases List.mem_append.mp member with left | right
      · exact .inl (before n left)
      · have behind := behind_of_first (List.pairwise_append.mp ordered).2.1
          (by rintro n ⟨⟩; exact ⟨gap.1,gap.2.1⟩) n right
        exact .inr behind.2
    · next closed =>
      have noGap : ¬(start < pS.start ∧ start + size ≤ pS.start) := by
        intro gap
        exact closed ⟨gap.1,gap.2,last_ends sums.fits split before⟩
      rw [if_neg (by simp)]
      dsimp only
      split
      · next behind => exact onward start le_rfl behind word passed
      · next ahead =>
        -- a space that begins between `start` and the end of `pS` meets `pS`, or the gap would be here
        have passed' : ∀ a, range_start ≤ a → a < pS.stop → ¬Misses nodes size a := by
          intro a lowA before' misses
          by_cases early : a < start
          · exact passed a lowA early misses
          · rcases misses pS inside with above | below
            · omega
            · exact noGap ⟨by omega,by omega⟩
        have wordS := sums.nodes pS inside
        rw [add_exact wordS]
        split
        · next beyond =>
          refine ⟨by dsimp only; omega,wordS,?_,.inr beyond,passed'⟩
          rintro _ p ⟨⟩
          rw [stop]
        · exact onward pS.stop (by omega) le_rfl wordS passed'

/-- The lowest space of the range, or 0. -/
theorem alloc_first (sums : SumsFit nodes range_start range_len 0 size) (positive : 0 < size)
    (ordered : nodes.Pairwise (fun a b => a.stop ≤ b.start)) :
    IsLeast {a | Room nodes range_start range_len size a} (alloc_virtual_space nodes range_start range_len 0 size) ∨
      ((∀ a, ¬Room nodes range_start range_len size a) ∧ alloc_virtual_space nodes range_start range_len 0 size = 0) := by
  have first := walk_first sums positive ordered [] nodes range_start rfl le_rfl sums.start (by simp)
    (by intro a low high; omega)
  rw [List.getLast?_nil] at first
  have checked := @alloc_of_clear _ _ _ 0 _ _ (by rw [if_neg (by simp)]) first.clear
  rw [checked,check_limit,add_exact first.word,sums.limit]
  generalize walk range_start range_len 0 size nodes none range_start = found at first
  have low := first.low
  have nothing_before : ∀ a, Room nodes range_start range_len size a → found.start ≤ a := by
    rintro a ⟨lowA,_,misses⟩
    by_contra before
    exact first.passed a lowA (by omega) misses
  by_cases inside : found.start + size ≤ range_start + range_len
  · rw [if_pos ⟨inside,low⟩]
    have misses := first.space.resolve_right (by omega)
    exact .inl ⟨⟨low,inside,misses⟩,fun a room => nothing_before a room⟩
  · rw [if_neg (by omega)]
    refine .inr ⟨?_,rfl⟩
    intro a room
    have behind := nothing_before a room
    have limit := room.2.1
    omega

/-! ### With a desired address -/

/-- The walk comes to the first node behind a space that meets none, with the node in front of it. -/
theorem walk_clear (fits : ∀ n ∈ nodes, n.stop < modulus) (given : desired ≠ 0) (word : desired + size < modulus)
    (positive : 0 < size) (l r : List VmNode) (split : nodes = l ++ r) (before : ∀ n ∈ l, n.stop ≤ desired)
    (misses : Misses r size desired) : (walk range_start range_len desired size r l.getLast? desired).Clear := by
  induction r generalizing l with
  | nil =>
    rw [walk]
    intro _
    exact last_ends fits split before
  | cons pS r ih =>
    have step : nodes = (l ++ [pS]) ++ r := by rw [split,List.append_assoc]; rfl
    rw [walk,add_exact word]
    split
    · intro same
      cases same
    · next closed =>
      rcases misses pS (by simp) with front | behind
      · have rest := ih (l ++ [pS]) step (ends_behind le_rfl before front) (fun n member => misses n (by simp [member]))
        rwa [List.getLast?_concat] at rest
      · exact absurd ⟨by omega,behind,last_ends fits split before⟩ closed

/-- A space that is granted is one of the range, and the node is inserted in front of the nodes behind it. -/
theorem granted_room (sums : SumsFit nodes range_start range_len desired size)
    (ordered : nodes.Pairwise (fun a b => a.stop ≤ b.start))
    (word : alloc_virtual_space nodes range_start range_len desired size + size < modulus)
    (granted : alloc_virtual_space nodes range_start range_len desired size ≠ 0) :
    Room nodes range_start range_len size (alloc_virtual_space nodes range_start range_len desired size) ∧
      ∃ l r, Gap nodes l r (alloc_virtual_space nodes range_start range_len desired size) size := by
  obtain ⟨start,l,r,_,result,limit,low,split,before,behind⟩ := alloc_granted sums.fits granted
  rw [result] at word ⊢
  rw [add_exact word] at limit behind
  rw [sums.limit] at limit
  have gap : Gap nodes l r start size := gap_between ordered split before behind
  refine ⟨⟨low,limit,?_⟩,l,r,gap⟩
  intro n member
  rw [split] at member
  rcases List.mem_append.mp member with left | right
  · exact .inl (gap.before n left)
  · exact .inr (gap.behind n right).2

/-- The desired address, or 0. -/
theorem alloc_desired (sums : SumsFit nodes range_start range_len desired size)
    (ordered : nodes.Pairwise (fun a b => a.stop ≤ b.start)) (positive : 0 < size) (given : desired ≠ 0) :
    (Room nodes range_start range_len size desired ∧
        alloc_virtual_space nodes range_start range_len desired size = desired) ∨
      (¬Room nodes range_start range_len size desired ∧
        alloc_virtual_space nodes range_start range_len desired size = 0) := by
  by_cases room : Room nodes range_start range_len size desired
  · have clear := @walk_clear _ range_start range_len _ _ sums.fits given sums.desired positive
      [] nodes rfl (by simp) room.2.2
    rw [List.getLast?_nil] at clear
    have checked := alloc_of_clear (by rw [if_pos given]) clear
    rw [checked,walk_desired_start given,check_limit,add_exact sums.desired,sums.limit,
      if_pos ⟨room.2.1,room.1⟩]
    exact .inl ⟨room,rfl⟩
  · refine .inr ⟨room,?_⟩
    by_contra granted
    obtain ⟨start,l,r,walked,result,_⟩ := alloc_granted sums.fits granted
    rw [if_pos given,walk_desired_start given] at walked
    have same : alloc_virtual_space nodes range_start range_len desired size = desired := result.trans walked.symm
    have found := granted_room sums ordered (by rw [same]; exact sums.desired) granted
    rw [same] at found
    exact room found.1

/-- What is granted does not wrap. -/
theorem granted_word (sums : SumsFit nodes range_start range_len desired size)
    (ordered : nodes.Pairwise (fun a b => a.stop ≤ b.start)) (positive : 0 < size)
    (granted : alloc_virtual_space nodes range_start range_len desired size ≠ 0) :
    alloc_virtual_space nodes range_start range_len desired size + size < modulus := by
  have range := sums.range
  by_cases given : desired = 0
  · subst given
    rcases alloc_first sums positive ordered with least | ⟨_,zero⟩
    · have limit := least.1.2.1
      omega
    · exact absurd zero granted
  · rcases alloc_desired sums ordered positive given with ⟨_,same⟩ | ⟨_,zero⟩
    · rw [same]
      exact sums.desired
    · exact absurd zero granted

/-- Without a desired address the search returns the lowest space of the range, and 0 exactly when there is
    none or the lowest one is at 0; a desired address it returns exactly when the space there is in the range
    and meets no node, and 0 otherwise; and the insertion of what it returns succeeds and keeps the nodes
    one behind the other. -/
theorem gap_search_exact (sums : SumsFit nodes range_start range_len desired size)
    (ordered : nodes.Pairwise (fun a b => a.stop ≤ b.start)) (positive : 0 < size) :
    (desired = 0 →
      ((∃ a, Room nodes range_start range_len size a) → IsLeast {a | Room nodes range_start range_len size a}
        (alloc_virtual_space nodes range_start range_len desired size)) ∧
      (alloc_virtual_space nodes range_start range_len desired size = 0 ↔
        (∀ a, ¬Room nodes range_start range_len size a) ∨ Room nodes range_start range_len size 0)) ∧
    (desired ≠ 0 →
      (alloc_virtual_space nodes range_start range_len desired size = desired ↔
        Room nodes range_start range_len size desired) ∧
      (¬Room nodes range_start range_len size desired →
        alloc_virtual_space nodes range_start range_len desired size = 0)) ∧
    (alloc_virtual_space nodes range_start range_len desired size ≠ 0 → ∀ type, ∃ l r,
      nodes = l ++ r ∧ insert_virtual_space
        ⟨alloc_virtual_space nodes range_start range_len desired size,size,type⟩ nodes none =
        some (l ++ ⟨alloc_virtual_space nodes range_start range_len desired size,size,type⟩ :: r) ∧
      (l ++ ⟨alloc_virtual_space nodes range_start range_len desired size,size,type⟩ :: r).Pairwise
        (fun a b => a.stop ≤ b.start)) := by
  refine ⟨?_,?_,?_⟩
  · rintro rfl
    rcases alloc_first sums positive ordered with least | ⟨none,zero⟩
    · refine ⟨fun _ => least,?_⟩
      constructor
      · intro zero
        have room := least.1
        rw [zero] at room
        exact .inr room
      · rintro (none | atZero)
        · exact absurd least.1 (none _)
        · exact Nat.le_zero.mp (least.2 atZero)
    · exact ⟨fun ⟨a,room⟩ => absurd room (none a),fun _ => .inl none,fun _ => zero⟩
  · intro given
    rcases alloc_desired sums ordered positive given with ⟨room,same⟩ | ⟨noRoom,zero⟩
    · exact ⟨⟨fun _ => room,fun _ => same⟩,fun noRoom => absurd room noRoom⟩
    · rw [zero]
      exact ⟨⟨fun same => absurd same.symm given,fun room => absurd room noRoom⟩,fun _ => rfl⟩
  · intro granted type
    have word := granted_word sums ordered positive granted
    obtain ⟨_,l,r,gap⟩ := granted_room sums ordered word granted
    generalize alloc_virtual_space nodes range_start range_len desired size = start at *
    have after : (l ++ ⟨start,size,type⟩ :: r).Pairwise (fun a b => a.stop ≤ b.start) := Gap.ordered gap ordered
    have fits := sums.fits
    rw [gap.split] at fits
    refine ⟨l,r,gap.split,?_,after⟩
    rw [gap.split]
    exact insert_gap fits word gap.before gap.behind (by simp)

end Search

/-- The lowest space of a range that begins at 0 is no address that the search can return. -/
theorem range_at_zero : SumsFit [] 0 8192 0 4096 ∧ Room [] 0 8192 4096 0 ∧ alloc_virtual_space [] 0 8192 0 4096 = 0 := by
  refine ⟨⟨by decide,by decide,by decide,by simp⟩,⟨by decide,by decide,?_⟩,by decide⟩
  intro n member
  cases member

/-- A gap of exactly the size behind a node that reaches into the range. -/
theorem gap_search_exact_between : IsLeast {a | Room [⟨0x1000,0x2000,.priv⟩,⟨0x4000,0x1000,.priv⟩] 0x2000 0x4000 0x1000 a}
    (alloc_virtual_space [⟨0x1000,0x2000,.priv⟩,⟨0x4000,0x1000,.priv⟩] 0x2000 0x4000 0 0x1000) :=
  ((gap_search_exact ⟨by decide,by decide,by decide,by decide⟩ (by decide) (by decide)).1 rfl).1
    ⟨0x3000,by decide,by decide,by unfold Misses; decide⟩

end GridOS.Vm
