import GridOS.Vm

/-!
Runs of section creations and deletions in one process. The arithmetic of the
search is unchecked: rounding a size up to pages, adding a size to a desired
base and adding a size to the end of a node can all wrap. `Tame` says that a
creation does not meet a wrap; in runs of tame creations the list stays sorted,
disjoint and inside its ranges, and the lookup is exact.
-/
namespace GridOS.Vm
open GridOS.Words

/-- The address behind the node, in exact arithmetic. -/
def VmNode.stop (n : VmNode) : Nat := n.start + n.size

/-- The node lies in the range of its kind. -/
def Contained (arch : Arch) (cpl : Cpl) (n : VmNode) : Prop :=
  (vm_range arch cpl n.type.is_type_kernel).1 ≤ n.start ∧
    n.stop ≤ (vm_range arch cpl n.type.is_type_kernel).1 + (vm_range arch cpl n.type.is_type_kernel).2

/-- The nodes stand one behind the other, inside their ranges. -/
structure Valid (arch : Arch) (cpl : Cpl) (nodes : List VmNode) : Prop where
  fits : ∀ n ∈ nodes, n.stop < modulus
  ordered : nodes.Pairwise (fun a b => a.stop ≤ b.start)
  contained : ∀ n ∈ nodes, Contained arch cpl n

/-- The list has a gap of `size` at `start`: the nodes of `l` end before it and the nodes
    of `r` begin behind it. -/
structure Gap (nodes l r : List VmNode) (start size : Nat) : Prop where
  split : nodes = l ++ r
  before : ∀ n ∈ l, n.stop ≤ start
  behind : ∀ n ∈ r, start < n.start ∧ start + size ≤ n.start

theorem add_stop {n : VmNode} (fits : n.stop < modulus) : add n.start n.size = n.stop := add_exact fits

/-- What ends before `start` also keeps all nodes in front of it before `start`. -/
theorem before_of_last {l : List VmNode} {start : Nat} (ordered : l.Pairwise (fun a b => a.stop ≤ b.start))
    (last : ∀ n ∈ l.getLast?, n.stop ≤ start) : ∀ n ∈ l, n.stop ≤ start := by
  rcases List.eq_nil_or_concat' l with rfl | ⟨front,p,rfl⟩
  · simp
  · intro n member
    have edge := last p (by simp)
    rcases List.mem_append.mp member with early | final
    · have := (List.pairwise_append.mp ordered).2.2 n early p (by simp)
      unfold VmNode.stop at *
      omega
    · rw [List.mem_singleton.mp final]; exact edge

theorem behind_of_first {r : List VmNode} {start bound : Nat} (ordered : r.Pairwise (fun a b => a.stop ≤ b.start))
    (first : ∀ n ∈ r.head?, start < n.start ∧ bound ≤ n.start) : ∀ n ∈ r, start < n.start ∧ bound ≤ n.start := by
  cases r with
  | nil => simp
  | cons p r =>
    intro n member
    have edge := first p rfl
    rcases List.mem_cons.mp member with rfl | later
    · exact edge
    · have := (List.pairwise_cons.mp ordered).1 n later
      unfold VmNode.stop at this
      omega

/-- How the loop ends: in front of a node that begins behind `start`, or at the end of the
    list, or with a start whose space passes the limit. -/
inductive Ends (range_start range_len size : Nat) (nodes : List VmNode) : Found → Prop
  | gap {l r : List VmNode} {start : Nat} {pS : VmNode} (split : nodes = l ++ r) (next : r.head? = some pS)
      (before : ∀ n ∈ l.getLast?, n.stop ≤ start) (behind : start < pS.start) (room : add start size ≤ pS.start) :
      Ends range_start range_len size nodes ⟨start,false,some pS⟩
  | last {start : Nat} : Ends range_start range_len size nodes ⟨start,true,nodes.getLast?⟩
  | limit {start : Nat} {pS : Option VmNode} (passed : add start size > add range_start range_len) :
      Ends range_start range_len size nodes ⟨start,true,pS⟩

theorem walk_ends (range_start range_len desired size : Nat) {nodes : List VmNode} (fits : ∀ n ∈ nodes, n.stop < modulus)
    (l r : List VmNode) (start : Nat) (split : nodes = l ++ r) :
    Ends range_start range_len size nodes (walk range_start range_len desired size r l.getLast? start) := by
  induction r generalizing l start with
  | nil =>
    rw [List.append_nil] at split
    rw [walk,← split]
    exact .last
  | cons pS r ih =>
    have step : nodes = (l ++ [pS]) ++ r := by rw [split,List.append_assoc]; rfl
    have next : ∀ start, Ends range_start range_len size nodes
        (walk range_start range_len desired size r (some pS) start) := by
      intro start
      have := ih (l ++ [pS]) start step
      rwa [List.getLast?_concat] at this
    rw [walk]
    split
    · next gap =>
      refine .gap split rfl ?_ gap.1 gap.2.1
      intro p last
      rw [← add_stop (fits p (by simp [split,List.mem_of_getLast? last]))]
      exact gap.2.2 p last
    · split
      · exact next start
      · dsimp only
        split
        · exact next start
        · split
          · next passed => exact .limit passed
          · exact next _

/-- A space that is granted: between two neighbours, and within the limit as the code computes it. -/
theorem alloc_granted {nodes : List VmNode} {range_start range_len desired size : Nat}
    (fits : ∀ n ∈ nodes, n.stop < modulus)
    (granted : alloc_virtual_space nodes range_start range_len desired size ≠ 0) :
    ∃ start l r,
      (walk range_start range_len desired size nodes none (if desired ≠ 0 then desired else range_start)).start = start ∧
      alloc_virtual_space nodes range_start range_len desired size = start ∧
      add start size ≤ add range_len range_start ∧ range_start ≤ start ∧ nodes = l ++ r ∧
      (∀ n ∈ l.getLast?, n.stop ≤ start) ∧ ∀ n ∈ r.head?, start < n.start ∧ add start size ≤ n.start := by
  have ends := walk_ends range_start range_len desired size fits [] nodes
    (if desired ≠ 0 then desired else range_start) rfl
  rw [List.getLast?_nil] at ends
  unfold alloc_virtual_space at granted ⊢
  dsimp only at granted ⊢
  generalize walk range_start range_len desired size nodes none (if desired ≠ 0 then desired else range_start) = found at *
  split at granted
  · exact absurd rfl granted
  · next free =>
    have limit : add found.start size ≤ add range_len range_start ∧ found.start ≥ range_start := by
      by_contra outside
      rw [check_limit,if_neg outside] at granted
      exact granted rfl
    rw [if_neg free,check_limit,if_pos limit]
    refine ⟨found.start,?_⟩
    cases ends with
    | gap split next before behind room =>
      refine ⟨_,_,rfl,rfl,limit.1,limit.2,split,before,?_⟩
      intro n first
      rw [next] at first
      cases first
      exact ⟨behind,room⟩
    | last =>
      refine ⟨nodes,[],rfl,rfl,limit.1,limit.2,by simp,?_,by simp⟩
      intro n last
      by_contra late
      refine free ⟨rfl,n,last,?_⟩
      rw [add_stop (fits n (List.mem_of_getLast? last))]
      exact late
    | limit passed =>
      have order : add range_start range_len = add range_len range_start := by rw [add,add,Nat.add_comm]
      dsimp only at limit
      rw [order] at passed
      exact absurd limit.1 (Nat.not_le.mpr passed)

theorem walk_desired_start {range_start range_len desired size : Nat} (given : desired ≠ 0) (nodes : List VmNode)
    (pP : Option VmNode) (start : Nat) : (walk range_start range_len desired size nodes pP start).start = start := by
  induction nodes generalizing pP with
  | nil => rfl
  | cons pS rest ih =>
    rw [walk]
    split
    · rfl
    · exact ih _

/-- The first fit search meets no sum that wraps: not at the start of the range, and not
    at the end of any node that it passes before it finds a gap or passes the limit. -/
def NoWrap (size limit : Nat) : Nat → List VmNode → Prop
  | start, [] => start + size < modulus
  | start, n :: rest => start + size < modulus ∧ (¬ (start < n.start ∧ start + size ≤ n.start) →
    if n.stop ≤ start then NoWrap size limit start rest
    else n.stop + size < modulus ∧ (n.stop + size ≤ limit → NoWrap size limit n.stop rest))

theorem walk_no_wrap {range_start range_len size : Nat} {nodes : List VmNode} (fits : ∀ n ∈ nodes, n.stop < modulus)
    (range : range_start + range_len < modulus) {pP : Option VmNode} {start : Nat} (before : ∀ p ∈ pP, p.stop ≤ start)
    (known : ∀ p ∈ pP, p.stop < modulus) (noWrap : NoWrap size (range_start + range_len) start nodes) :
    (walk range_start range_len 0 size nodes pP start).start + size < modulus := by
  induction nodes generalizing pP start with
  | nil => exact noWrap
  | cons pS rest ih =>
    obtain ⟨here,later⟩ := noWrap
    have stop := add_stop (fits pS (by simp))
    have fitsRest : ∀ n ∈ rest, n.stop < modulus := fun n member => fits n (by simp [member])
    rw [walk,add_exact here,add_exact range,stop]
    split
    · exact here
    · next closed =>
      have noGap : ¬ (start < pS.start ∧ start + size ≤ pS.start) := by
        intro gap
        refine closed ⟨gap.1,gap.2,?_⟩
        intro p first
        rw [add_stop (known p first)]
        exact before p first
      have rest' := later noGap
      have knownS : ∀ p ∈ some pS, p.stop < modulus := by
        intro p same
        cases same
        exact fits pS (by simp)
      rw [if_neg (by simp)]
      dsimp only
      split
      · next passed =>
        rw [if_pos passed] at rest'
        exact ih fitsRest (by intro p same; cases same; exact passed) knownS rest'
      · next ahead =>
        rw [if_neg ahead] at rest'
        rw [add_exact rest'.1]
        split
        · exact rest'.1
        · next inside =>
          exact ih fitsRest (by intro p same; cases same; exact le_rfl) knownS (rest'.2 (by omega))

/-! ### Inserting -/

theorem insert_longer {who : VmNode} {nodes after : List VmNode} {before : Option VmNode}
    (done : insert_virtual_space who nodes before = some after) : after.length = nodes.length + 1 := by
  induction nodes generalizing before after with
  | nil =>
    rw [insert_virtual_space] at done
    split at done
    · cases done
      rfl
    · cases done
  | cons p rest ih =>
    rw [insert_virtual_space] at done
    split at done
    · cases done
      rfl
    · obtain ⟨after',inserted,rfl⟩ := Option.map_eq_some_iff.mp done
      rw [List.length_cons,ih inserted,List.length_cons]

theorem insert_gap {who : VmNode} {l r : List VmNode} {p : Option VmNode} (fits : ∀ n ∈ l ++ r, n.stop < modulus)
    (self : who.stop < modulus) (before : ∀ n ∈ l, n.stop ≤ who.start)
    (behind : ∀ n ∈ r, who.start < n.start ∧ who.stop ≤ n.start)
    (front : ∀ n ∈ p, n.stop ≤ who.start ∧ n.stop < modulus) :
    insert_virtual_space who (l ++ r) p = some (l ++ who :: r) := by
  induction l generalizing p with
  | nil =>
    cases r with
    | nil =>
      rw [List.append_nil,insert_virtual_space,if_pos]
      · rfl
      · intro n last
        rw [add_stop (front n last).2]
        exact (front n last).1
    | cons n r =>
      have first := behind n (by simp)
      rw [List.nil_append,insert_virtual_space,add_stop self,if_pos first]
      rfl
  | cons n l ih =>
    have early := before n (by simp)
    have notHere : ¬ (n.start > who.start ∧ n.start ≥ add who.start who.size) := by
      rintro ⟨later,_⟩
      unfold VmNode.stop at early
      omega
    rw [List.cons_append,insert_virtual_space,if_neg notHere,ih]
    · rfl
    · intro m member; exact fits m (by simp_all)
    · intro m member; exact before m (by simp [member])
    · intro m same
      cases same
      exact ⟨early,fits n (by simp)⟩

/-- A gap between the last node that ends before it and the first one that begins behind it. -/
theorem gap_between {nodes l r : List VmNode} {start size : Nat} (ordered : nodes.Pairwise (fun a b => a.stop ≤ b.start))
    (split : nodes = l ++ r) (before : ∀ n ∈ l.getLast?, n.stop ≤ start)
    (behind : ∀ n ∈ r.head?, start < n.start ∧ start + size ≤ n.start) : Gap nodes l r start size := by
  rw [split] at ordered
  obtain ⟨left,right,_⟩ := List.pairwise_append.mp ordered
  exact ⟨split,before_of_last left before,behind_of_first right behind⟩

/-- A node that is put into a gap keeps the nodes one behind the other. -/
theorem Gap.ordered {nodes l r : List VmNode} {who : VmNode} (gap : Gap nodes l r who.start who.size)
    (ordered : nodes.Pairwise (fun a b => a.stop ≤ b.start)) : (l ++ who :: r).Pairwise (fun a b => a.stop ≤ b.start) := by
  rw [gap.split] at ordered
  obtain ⟨left,right,across⟩ := List.pairwise_append.mp ordered
  refine List.pairwise_append.mpr ⟨left,List.pairwise_cons.mpr ⟨fun n member => (gap.behind n member).2,right⟩,?_⟩
  intro n inL m inR
  rcases List.mem_cons.mp inR with rfl | inR
  · exact gap.before n inL
  · exact across n inL m inR

/-- What holds of the nodes and of the new one holds of all of them. -/
theorem Gap.forall {nodes l r : List VmNode} {who : VmNode} {start size : Nat} {p : VmNode → Prop} (gap : Gap nodes l r start size)
    (old : ∀ n ∈ nodes, p n) (new : p who) : ∀ n ∈ l ++ who :: r, p n := by
  intro n member
  rw [gap.split] at old
  rcases List.mem_append.mp member with left | right
  · exact old n (List.mem_append_left r left)
  · rcases List.mem_cons.mp right with rfl | right
    · exact new
    · exact old n (List.mem_append_right l right)

/-- A node in a gap. -/
theorem valid_insert {arch : Arch} {cpl : Cpl} {nodes l r : List VmNode} {who : VmNode} (valid : Valid arch cpl nodes)
    (gap : Gap nodes l r who.start who.size) (self : who.stop < modulus) (contained : Contained arch cpl who) :
    insert_virtual_space who nodes none = some (l ++ who :: r) ∧ Valid arch cpl (l ++ who :: r) := by
  have fits := valid.fits
  rw [gap.split] at fits
  refine ⟨?_,gap.forall valid.fits self,gap.ordered valid.ordered,gap.forall valid.contained contained⟩
  rw [gap.split]
  exact insert_gap fits self gap.before gap.behind (by simp)

/-! ### Creating -/

/-- The desired base is refused whatever wraps: below the range, inside a node, or, for an
    empty section, behind the range. -/
def Refused (nodes : List VmNode) (range node : Nat × Nat) : Prop :=
  node.1 < range.1 ∨ (∃ n ∈ nodes, n.start ≤ node.1 ∧ node.1 < n.stop) ∨
    (node.2 = 0 ∧ add range.1 range.2 < node.1)

/-- A creation that meets no wrap: the size can be rounded up, and for a desired base the
    end of the space, else every end that the search tries, stays below the top of the
    address space; or the base is refused for another reason. -/
def Tame (arch : Arch) (cpl : Cpl) (nodes : List VmNode) (type : SectionType) (base size : Nat) : Prop :=
  let range := vm_range arch cpl type.is_type_kernel
  let node := vm_desired arch cpl type.is_type_kernel base size
  if node.1 = 0 then size ≤ node.2 ∧ NoWrap node.2 (range.1 + range.2) range.1 nodes
  else Refused nodes range node ∨ (size ≤ node.2 ∧ node.1 + node.2 < modulus)

theorem refused_alloc {arch : Arch} {cpl : Cpl} {nodes : List VmNode} {range node : Nat × Nat}
    (valid : Valid arch cpl nodes) (given : node.1 ≠ 0) (word : node.1 < modulus) (refused : Refused nodes range node) :
    alloc_virtual_space nodes range.1 range.2 node.1 node.2 = 0 := by
  by_contra granted
  obtain ⟨start,l,r,walked,_,limit,low,split,before,behind⟩ := alloc_granted valid.fits granted
  rw [if_pos given,walk_desired_start given] at walked
  subst walked
  have order : add range.1 range.2 = add range.2 range.1 := by rw [add,add,Nat.add_comm]
  have ordered := valid.ordered
  rw [split] at ordered
  obtain ⟨orderedL,orderedR,_⟩ := List.pairwise_append.mp ordered
  rcases refused with below | ⟨n,member,inside⟩ | ⟨empty,above⟩
  · omega
  · rw [split] at member
    rcases List.mem_append.mp member with left | right
    · have := before_of_last orderedL before n left
      omega
    · have := behind_of_first orderedR behind n right
      omega
  · rw [empty,add_exact (by omega)] at limit
    omega

private theorem window_exact (arch : Arch)
    (noWrap : arch.kernel_base = 0 ∨ arch.kernel_base + align (sub arch.kernel_base user_start) < modulus) :
    arch.kernel_base + sub arch.kernel_base user_start < modulus := by
  revert noWrap
  cases arch <;> decide

private theorem user_exact (arch : Arch) : user_start + sub arch.kernel_base user_start < modulus := by
  cases arch <;> decide

/-- Every range of `get_vm_range` ends below the top, but for the kernel's window on ARM. -/
theorem range_exact (arch : Arch) (cpl : Cpl) (kernel : Bool) (base size : Nat)
    (noWrap : (vm_desired arch cpl kernel base size).1 = 0 ∨
      (vm_desired arch cpl kernel base size).1 + (vm_desired arch cpl kernel base size).2 < modulus) :
    (vm_range arch cpl kernel).1 + (vm_range arch cpl kernel).2 < modulus := by
  cases cpl with
  | cpl0 =>
    show add arch.kernel_base arch.kernel_mem_len + sub arch.kernel_vm_len PAGE_SIZE < modulus
    cases arch <;> decide
  | cpl0_fake =>
    cases kernel with
    | false => exact user_exact arch
    | true => exact window_exact arch noWrap
  | user =>
    cases kernel with
    | false => exact user_exact arch
    | true => exact window_exact arch noWrap

/-- A place in the process: one more section, that does not start at 0. -/
theorem km_vm_create_made {arch : Arch} {cpl : Cpl} {before vm_list : List VmNode} {type : SectionType} {base size : Nat}
    {node : VmNode} (made : km_vm_create arch cpl before type base size = some (node,vm_list)) : vm_list ≠ before ∧ node.start ≠ 0 := by
  simp only [km_vm_create] at made
  split at made
  · cases made
  · rename_i start
    obtain ⟨after,inserted,same⟩ := Option.map_eq_some_iff.mp made
    obtain ⟨rfl,rfl⟩ := Prod.mk.inj same
    refine ⟨?_,start⟩
    rintro rfl
    have := insert_longer inserted
    omega

/-- A creation that succeeds without a wrap puts a node of the size asked for into a gap. -/
theorem km_vm_create_valid {arch : Arch} {cpl : Cpl} {nodes nodes' : List VmNode} {type : SectionType} {base size : Nat}
    {node : VmNode} (valid : Valid arch cpl nodes) (word : base < modulus) (tame : Tame arch cpl nodes type base size)
    (done : km_vm_create arch cpl nodes type base size = some (node,nodes')) :
    Valid arch cpl nodes' ∧ size ≤ node.size := by
  unfold km_vm_create at done
  unfold Tame at tame
  dsimp only at done tame
  have wordNode : (vm_desired arch cpl type.is_type_kernel base size).1 < modulus := by
    unfold vm_desired
    split
    · exact word
    · split
      · cases arch <;> decide
      · exact word
  have exactRange := range_exact arch cpl type.is_type_kernel base size
  generalize rangeEq : vm_range arch cpl type.is_type_kernel = range at *
  generalize vm_desired arch cpl type.is_type_kernel base size = desired at *
  split at done
  · cases done
  · next granted =>
    have accepted : size ≤ desired.2 ∧ range.1 + range.2 < modulus ∧
        (walk range.1 range.2 desired.1 desired.2 nodes none (if desired.1 ≠ 0 then desired.1 else range.1)).start +
          desired.2 < modulus := by
      by_cases auto : desired.1 = 0
      · rw [if_pos auto] at tame
        have exact := exactRange (.inl auto)
        refine ⟨tame.1,exact,?_⟩
        rw [auto,if_neg (by simp)]
        exact walk_no_wrap valid.fits exact (by simp) (by simp) tame.2
      · rw [if_neg auto] at tame
        rcases tame with refused | ⟨enough,noWrap⟩
        · exact absurd (refused_alloc valid auto wordNode refused) granted
        · exact ⟨enough,exactRange (.inr noWrap),by rw [if_pos auto,walk_desired_start auto]; exact noWrap⟩
    obtain ⟨enough,exact,noWrap⟩ := accepted
    obtain ⟨start,l,r,walked,result,limit,low,split,before,behind⟩ := alloc_granted valid.fits granted
    rw [walked] at noWrap
    rw [add_exact noWrap,add_exact (by omega),Nat.add_comm range.2] at limit
    rw [add_exact noWrap] at behind
    let who : VmNode := ⟨start,desired.2,type⟩
    have gap : Gap nodes l r who.start who.size := gap_between valid.ordered split before behind
    have inRange : Contained arch cpl who := by rw [Contained,rangeEq]; exact ⟨low,limit⟩
    obtain ⟨inserted,valid'⟩ := valid_insert valid gap noWrap inRange
    rw [result,inserted] at done
    cases done
    exact ⟨valid',enough⟩

/-! ### Looking up -/

/-- The node contains the address, in exact arithmetic. -/
def VmNode.Contains (n : VmNode) (address : Nat) : Prop := n.start ≤ address ∧ address < n.stop

/-- The lookup is exact: the section of a mapped address, and no other, or nothing. -/
def Exact (nodes : List VmNode) (address : Nat) : Prop :=
  match ks_get_by_vaddress nodes address with
  | some n => n ∈ nodes ∧ n.Contains address ∧ ∀ m ∈ nodes, m.Contains address → m = n
  | none => ∀ n ∈ nodes, ¬ n.Contains address

theorem valid_exact {arch : Arch} {cpl : Cpl} {nodes : List VmNode} (valid : Valid arch cpl nodes) (address : Nat) :
    Exact nodes address := by
  have fits := valid.fits
  have ordered := valid.ordered
  clear valid
  unfold Exact
  induction nodes with
  | nil => intro n member; cases member
  | cons p rest ih =>
    obtain ⟨after,orderedRest⟩ := List.pairwise_cons.mp ordered
    have stop := add_stop (fits p (by simp))
    rw [ks_get_by_vaddress,stop]
    by_cases here : p.start ≤ address ∧ address < p.stop
    · rw [if_pos here]
      refine ⟨by simp,here,?_⟩
      intro m member contains
      rcases List.mem_cons.mp member with same | later
      · exact same
      · have := after m later
        unfold VmNode.Contains at contains
        omega
    · rw [if_neg here]
      by_cases beyond : p.start > address
      · rw [if_pos beyond]
        intro m member contains
        rcases List.mem_cons.mp member with rfl | later
        · exact here contains
        · have := after m later
          unfold VmNode.Contains at contains
          unfold VmNode.stop at *
          omega
      · rw [if_neg beyond]
        have result := ih (fun n member => fits n (by simp [member])) orderedRest
        cases found : ks_get_by_vaddress rest address with
        | none =>
          rw [found] at result
          intro m member contains
          rcases List.mem_cons.mp member with rfl | later
          · exact here contains
          · exact result m later contains
        | some n =>
          rw [found] at result
          obtain ⟨inRest,contains,unique⟩ := result
          refine ⟨by simp [inRest],contains,?_⟩
          intro m member contains'
          rcases List.mem_cons.mp member with rfl | later
          · exact absurd contains' here
          · exact unique m later contains'

/-! ### Runs -/

/-- The lists reached by creations and deletions, every creation meeting `allowed`. -/
inductive Run (arch : Arch) (cpl : Cpl) (allowed : List VmNode → SectionType → Nat → Nat → Prop) : List VmNode → Prop
  | init : Run arch cpl allowed []
  | create {nodes nodes' : List VmNode} {type : SectionType} {base size : Nat} {node : VmNode}
      (run : Run arch cpl allowed nodes) (wordBase : base < modulus) (wordSize : size < modulus)
      (condition : allowed nodes type base size)
      (done : km_vm_create arch cpl nodes type base size = some (node,nodes')) : Run arch cpl allowed nodes'
  | delete {nodes : List VmNode} {node : VmNode} (run : Run arch cpl allowed nodes) (member : node ∈ nodes) :
      Run arch cpl allowed (km_vm_delete nodes node)

/-- What a range list should be in every state: sorted, without wraps, disjoint, inside the
    ranges, with an exact lookup, and a creation that is allowed covers the size asked for. -/
structure Disciplined (arch : Arch) (cpl : Cpl) (allowed : List VmNode → SectionType → Nat → Nat → Prop)
    (nodes : List VmNode) : Prop where
  sorted : nodes.Pairwise (fun a b => a.start ≤ b.start)
  unwrapped : ∀ n ∈ nodes, n.start + n.size ≤ modulus
  disjoint : nodes.Pairwise (fun a b => a.stop ≤ b.start ∨ b.stop ≤ a.start)
  contained : ∀ n ∈ nodes, Contained arch cpl n
  covered : ∀ type base size node nodes', base < modulus → size < modulus → allowed nodes type base size →
    km_vm_create arch cpl nodes type base size = some (node,nodes') → size ≤ node.size
  lookup : ∀ address < modulus, Exact nodes address

theorem run_valid {arch : Arch} {cpl : Cpl} {nodes : List VmNode} (run : Run arch cpl (Tame arch cpl) nodes) :
    Valid arch cpl nodes := by
  induction run with
  | init => exact ⟨by simp,.nil,by simp⟩
  | create run wordBase _ tame done valid => exact (km_vm_create_valid valid wordBase tame done).1
  | delete run member valid =>
    exact ⟨fun n inside => valid.fits n (List.mem_of_mem_erase inside),valid.ordered.sublist List.erase_sublist,
      fun n inside => valid.contained n (List.mem_of_mem_erase inside)⟩

/-- In every run whose creations meet no wrap, every state is disciplined. -/
theorem tame_run_disciplined {arch : Arch} {cpl : Cpl} {nodes : List VmNode}
    (run : Run arch cpl (Tame arch cpl) nodes) : Disciplined arch cpl (Tame arch cpl) nodes := by
  have valid := run_valid run
  constructor
  · refine valid.ordered.imp ?_
    intro a b order
    unfold VmNode.stop at order
    omega
  · intro n member; exact (valid.fits n member).le
  · exact valid.ordered.imp .inl
  · exact valid.contained
  · intro type base size node nodes' wordBase _ tame done
    exact (km_vm_create_valid valid wordBase tame done).2
  · intro address _
    exact valid_exact valid address

/-- A user process with the kernel's window and a section at the start of its range. -/
theorem tame_run_disciplined_two_sections : ∃ nodes, nodes.length = 2 ∧ Disciplined .i386 .user (Tame .i386 .user) nodes := by
  have window : km_vm_create .i386 .user [] .kernel 0 0 = some (⟨0x80000000,0x7fc00000,.kernel⟩,[⟨0x80000000,0x7fc00000,.kernel⟩]) := by
    decide
  have section_ : km_vm_create .i386 .user [⟨0x80000000,0x7fc00000,.kernel⟩] .priv 0 0x1001 =
      some (⟨0x400000,0x2000,.priv⟩,[⟨0x400000,0x2000,.priv⟩,⟨0x80000000,0x7fc00000,.kernel⟩]) := by decide
  have tameWindow : Tame .i386 .user [] .kernel 0 0 := .inr (by decide)
  have tameSection : Tame .i386 .user [⟨0x80000000,0x7fc00000,.kernel⟩] .priv 0 0x1001 :=
    ⟨by decide,by decide,fun closed => absurd (by decide) closed⟩
  have first : Run .i386 .user (Tame .i386 .user) _ := .create .init (by decide) (by decide) tameWindow window
  have second := Run.create first (by decide) (by decide) tameSection section_
  exact ⟨_,rfl,tame_run_disciplined second⟩

/-- A section of two pages at the last page of the address space is granted to a user process. -/
theorem creation_wraps : ¬ ∀ arch cpl nodes, Run arch cpl (fun _ _ _ _ => True) nodes →
    Disciplined arch cpl (fun _ _ _ _ => True) nodes := by
  intro always
  have created : km_vm_create .i386 .user [] .priv 0xfffff000 0x2000 =
      some (⟨0xfffff000,0x2000,.priv⟩,[⟨0xfffff000,0x2000,.priv⟩]) := by decide
  have run : Run .i386 .user (fun _ _ _ _ => True) _ := .create .init (by decide) (by decide) trivial created
  have below := (always .i386 .user _ run).unwrapped ⟨0xfffff000,0x2000,.priv⟩ (by simp)
  revert below
  decide

end GridOS.Vm
