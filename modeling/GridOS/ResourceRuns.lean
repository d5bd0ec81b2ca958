import GridOS.Resource

/-!
Insertions and adjustments in the resource tree of `source/drivers/hal/main/resource.c`, and whole runs
of calls.
-/
namespace GridOS.Resource

variable {parent res new t : resource} {x y : Range} {child before after : List resource}

/-! ### Insertions -/

/-- What is in the way of an insertion, apart from the range of the root: a range that meets the new one
    and is neither around it nor inside it. -/
def Insertable (range : Range) (parent : resource) : Prop :=
  Fits (.mk range []) parent ∧ ∀ x ∈ descendants parent, Apart x range ∨ Within range x ∨ Within x range

/-- The siblings that meet the new range are taken in when they are all inside it. -/
theorem adopt_spec {new next : resource} {siblings : List resource}
    (apart : (next :: siblings).Pairwise (fun a b => a.end_ < b.start))
    (nonempty : ∀ c ∈ next :: siblings, c.start ≤ c.end_) (meets : next.start ≤ new.end_) :
    (∃ inner rest, adopt new next siblings = some (inner,rest) ∧ next :: siblings = inner ++ rest ∧
      (∀ c ∈ inner, new.start ≤ c.start ∧ c.end_ ≤ new.end_) ∧ ∀ a ∈ rest, new.end_ < a.start) ∨
    (adopt new next siblings = none ∧ ∃ x ∈ next :: siblings, x.start ≤ new.end_ ∧
      (x.start < new.start ∨ x.end_ > new.end_)) := by
  induction siblings generalizing next with
  | nil =>
    rw [adopt]
    split
    case isTrue out => exact .inr ⟨rfl,next,List.mem_cons_self,meets,out⟩
    case isFalse inside =>
      refine .inl ⟨[next],[],rfl,rfl,?_,fun _ mem => absurd mem List.not_mem_nil⟩
      intro c mem
      rw [List.mem_singleton.mp mem]
      omega
  | cons sibling more ih =>
    rw [adopt]
    split
    case isTrue out => exact .inr ⟨rfl,next,List.mem_cons_self,meets,out⟩
    case isFalse inside =>
      obtain ⟨-,apart'⟩ := List.pairwise_cons.mp apart
      have nonempty' : ∀ c ∈ sibling :: more, c.start ≤ c.end_ := fun c mem => nonempty c (List.mem_cons_of_mem _ mem)
      split
      case isTrue above =>
        refine .inl ⟨[next],_,rfl,rfl,?_,?_⟩
        · intro c mem
          rw [List.mem_singleton.mp mem]
          omega
        · intro a mem
          cases mem with
          | head => exact above
          | tail _ mem =>
            have := (List.pairwise_cons.mp apart').1 a mem
            have := nonempty' sibling List.mem_cons_self
            omega
      case isFalse reaches =>
        obtain ⟨inner,rest,result,split,within,high⟩ | ⟨result,x,mem,out⟩ := ih apart' nonempty' (by omega)
        · rw [result]
          refine .inl ⟨next :: inner,rest,rfl,by rw [split]; rfl,?_,high⟩
          intro c mem
          cases mem with
          | head => omega
          | tail _ mem => exact within c mem
        · rw [result]
          exact .inr ⟨rfl,x,List.mem_cons_of_mem _ mem,out⟩

theorem child_range {c : resource} (here : c ∈ parent.child) : c.range ∈ descendants parent :=
  List.mem_flatMap.mpr ⟨c,here,by rw [ranges_eq]; exact List.mem_cons_self⟩

/-- The new resource takes children in. -/
theorem Valid.adopted (valid : Valid parent) {range : Range} (some_range : range.start ≤ range.end_)
    (fits : Fits (.mk range []) parent) {inner : List resource} (split : parent.child = before ++ inner ++ after)
    (low : ∀ b ∈ before, b.end_ < range.start) (within : ∀ c ∈ inner, range.start ≤ c.start ∧ c.end_ ≤ range.end_)
    (high : ∀ a ∈ after, range.end_ < a.start) :
    Taken parent range (parent.with_child (before ++ .mk range inner :: after)) := by
  have valid_new : Valid (.mk range inner) := by
    cases valid with
    | @mk own child le inside apart all =>
      change child = _ at split
      subst split
      refine .mk some_range within ?_ fun c mem => all c (by simp [mem])
      exact (List.pairwise_append.mp (List.pairwise_append.mp apart).1).2.1
  have taken : Taken parent range (parent.with_child (before ++ [.mk range inner] ++ after)) := valid.taken split
    (by simpa using valid_new)
    (List.pairwise_singleton ..)
    (by intro c mem; rw [List.mem_singleton.mp mem]; exact fits)
    (by intro b mem c mem'; rw [List.mem_singleton.mp mem']; exact low b mem)
    (by intro a mem c mem'; rw [List.mem_singleton.mp mem']; exact high a mem)
    (by rw [List.flatMap_singleton,ranges])
  simpa using taken

theorem insert_resource_spec (valid : Valid parent) {range : Range} (some_range : range.start ≤ range.end_) :
    (∃ t, insert_resource parent (.mk range []) = some t ∧ Taken parent range t ∧ Insertable range parent) ∨
      (insert_resource parent (.mk range []) = none ∧ ¬ Insertable range parent) := by
  induction valid with
  | @mk own child le inside apart all ih =>
    have valid : Valid (.mk own child) := .mk le inside apart all
    have requested : Requested _ (.mk range []) _ := valid.requested some_range
    rw [insert_resource]
    split
    case h_1 linked found =>
      rw [found] at requested
      cases requested with
      | linked fits split low high =>
        refine .inl ⟨_,rfl,valid.linked some_range fits split low high,fits,fun x mem => ?_⟩
        rw [descendants,split,List.flatMap_append,List.mem_append] at mem
        obtain mem | mem := mem
        · exact .inl (.inl (valid.below_before split low x mem))
        · exact .inl (.inr (valid.below_after split high x mem))
    case h_2 found =>
      rw [found] at requested
      cases requested with
      | root outside => exact .inr ⟨rfl,fun insertable => outside insertable.1⟩
    case h_3 before first after found =>
      rw [found] at requested
      cases requested with
      | conflict fits split low meets =>
        have split' : child = before ++ first :: after := split
        have first_here : first ∈ child := by simp [split']
        split
        case isTrue partly =>
          have siblings : (first :: after).Pairwise (fun a b => a.end_ < b.start) := by
            rw [split'] at apart
            exact (List.pairwise_append.mp apart).2.1
          have nonempty : ∀ c ∈ first :: after, c.start ≤ c.end_ := fun c mem =>
            (all c (by rw [split']; exact List.mem_append_right _ mem)).le
          obtain ⟨inner,rest,result,parts,within,high⟩ | ⟨result,x,mem,reaches,out⟩ :=
            adopt_spec siblings nonempty meets.1
          · have split'' : (resource.mk own child).child = before ++ inner ++ rest := by
              rw [split,parts,List.append_assoc]
            rw [result]
            refine .inl ⟨_,rfl,valid.adopted some_range fits split'' low within high,fits,fun x mem => ?_⟩
            rw [descendants,split'',List.flatMap_append,List.flatMap_append,List.mem_append,List.mem_append] at mem
            obtain (mem | mem) | mem := mem
            · exact .inl (.inl (valid.below_before (by rw [split'',List.append_assoc]) low x mem))
            · obtain ⟨c,here,mem⟩ := List.mem_flatMap.mp mem
              have valid_c : Valid c := all c (by
                have : child = before ++ inner ++ rest := split''
                simp [this,here])
              have inside_c := (valid_c.ranges_within x mem).1
              have inside_new := within c here
              exact .inr (.inr ⟨Nat.le_trans inside_new.1 inside_c.1,Nat.le_trans inside_c.2 inside_new.2⟩)
            · exact .inl (.inr (valid.below_after split'' high x mem))
          · rw [result]
            refine .inr ⟨rfl,fun insertable => ?_⟩
            have here : x ∈ child := by rw [split']; exact List.mem_append_right _ mem
            have above : range.start ≤ x.end_ ∧ (x.start ≤ range.start → x = first) := by
              cases mem with
              | head => exact ⟨meets.2,fun _ => rfl⟩
              | tail _ mem =>
                have later := (List.pairwise_cons.mp siblings).1 x mem
                have some_x := nonempty x (List.mem_cons_of_mem _ mem)
                have reach : range.start ≤ first.end_ := meets.2
                exact ⟨by omega,fun low => by omega⟩
            have out' : x.start < range.start ∨ x.end_ > range.end_ := out
            have reaches' : x.start ≤ range.end_ := reaches
            obtain (apart | apart) | around | inside := insertable.2 x.range (child_range here)
            · exact Nat.not_lt.mpr above.1 apart
            · exact Nat.not_lt.mpr reaches' apart
            · -- only the first one can be around the new range, and then it is the same range
              obtain rfl := above.2 around.1
              have low' : x.start ≤ range.start := around.1
              have high' : range.end_ ≤ x.end_ := around.2
              have partly' : x.start > range.start ∨ x.end_ < range.end_ ∨
                (x.start = range.start ∧ x.end_ = range.end_) := partly
              omega
            · have low' : range.start ≤ x.start := inside.1
              have high' : x.end_ ≤ range.end_ := inside.2
              omega
        case isFalse around =>
          have around' : ¬ (first.start > range.start ∨ first.end_ < range.end_ ∨
            (first.start = range.start ∧ first.end_ = range.end_)) := around
          have fits_first : Fits (.mk range []) first := by
            change first.start ≤ range.start ∧ range.end_ ≤ first.end_
            omega
          have decides : Insertable range (.mk own child) ↔ Insertable range first := by
            constructor
            · exact fun insertable => ⟨fits_first,fun x mem => insertable.2 x (by
                rw [descendants_eq split]
                simp [mem])⟩
            · refine fun insertable => ⟨fits,fun x mem => ?_⟩
              rw [descendants_eq split,List.mem_append,List.mem_append,List.mem_cons] at mem
              obtain (mem | rfl | mem) | mem := mem
              · exact .inl (.inl (valid.below_before split low x mem))
              · exact .inr (.inl fits_first)
              · exact insertable.2 x mem
              · have above := valid.below_after (split_behind split) (valid.split split).2.2.2 x mem
                exact .inl (.inr (Nat.lt_of_le_of_lt fits_first.2 above))
          rw [decides]
          obtain ⟨t,result,taken,insertable⟩ | ⟨result,refused⟩ := ih first first_here
          · rw [result]
            exact .inl ⟨_,rfl,valid.descended split taken,insertable⟩
          · rw [result]
            exact .inr ⟨rfl,refused⟩

/-! ### Adjustments -/

theorem ranges_with_child (split : child = before ++ res :: after) :
    ranges (parent.with_child child) = parent.range :: (before.flatMap ranges ++ ranges res ++ after.flatMap ranges) := by
  rw [ranges_eq,descendants]
  change parent.range :: child.flatMap ranges = _
  rw [split,List.flatMap_append,List.flatMap_cons,List.append_assoc]

theorem perm_out (a x : Range) (front middle back : List Range) :
    (a :: (front ++ (x :: middle) ++ back)).Perm (x :: a :: (front ++ middle ++ back)) := by
  refine (List.Perm.cons a ?_).trans (List.Perm.swap ..)
  rw [List.append_assoc,List.append_assoc,List.cons_append]
  exact List.perm_middle

/-- The range of one resource has been changed, and is apart from all that it was apart from. -/
structure Adjusted (root : resource) (start end_ : Nat) (t : resource) : Prop where
  valid : Valid t
  ranges : ∃ old rest, (ranges root).Perm (old :: rest) ∧ (ranges t).Perm ({ old with start,end_ } :: rest) ∧
    ∀ x ∈ rest, Apart x old → Apart x { old with start,end_ }

theorem children_inside_iff {start end_ : Nat} :
    children_inside res start end_ = true ↔ ∀ c ∈ res.child, start ≤ c.start ∧ c.end_ ≤ end_ := by
  rw [children_inside,List.all_eq_true]
  refine forall_congr' fun c => forall_congr' fun _ => ?_
  simp

/-- The resource itself, where the new range has all its children inside. -/
theorem Valid.moved (valid : Valid res) {start end_ : Nat} (le : start ≤ end_)
    (inside : children_inside res start end_ = true) : Valid (moved res start end_) := by
  cases valid with
  | @mk range child le' inside' apart all => exact .mk le (children_inside_iff.mp inside) apart all

theorem not_apart_of_within (within : Within x y) (some : x.start ≤ x.end_) : ¬ Apart x y ∧ ¬ Apart y x := by
  obtain ⟨low,high⟩ := within
  constructor
  · rintro (left | right) <;> omega
  · rintro (left | right) <;> omega

/-- What is below a resource is not apart from it. -/
theorem Valid.not_apart (valid : Valid res) : ∀ x ∈ descendants res, ¬ Apart x res.range := by
  intro x mem
  obtain ⟨within,some⟩ := valid.ranges_within x (by rw [ranges_eq]; exact List.mem_cons_of_mem _ mem)
  exact (not_apart_of_within within some).1

/-- The children around the `i`-th one. -/
theorem split_at {i : Nat} (here : child[i]? = some res) (new : resource) :
    child = child.take i ++ res :: child.drop (i + 1) ∧ child.set i new = child.take i ++ new :: child.drop (i + 1) := by
  obtain ⟨inside,rfl⟩ := List.getElem?_eq_some_iff.mp here
  refine ⟨?_,List.set_eq_take_append_cons_drop .. |>.trans (if_pos inside)⟩
  rw [← List.drop_eq_getElem_cons inside,List.take_append_drop]

/-- What `dr_adjust_resource` has checked when it changes a child: the room between the next ones, and
    in the parent. -/
theorem adjust_child_checks {i start end_ : Nat} (valid : Valid parent)
    (result : adjust_child parent i start end_ = some t) : ∃ res, parent.child[i]? = some res ∧
      t = parent.with_child (parent.child.set i (moved res start end_)) ∧ parent.start ≤ start ∧ end_ ≤ parent.end_ ∧
      children_inside res start end_ = true ∧ (∀ b ∈ parent.child.take i, b.end_ < start) ∧
      ∀ a ∈ parent.child.drop (i + 1), end_ < a.start := by
  cases valid with
  | @mk own child _ inside apart all =>
    obtain ⟨res,here,checked⟩ := Option.bind_eq_some_iff.mp result
    split at checked
    case isTrue => cases checked
    case isFalse fits =>
      split at checked
      case isTrue => cases checked
      case isFalse next =>
        split at checked
        case isTrue => cases checked
        case isFalse previous =>
          split at checked
          case isFalse => cases checked
          case isTrue children =>
            obtain rfl := Option.some.inj checked
            have sorted := List.pairwise_iff_getElem.mp apart
            refine ⟨res,here,rfl,by omega,by omega,children,?_,?_⟩
            · intro b mem
              obtain ⟨j,low,rfl⟩ := List.getElem_of_mem mem
              rw [List.getElem_take]
              rw [List.length_take] at low
              have bound : j < min i child.length := low
              have at_i : i < child.length := (List.getElem?_eq_some_iff.mp here).1
              have last_inside : i - 1 < child.length := by omega
              have last : child[i-1].end_ < start := by
                by_contra reaches
                apply previous
                refine ⟨by omega,?_⟩
                change (child[i-1]?).any _ = true
                rw [List.getElem?_eq_getElem last_inside]
                simp
                omega
              change child[j].end_ < start
              by_cases same : j = i - 1
              · subst same
                exact last
              · have before := sorted j (i - 1) (by omega) last_inside (by omega)
                have := (all _ (List.getElem_mem last_inside)).le
                omega
            · intro a mem
              obtain ⟨j,low,rfl⟩ := List.getElem_of_mem mem
              rw [List.getElem_drop]
              rw [List.length_drop] at low
              change j < child.length - (i + 1) at low
              have first_inside : i + 1 < child.length := by omega
              have first : end_ < child[i+1].start := by
                by_contra reaches
                apply next
                change (child[i+1]?).any _ = true
                rw [List.getElem?_eq_getElem first_inside]
                simp
                omega
              change end_ < child[i + 1 + j].start
              by_cases same : j = 0
              · subst same
                exact first
              · have after := sorted (i + 1) (i + 1 + j) first_inside (by omega) (by omega)
                have := (all _ (List.getElem_mem first_inside)).le
                omega

theorem Valid.adjust_child (valid : Valid parent) {i start end_ : Nat} (le : start ≤ end_)
    (result : adjust_child parent i start end_ = some t) : Adjusted parent start end_ t ∧ t.range = parent.range := by
  obtain ⟨res,here,rfl,low,high,children,before,after⟩ := adjust_child_checks valid result
  obtain ⟨split,changed⟩ := split_at here (Resource.moved res start end_)
  obtain ⟨valid_res,inside,front,back⟩ := valid.split split
  refine ⟨⟨?_,res.range,parent.range ::
    ((parent.child.take i).flatMap Resource.ranges ++ descendants res ++ (parent.child.drop (i + 1)).flatMap Resource.ranges),
    ?_,?_,?_⟩,rfl⟩
  · have split' : parent.child = parent.child.take i ++ [res] ++ parent.child.drop (i + 1) := by simpa using split
    have replaced : Valid (parent.with_child
        (parent.child.take i ++ [Resource.moved res start end_] ++ parent.child.drop (i + 1))) := valid.replace split'
      (by simpa using valid_res.moved le children) (List.pairwise_singleton ..)
      (by intro c mem; rw [List.mem_singleton.mp mem]; exact ⟨low,high⟩)
      (by intro b mem c mem'; rw [List.mem_singleton.mp mem']; exact before b mem)
      (by intro a mem c mem'; rw [List.mem_singleton.mp mem']; exact after a mem)
    rw [changed]
    simpa using replaced
  · have whole : ranges (parent.with_child parent.child) = _ := ranges_with_child split
    have same : parent.with_child parent.child = parent := by cases parent; rfl
    rw [same,ranges_eq res] at whole
    rw [whole]
    exact perm_out ..
  · rw [ranges_with_child changed,ranges_eq (Resource.moved res start end_)]
    exact perm_out ..
  · intro x mem apart
    rw [List.mem_cons,List.mem_append,List.mem_append] at mem
    obtain rfl | (mem | mem) | mem := mem
    · exact absurd apart (not_apart_of_within ⟨inside.1,inside.2⟩ valid_res.le).2
    · exact .inl (valid.below_before split before x mem)
    · exact absurd apart (valid_res.not_apart x mem)
    · exact .inr (valid.below_after (split_behind split) after x mem)

/-- One range is changed, wherever in the tree it is. -/
theorem Valid.adjust (valid : Valid parent) {start end_ : Nat} (le : start ≤ end_) {way : List Nat}
    (result : adjust start end_ way parent = some t) :
    Adjusted parent start end_ t ∧ (way ≠ [] → t.range = parent.range) := by
  induction way generalizing parent t with
  | nil =>
    obtain ⟨children,same⟩ := Option.ite_none_right_eq_some.mp result
    obtain rfl := Option.some.inj same
    refine ⟨⟨valid.moved le children,parent.range,descendants parent,?_,?_,?_⟩,fun none => absurd rfl none⟩
    · rw [ranges_eq]
    · rw [ranges_eq]
      rfl
    · exact fun x mem apart => absurd apart (valid.not_apart x mem)
  | cons i way ih =>
    cases way with
    | nil =>
      obtain ⟨adjusted,same⟩ := valid.adjust_child le result
      exact ⟨adjusted,fun _ => same⟩
    | cons j way =>
      obtain ⟨res,here,rest⟩ := Option.bind_eq_some_iff.mp result
      obtain ⟨changed,inner,last⟩ := Option.bind_eq_some_iff.mp rest
      obtain rfl := Option.some.inj last
      obtain ⟨split,set⟩ := split_at here changed
      obtain ⟨valid_res,inside,front,back⟩ := valid.split split
      obtain ⟨⟨valid_changed,old,others,perm,perm',apart⟩,same⟩ := ih valid_res inner
      have same_range := same (List.cons_ne_nil _ _)
      have range_eq : changed.start = res.start ∧ changed.end_ = res.end_ := by
        unfold resource.start resource.end_
        rw [same_range]
        exact ⟨rfl,rfl⟩
      refine ⟨⟨?_,old,parent.range :: ((parent.child.take i).flatMap Resource.ranges ++ others ++
        (parent.child.drop (i + 1)).flatMap Resource.ranges),?_,?_,?_⟩,fun _ => rfl⟩
      · have split' : parent.child = parent.child.take i ++ [res] ++ parent.child.drop (i + 1) := by simpa using split
        have replaced : Valid (parent.with_child (parent.child.take i ++ [changed] ++ parent.child.drop (i + 1))) :=
          valid.replace split' (by simpa using valid_changed)
          (List.pairwise_singleton ..)
          (by intro c mem; rw [List.mem_singleton.mp mem,range_eq.1,range_eq.2]; exact inside)
          (by intro b mem c mem'; rw [List.mem_singleton.mp mem',range_eq.1]; exact front b mem)
          (by intro a mem c mem'; rw [List.mem_singleton.mp mem',range_eq.2]; exact back a mem)
        rw [set]
        simpa using replaced
      · have whole : ranges (parent.with_child parent.child) = _ := ranges_with_child split
        have unchanged : parent.with_child parent.child = parent := by cases parent; rfl
        rw [unchanged] at whole
        rw [whole]
        exact (((perm.append_left _).append_right _).cons _).trans (perm_out ..)
      · rw [ranges_with_child set]
        exact (((perm'.append_left _).append_right _).cons _).trans (perm_out ..)
      · intro x mem apart_x
        -- the changed range is still inside the child that the way goes through
        have within_new := (valid_changed.ranges_within _ (perm'.mem_iff.mpr List.mem_cons_self)).1
        have within_old := valid_res.ranges_within _ (perm.mem_iff.mpr List.mem_cons_self)
        rw [same_range] at within_new
        rw [List.mem_cons,List.mem_append,List.mem_append] at mem
        obtain rfl | (mem | mem) | mem := mem
        · have within : Within old parent.range :=
            ⟨Nat.le_trans inside.1 within_old.1.1,Nat.le_trans within_old.1.2 inside.2⟩
          exact absurd apart_x (not_apart_of_within within within_old.2).2
        · exact .inl (Nat.lt_of_lt_of_le (valid.below_before split front x mem) within_new.1)
        · exact apart x mem apart_x
        · have above := valid.below_after (split_behind split) back x mem
          exact .inr (Nat.lt_of_le_of_lt within_new.2 above)

/-! ### Runs of calls -/

inductive Op
  | register (memory : Bool) (start n : Nat) (flags : BitVec 32)
  | insert (way : List Nat) (new : Range)
  | adjust (way : List Nat) (start size : Nat)

/-- The tree behind a call; a call that refuses leaves it as it is. -/
def step (root : resource) : Op → resource
  | .register memory start n flags => (dr_register memory root start n flags).getD root
  | .insert way new => (dr_insert new way root).getD root
  | .adjust way start size => (dr_adjust_resource root way start size).getD root

def run (root : resource) (ops : List Op) : resource := ops.foldl step root

/-- What is inserted is a window that is not busy itself, and an adjusted range is not empty and does
    not wrap. -/
def Op.Good : Op → Prop
  | .register _ _ _ _ => True
  | .insert _ new => new.flags &&& IORESOURCE_BUSY = 0
  | .adjust _ start size => 0 < size ∧ start + size ≤ 2 ^ 64

instance (op : Op) : Decidable op.Good :=
  match op with
  | .register _ _ _ _ => inferInstanceAs (Decidable True)
  | .insert _ _ => inferInstanceAs (Decidable (_ = _))
  | .adjust _ _ _ => inferInstanceAs (Decidable (_ ∧ _))

def Range.busy (r : Range) : Bool := r.flags &&& IORESOURCE_BUSY != 0

/-- The regions that drivers have. -/
def regions (root : resource) : List Range := (ranges root).filter Range.busy

theorem Apart.symm (apart : Apart x y) : Apart y x := Or.symm apart

/-- What the calls keep. -/
structure Sound (root : resource) : Prop where
  valid : Valid root
  free : root.range.busy = false
  apart : (regions root).Pairwise Apart

/-- A call that takes a range in keeps the regions apart where it is apart from them, or no region. -/
theorem Sound.taken (sound : Sound parent) {range : Range} (taken : Taken parent range t)
    (clear : range.busy = true → ∀ x ∈ descendants parent, x.busy = true → Apart range x) : Sound t := by
  refine ⟨taken.valid,by rw [taken.same]; exact sound.free,?_⟩
  have perm := taken.ranges.filter Range.busy
  refine (perm.pairwise_iff Apart.symm).mpr ?_
  rw [List.filter_cons]
  split
  case isFalse => exact sound.apart
  case isTrue busy =>
    refine List.pairwise_cons.mpr ⟨fun x mem => ?_,sound.apart⟩
    obtain ⟨mem,busy_x⟩ := List.mem_filter.mp mem
    rw [ranges_eq] at mem
    cases mem with
    | head =>
      rw [sound.free] at busy_x
      cases busy_x
    | tail _ mem => exact clear busy x mem busy_x

theorem request_root (empty : new.end_ < new.start) : request_resource parent new = .root := by
  unfold request_resource
  rw [if_pos empty]

theorem request_region_none (empty : new.end_ < new.start) : request_region new parent = none := by
  rw [request_region]
  split
  case h_1 found =>
    rw [request_root empty] at found
    cases found
  case h_2 => rfl
  case h_3 found =>
    rw [request_root empty] at found
    cases found

theorem insert_resource_none (empty : new.end_ < new.start) : insert_resource parent new = none := by
  rw [insert_resource]
  split
  case h_1 found =>
    rw [request_root empty] at found
    cases found
  case h_2 => rfl
  case h_3 found =>
    rw [request_root empty] at found
    cases found

/-- What a request does to a tree that the calls have made. -/
theorem Sound.request (sound : Sound parent) (new : Range) :
    (request_region (.mk new []) parent = none ∧ ¬ (new.start ≤ new.end_ ∧ Grantable new parent)) ∨
    ∃ t, request_region (.mk new []) parent = some t ∧ Sound t ∧ (new.start ≤ new.end_ ∧ Grantable new parent) ∧
      (ranges t).Perm (new :: ranges parent) := by
  by_cases nonempty : new.start ≤ new.end_
  · obtain ⟨t,result,taken,grantable⟩ | ⟨result,refused⟩ := request_region_spec sound.valid nonempty
    · refine .inr ⟨t,result,sound.taken taken fun _ x mem busy => ?_,⟨nonempty,grantable⟩,taken.ranges⟩
      obtain apart | ⟨free,-⟩ := grantable.2 x mem
      · exact apart.symm
      · simp [Range.busy,free] at busy
    · exact .inl ⟨result,fun grants => refused grants.2⟩
  · have empty : (resource.mk new []).end_ < (resource.mk new []).start := Nat.not_le.mp nonempty
    exact .inl ⟨request_region_none empty,fun grants => nonempty grants.1⟩

theorem Sound.register (sound : Sound parent) (memory : Bool) (start n : Nat) (flags : BitVec 32) :
    Sound (step parent (.register memory start n flags)) := by
  rw [step,dr_register]
  cases memory with
  | false => exact sound
  | true =>
    rw [if_pos rfl]
    obtain ⟨result,-⟩ | ⟨t,result,sound_t,-⟩ := sound.request (requested start n flags)
    · rw [result]
      exact sound
    · rw [result]
      exact sound_t

/-- What is inserted below a resource of a valid tree is taken in. -/
theorem Valid.inserted {way : List Nat} (valid : Valid parent) (result : dr_insert x way parent = some t) :
    Taken parent x t := by
  induction way generalizing parent t with
  | nil =>
    rw [dr_insert] at result
    by_cases nonempty : x.start ≤ x.end_
    · obtain ⟨t',result',taken,-⟩ | ⟨result',-⟩ := insert_resource_spec valid nonempty
      · rw [result'] at result
        exact Option.some.inj result ▸ taken
      · rw [result'] at result
        cases result
    · have empty : (resource.mk x []).end_ < (resource.mk x []).start := Nat.not_le.mp nonempty
      rw [insert_resource_none empty] at result
      cases result
  | cons i way ih =>
    obtain ⟨res,here,result⟩ := Option.bind_eq_some_iff.mp result
    obtain ⟨changed,inserted,result⟩ := Option.bind_eq_some_iff.mp result
    obtain ⟨split,set⟩ := split_at here changed
    have taken := valid.descended split (ih (valid.split split).1 inserted)
    rw [← set] at taken
    exact Option.some.inj result ▸ taken

theorem Sound.insert (sound : Sound parent) {new : Range} (free : new.flags &&& IORESOURCE_BUSY = 0) (way : List Nat) :
    Sound (step parent (.insert way new)) := by
  rw [step]
  cases result : dr_insert new way parent with
  | none => exact sound
  | some t =>
    refine sound.taken (sound.valid.inserted result) fun busy => ?_
    simp [Range.busy,free] at busy

theorem Sound.adjust (sound : Sound parent) {start size : Nat} (positive : 0 < size) (fits : start + size ≤ 2 ^ 64)
    (way : List Nat) : Sound (step parent (.adjust way start size)) := by
  have last : (start + size + (2 ^ 64 - 1)) % 2 ^ 64 = start + size - 1 := by omega
  rw [step,dr_adjust_resource,last]
  cases result : Resource.adjust start (start + size - 1) way parent with
  | none => exact sound
  | some t =>
    obtain ⟨⟨valid,old,rest,perm,perm',apart⟩,same⟩ := sound.valid.adjust (by omega) result
    refine ⟨valid,?_,?_⟩
    · cases way with
      | nil =>
        obtain ⟨-,same⟩ := Option.ite_none_right_eq_some.mp result
        obtain rfl := Option.some.inj same
        exact sound.free
      | cons i way => rw [Option.getD_some,same (List.cons_ne_nil _ _)]; exact sound.free
    · have before := ((perm.filter Range.busy).pairwise_iff Apart.symm).mp sound.apart
      refine ((perm'.filter Range.busy).pairwise_iff Apart.symm).mpr ?_
      rw [List.filter_cons] at before ⊢
      cases busy : old.busy with
      | false =>
        rw [busy,if_neg Bool.false_ne_true] at before
        rw [if_neg (by exact Bool.not_eq_true _ ▸ busy)]
        exact before
      | true =>
        rw [busy,if_pos rfl] at before
        obtain ⟨first,others⟩ := List.pairwise_cons.mp before
        rw [if_pos (by exact busy)]
        exact List.pairwise_cons.mpr ⟨fun x mem =>
          (apart x (List.mem_filter.mp mem).1 (first x mem).symm).symm,others⟩

theorem Sound.run {ops : List Op} (sound : Sound parent) (good : ∀ op ∈ ops, op.Good) : Sound (run parent ops) := by
  induction ops generalizing parent with
  | nil => exact sound
  | cons op ops ih =>
    have good_op := good op List.mem_cons_self
    refine ih ?_ (fun op mem => good op (List.mem_cons_of_mem _ mem))
    cases op with
    | register memory start n flags => exact sound.register memory start n flags
    | insert way new => exact sound.insert good_op way
    | adjust way start size => exact sound.adjust good_op.1 good_op.2 way

theorem Sound.root {range : Range} (le : range.start ≤ range.end_) (free : range.flags &&& IORESOURCE_BUSY = 0) :
    Sound (.mk range []) := by
  have free' : range.busy = false := by simp [Range.busy,free]
  refine ⟨.leaf le,free',?_⟩
  rw [regions,ranges_leaf,List.filter_cons,free']
  exact List.Pairwise.nil

/-- Whatever is requested, inserted and adjusted in whatever order, the tree stays well formed, and no
    two drivers have a common address. -/
theorem regions_apart {range : Range} (le : range.start ≤ range.end_) (free : range.flags &&& IORESOURCE_BUSY = 0)
    {ops : List Op} (good : ∀ op ∈ ops, op.Good) :
    Valid (run (.mk range []) ops) ∧ (regions (run (.mk range []) ops)).Pairwise Apart := by
  have sound := (Sound.root le free).run good
  exact ⟨sound.valid,sound.apart⟩

/-- A port of a driver, a window put over it, one beside it in the window, a smaller window below that window, and the first
    window made larger. -/
theorem regions_apart_window :
    Valid (run (.mk ⟨0,IO_SPACE_LIMIT, IORESOURCE_IO⟩ []) [.register true 0x1f0 8 0,
      .insert [] ⟨0x100,0x1ff, IORESOURCE_IO⟩,.register true 0x170 8 0,.insert [0] ⟨0x160,0x17f, IORESOURCE_IO⟩,
      .adjust [0] 0x100 0x200]) ∧
    (regions (run (.mk ⟨0,IO_SPACE_LIMIT, IORESOURCE_IO⟩ []) [.register true 0x1f0 8 0,
      .insert [] ⟨0x100,0x1ff, IORESOURCE_IO⟩,.register true 0x170 8 0,.insert [0] ⟨0x160,0x17f, IORESOURCE_IO⟩,
      .adjust [0] 0x100 0x200])).Pairwise Apart :=
  regions_apart (by decide) (by decide) (by decide)

/-- In every such tree a region is granted exactly when there is memory for it and it is not empty, inside the root, and each
    range of the tree is apart from it, or around it and not busy; then it is in the tree beside all that was there. -/
theorem register_grants {range : Range} (le : range.start ≤ range.end_) (free : range.flags &&& IORESOURCE_BUSY = 0)
    {ops : List Op} (good : ∀ op ∈ ops, op.Good) (memory : Bool) (start n : Nat) (flags : BitVec 32) :
    ((dr_register memory (run (.mk range []) ops) start n flags).isSome ↔ memory = true ∧
      (requested start n flags).start ≤ (requested start n flags).end_ ∧
        Grantable (requested start n flags) (run (.mk range []) ops)) ∧
    ∀ t, dr_register memory (run (.mk range []) ops) start n flags = some t →
      (ranges t).Perm (requested start n flags :: ranges (run (.mk range []) ops)) := by
  have sound : Sound (run (.mk range []) ops) := (Sound.root le free).run good
  rw [dr_register]
  cases memory with
  | false => exact ⟨⟨nofun,nofun⟩,nofun⟩
  | true =>
    rw [if_pos rfl]
    obtain ⟨result,refused⟩ | ⟨t,result,-,grants,perm⟩ := sound.request (requested start n flags)
    · rw [result]
      exact ⟨⟨nofun,fun grants => absurd grants.2 refused⟩,nofun⟩
    · rw [result]
      refine ⟨⟨fun _ => ⟨rfl,grants⟩,fun _ => rfl⟩,fun t' same => ?_⟩
      obtain rfl := Option.some.inj same
      exact perm

/-- A port beside the one of another driver, in a window around both. -/
theorem register_grants_window :
    ((dr_register true (run (.mk ⟨0,IO_SPACE_LIMIT, IORESOURCE_IO⟩ [])
        [.register true 0x1f0 8 0,.insert [] ⟨0x100,0x1ff, IORESOURCE_IO⟩]) 0x170 8 0).isSome ↔ true = true ∧
      (requested 0x170 8 0).start ≤ (requested 0x170 8 0).end_ ∧
        Grantable (requested 0x170 8 0) (run (.mk ⟨0,IO_SPACE_LIMIT, IORESOURCE_IO⟩ [])
          [.register true 0x1f0 8 0,.insert [] ⟨0x100,0x1ff, IORESOURCE_IO⟩])) ∧
    ∀ t, dr_register true (run (.mk ⟨0,IO_SPACE_LIMIT, IORESOURCE_IO⟩ [])
        [.register true 0x1f0 8 0,.insert [] ⟨0x100,0x1ff, IORESOURCE_IO⟩]) 0x170 8 0 = some t →
      (ranges t).Perm (requested 0x170 8 0 :: ranges (run (.mk ⟨0,IO_SPACE_LIMIT, IORESOURCE_IO⟩ [])
        [.register true 0x1f0 8 0,.insert [] ⟨0x100,0x1ff, IORESOURCE_IO⟩])) :=
  register_grants (by decide) (by decide) (by decide) true 0x170 8 0

end GridOS.Resource
