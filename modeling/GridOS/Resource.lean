import Mathlib.Tactic

/-!
The resource tree of `source/drivers/hal/main/resource.c`. A resource is a range of addresses with
the resources inside it, in their order along the sibling links. The names of resources are left
out. A call that changes the tree returns the new tree, and nothing where it refuses.
-/
namespace GridOS.Resource

/-! ### The code -/

def IORESOURCE_MEM : BitVec 32 := 0x00000200
def IORESOURCE_IO : BitVec 32 := 0x00000100
def IORESOURCE_BUSY : BitVec 32 := 0x80000000
def IO_SPACE_LIMIT : Nat := 0xffff
def MAX_RESOURCE : Nat := 2 ^ 64 - 1

/-- The range and flags of a `struct resource`; `end_` is inside the range. -/
structure Range where
  start : Nat
  end_ : Nat
  flags : BitVec 32
deriving DecidableEq

inductive resource
  | mk (range : Range) (child : List resource)

namespace resource

def range : resource → Range
  | .mk range _ => range

def child : resource → List resource
  | .mk _ child => child

def start (r : resource) : Nat := r.range.start
def end_ (r : resource) : Nat := r.range.end_
def busy (r : resource) : Bool := r.range.flags &&& IORESOURCE_BUSY != 0
def with_child (r : resource) (child : List resource) : resource := .mk r.range child

end resource

def io_port_resource : resource := .mk ⟨0,IO_SPACE_LIMIT, IORESOURCE_IO⟩ []
def io_mem_resource : resource := .mk ⟨0,MAX_RESOURCE,IORESOURCE_MEM⟩ []

/-- What `__request_resource` comes to: the children with the new one among them, or what it returns,
    which is the root or a child. -/
inductive Request
  | linked (child : List resource)
  | root
  | conflict (before : List resource) (tmp : resource) (after : List resource)

/-- A child that the loop passes. -/
def Request.pass (tmp : resource) : Request → Request
  | .linked child => .linked (tmp :: child)
  | .root => .root
  | .conflict before found after => .conflict (tmp :: before) found after

/-- The loop of `__request_resource` over the children. -/
def link (new : resource) : List resource → Request
  | [] => .linked [new]
  | tmp :: rest =>
    if tmp.start > new.end_ then .linked (new :: tmp :: rest) else
    if tmp.end_ < new.start then (link new rest).pass tmp else .conflict [] tmp rest

def request_resource (root new : resource) : Request :=
  if new.end_ < new.start then .root else
  if new.start < root.start then .root else
  if new.end_ > root.end_ then .root else link new root.child

/-- Where a child is returned it is the first one that does not end below the new range or start
    above it. -/
theorem link_conflict {new : resource} {child before after : List resource} {tmp : resource}
    (found : link new child = .conflict before tmp after) :
    child = before ++ tmp :: after ∧ (∀ r ∈ before, r.end_ < new.start) ∧ tmp.start ≤ new.end_ ∧ new.start ≤ tmp.end_ := by
  induction child generalizing before with
  | nil => cases found
  | cons r rest ih =>
    rw [link] at found
    split at found
    case isTrue => cases found
    case isFalse reaches =>
      split at found
      case isTrue passed =>
        cases next : link new rest with
        | linked child => rw [next] at found; cases found
        | root => rw [next] at found; cases found
        | conflict before' tmp' after' =>
          rw [next] at found
          cases found
          obtain ⟨split,below,meets⟩ := ih next
          refine ⟨by rw [split]; rfl,?_,meets⟩
          intro r' mem
          cases mem with
          | head => exact passed
          | tail _ mem => exact below r' mem
      case isFalse =>
        cases found
        exact ⟨rfl,fun r' mem => absurd mem List.not_mem_nil,by omega,by omega⟩

theorem request_conflict {root new : resource} {before after : List resource} {tmp : resource}
    (found : request_resource root new = .conflict before tmp after) : link new root.child = .conflict before tmp after := by
  unfold request_resource at found
  split at found
  · cases found
  · split at found
    · cases found
    · split at found
      · cases found
      · exact found

theorem sizeOf_conflict {root new : resource} {before after : List resource} {tmp : resource}
    (found : request_resource root new = .conflict before tmp after) : sizeOf tmp < sizeOf root := by
  obtain ⟨range,child⟩ := root
  have here : tmp ∈ child := by
    have split : child = before ++ tmp :: after := (link_conflict (request_conflict found)).1
    rw [split]
    simp
  have := List.sizeOf_lt_of_mem here
  simp
  omega

/-- The loop of `__request_region` that goes down into what conflicts, unless it is busy. -/
def request_region (new parent : resource) : Option resource :=
  match _found : request_resource parent new with
  | .linked child => some (parent.with_child child)
  | .root => none
  | .conflict before tmp after =>
    if tmp.busy then none else
    (request_region new tmp).map (fun changed => parent.with_child (before ++ changed :: after))
termination_by sizeOf parent
decreasing_by exact sizeOf_conflict _found

/-- The loop of `__insert_resource` over the siblings that the new resource gets as its children,
    with those behind them. -/
def adopt (new next : resource) : List resource → Option (List resource × List resource)
  | [] => if next.start < new.start ∨ next.end_ > new.end_ then none else some ([next],[])
  | sibling :: more =>
    if next.start < new.start ∨ next.end_ > new.end_ then none else
    if sibling.start > new.end_ then some ([next],sibling :: more) else
    (adopt new sibling more).map (fun (inner,rest) => (next :: inner,rest))

def insert_resource (parent new : resource) : Option resource :=
  match _found : request_resource parent new with
  | .linked child => some (parent.with_child child)
  | .root => none
  | .conflict before first after =>
    if first.start > new.start ∨ first.end_ < new.end_ ∨ (first.start = new.start ∧ first.end_ = new.end_) then
      (adopt new first after).map (fun (inner,rest) => parent.with_child (before ++ new.with_child inner :: rest))
    else (insert_resource first new).map (fun changed => parent.with_child (before ++ changed :: after))
termination_by sizeOf parent
decreasing_by exact sizeOf_conflict _found

/-- The range that `__request_region` asks for, in the arithmetic of 64 bits. -/
@[irreducible]
def requested (start n : Nat) (flags : BitVec 32) : Range :=
  ⟨start,(start + n + (2 ^ 64 - 1)) % 2 ^ 64,IORESOURCE_BUSY ||| flags⟩

/-- `dr_register` in the tree of its type; without `memory` there is no new resource. -/
def dr_register (memory : Bool) (root : resource) (start n : Nat) (flags : BitVec 32) : Option resource :=
  if memory then request_region (.mk (requested start n flags) []) root else none

/-- `dr_insert` below the resource that the way of child numbers leads to from the root. -/
def dr_insert (new : Range) : List Nat → resource → Option resource
  | [],parent => insert_resource parent (.mk new [])
  | i :: way,root => do
    let res ← root.child[i]?
    let changed ← dr_insert new way res
    some (root.with_child (root.child.set i changed))

def moved (res : resource) (start end_ : Nat) : resource := .mk { res.range with start,end_ } res.child

def children_inside (res : resource) (start end_ : Nat) : Bool :=
  res.child.all (fun tmp => !(decide (tmp.start < start) || decide (tmp.end_ > end_)))

/-- `dr_adjust_resource` for the child `i` of `parent`. -/
def adjust_child (parent : resource) (i start end_ : Nat) : Option resource := do
  let res ← parent.child[i]?
  if start < parent.start ∨ end_ > parent.end_ then none else
  if (parent.child[i+1]?).any (fun sibling => sibling.start ≤ end_) then none else
  if i ≠ 0 ∧ (parent.child[i-1]?).any (fun tmp => start ≤ tmp.end_) then none else
  if children_inside res start end_ then some (parent.with_child (parent.child.set i (moved res start end_))) else none

/-- `dr_adjust_resource` for the resource that the way of child numbers leads to from the root. -/
def adjust (start end_ : Nat) : List Nat → resource → Option resource
  | [],res => if children_inside res start end_ then some (moved res start end_) else none
  | [i],parent => adjust_child parent i start end_
  | i :: j :: way,parent => do
    let res ← parent.child[i]?
    let changed ← adjust start end_ (j :: way) res
    some (parent.with_child (parent.child.set i changed))

def dr_adjust_resource (root : resource) (way : List Nat) (start size : Nat) : Option resource :=
  adjust start ((start + size + (2 ^ 64 - 1)) % 2 ^ 64) way root

/-! ### Well-formed trees -/

/-- All ranges of the tree, that of the root first. -/
def ranges : resource → List Range
  | .mk range child => range :: child.flatMap ranges

def descendants (r : resource) : List Range := r.child.flatMap ranges

/-- The children are inside, in order and apart, all the way down. -/
inductive Valid : resource → Prop
  | mk {range : Range} {child : List resource} (le : range.start ≤ range.end_)
      (inside : ∀ c ∈ child, range.start ≤ c.start ∧ c.end_ ≤ range.end_)
      (apart : child.Pairwise (fun a b => a.end_ < b.start)) (all : ∀ c ∈ child, Valid c) : Valid (.mk range child)

/-- Two ranges without a common address. -/
def Apart (x y : Range) : Prop := x.end_ < y.start ∨ y.end_ < x.start

def Within (x y : Range) : Prop := y.start ≤ x.start ∧ x.end_ ≤ y.end_

variable {parent res new t : resource} {x y : Range} {child before after : List resource}

theorem ranges_eq (r : resource) : ranges r = r.range :: descendants r := by
  obtain ⟨range,child⟩ := r
  rw [ranges]
  rfl

theorem Valid.le (valid : Valid res) : res.start ≤ res.end_ := by
  cases valid with
  | mk le inside apart all => exact le

/-- What is below a resource is inside it. -/
theorem Valid.ranges_within (valid : Valid res) : ∀ x ∈ ranges res, Within x res.range ∧ x.start ≤ x.end_ := by
  induction valid with
  | @mk range child le inside apart all ih =>
    intro x mem
    rw [ranges] at mem
    cases mem with
    | head => exact ⟨⟨Nat.le_refl _,Nat.le_refl _⟩,le⟩
    | tail _ mem =>
      obtain ⟨c,here,mem⟩ := List.mem_flatMap.mp mem
      obtain ⟨within,some⟩ := ih c here x mem
      obtain ⟨low,high⟩ := inside c here
      exact ⟨⟨Nat.le_trans low within.1,Nat.le_trans within.2 high⟩,some⟩

theorem Valid.leaf {range : Range} (le : range.start ≤ range.end_) : Valid (.mk range []) :=
  .mk le (fun _ mem => absurd mem List.not_mem_nil) List.Pairwise.nil (fun _ mem => absurd mem List.not_mem_nil)

/-- The children of a valid resource around a place. -/
theorem Valid.split (valid : Valid parent) (split : parent.child = before ++ res :: after) :
    Valid res ∧ (parent.start ≤ res.start ∧ res.end_ ≤ parent.end_) ∧ (∀ b ∈ before, b.end_ < res.start) ∧
      ∀ a ∈ after, res.end_ < a.start := by
  cases valid with
  | @mk range child le inside apart all =>
    change child = _ at split
    subst split
    obtain ⟨-,right,cross⟩ := List.pairwise_append.mp apart
    have here : res ∈ before ++ res :: after := by simp
    exact ⟨all res here,inside res here,fun b mem => cross b mem res List.mem_cons_self,
      (List.pairwise_cons.mp right).1⟩

/-- A valid resource stays one when a part of its children is replaced by valid ones in the same room. -/
theorem Valid.replace (valid : Valid parent) {middle middle' : List resource}
    (split : parent.child = before ++ middle ++ after) (all' : ∀ c ∈ middle', Valid c)
    (apart' : middle'.Pairwise (fun a b => a.end_ < b.start))
    (inside' : ∀ c ∈ middle', parent.start ≤ c.start ∧ c.end_ ≤ parent.end_)
    (low : ∀ b ∈ before, ∀ c ∈ middle', b.end_ < c.start) (high : ∀ a ∈ after, ∀ c ∈ middle', c.end_ < a.start) :
    Valid (parent.with_child (before ++ middle' ++ after)) := by
  cases valid with
  | @mk range child le inside apart all =>
    change child = _ at split
    subst split
    have part {c : resource} (mem : c ∈ before ∨ c ∈ after) : c ∈ before ++ middle ++ after := by
      rcases mem with mem | mem <;> simp [mem]
    have cases_mem {c : resource} (mem : c ∈ before ++ middle' ++ after) : (c ∈ before ∨ c ∈ after) ∨ c ∈ middle' := by
      simp only [List.mem_append] at mem
      tauto
    refine .mk le ?_ ?_ ?_
    · intro c mem
      rcases cases_mem mem with mem | mem
      · exact inside c (part mem)
      · exact inside' c mem
    · obtain ⟨left,right,cross⟩ := List.pairwise_append.mp apart
      obtain ⟨left,-,-⟩ := List.pairwise_append.mp left
      refine List.pairwise_append.mpr ⟨List.pairwise_append.mpr ⟨left,apart',low⟩,right,?_⟩
      intro c mem a mem_a
      rcases List.mem_append.mp mem with mem | mem
      · exact cross c (List.mem_append_left _ mem) a mem_a
      · exact high a mem_a c mem
    · intro c mem
      rcases cases_mem mem with mem | mem
      · exact all c (part mem)
      · exact all' c mem

/-- Where the loop links the new resource: behind what ends below it, before what starts above it. -/
theorem link_linked {child child' : List resource} (apart : child.Pairwise (fun a b => a.end_ < b.start))
    (nonempty : ∀ c ∈ child, c.start ≤ c.end_) (found : link new child = .linked child') :
    ∃ before after, child = before ++ after ∧ child' = before ++ new :: after ∧
      (∀ b ∈ before, b.end_ < new.start) ∧ ∀ a ∈ after, new.end_ < a.start := by
  induction child generalizing child' with
  | nil =>
    cases found
    exact ⟨[],[],rfl,rfl,fun _ mem => absurd mem List.not_mem_nil,fun _ mem => absurd mem List.not_mem_nil⟩
  | cons tmp rest ih =>
    obtain ⟨first,apart⟩ := List.pairwise_cons.mp apart
    rw [link] at found
    split at found
    case isTrue above =>
      cases found
      refine ⟨[],_,rfl,rfl,fun _ mem => absurd mem List.not_mem_nil,fun a mem => ?_⟩
      cases mem with
      | head => exact above
      | tail _ mem =>
        have := first a mem
        have := nonempty tmp List.mem_cons_self
        omega
    case isFalse =>
      split at found
      case isFalse => cases found
      case isTrue below =>
        cases next : link new rest with
        | root => rw [next] at found; cases found
        | conflict b t a => rw [next] at found; cases found
        | linked child₁ =>
          rw [next] at found
          cases found
          obtain ⟨before,after,split,split',low,high⟩ :=
            ih apart (fun c mem => nonempty c (List.mem_cons_of_mem _ mem)) next
          refine ⟨tmp :: before,after,by rw [split]; rfl,by rw [split']; rfl,fun b mem => ?_,high⟩
          cases mem with
          | head => exact below
          | tail _ mem => exact low b mem

theorem link_ne_root (new : resource) (child : List resource) : link new child ≠ .root := by
  induction child with
  | nil => exact fun root => by cases root
  | cons tmp rest ih =>
    rw [link]
    split
    · exact fun root => by cases root
    · split
      · cases next : link new rest with
        | root => exact absurd next ih
        | linked child => exact fun root => by cases root
        | conflict before found after => exact fun root => by cases root
      · exact fun root => by cases root

/-- The root has the new range inside. -/
def Fits (new parent : resource) : Prop := parent.start ≤ new.start ∧ new.end_ ≤ parent.end_

theorem request_eq (some : new.start ≤ new.end_) [Decidable (Fits new parent)] :
    request_resource parent new = if Fits new parent then link new parent.child else .root := by
  unfold request_resource
  rw [if_neg (by omega)]
  by_cases low : new.start < parent.start
  · rw [if_pos low,if_neg (fun fits => absurd fits.1 (by omega))]
  · rw [if_neg low]
    by_cases high : new.end_ > parent.end_
    · rw [if_pos high,if_neg (fun fits => absurd fits.2 (by omega))]
    · rw [if_neg high,if_pos ⟨by omega,by omega⟩]

/-- What `__request_resource` comes to for a valid root. -/
inductive Requested (parent new : resource) : Request → Prop
  | root (outside : ¬ Fits new parent) : Requested parent new .root
  | linked {before after : List resource} (fits : Fits new parent) (split : parent.child = before ++ after)
      (low : ∀ b ∈ before, b.end_ < new.start) (high : ∀ a ∈ after, new.end_ < a.start) :
      Requested parent new (.linked (before ++ new :: after))
  | conflict {before after : List resource} {tmp : resource} (fits : Fits new parent)
      (split : parent.child = before ++ tmp :: after) (low : ∀ b ∈ before, b.end_ < new.start)
      (meets : tmp.start ≤ new.end_ ∧ new.start ≤ tmp.end_) : Requested parent new (.conflict before tmp after)

theorem Valid.requested (valid : Valid parent) (some : new.start ≤ new.end_) :
    Requested parent new (request_resource parent new) := by
  by_cases fits : Fits new parent
  · cases valid with
    | @mk range child le inside apart all =>
      have decided : Decidable (Fits new (.mk range child)) := .isTrue fits
      cases found : link new child with
      | root => exact absurd found (link_ne_root new child)
      | linked child' =>
        obtain ⟨before,after,split,rfl,low,high⟩ := link_linked apart (fun c mem => (all c mem).le) found
        rw [request_eq some,if_pos fits]
        change Requested _ _ (link new child)
        rw [found]
        exact .linked fits split low high
      | conflict before tmp after =>
        obtain ⟨split,low,meets⟩ := link_conflict found
        rw [request_eq some,if_pos fits]
        change Requested _ _ (link new child)
        rw [found]
        exact .conflict fits split low meets
  · have decided : Decidable (Fits new parent) := .isFalse fits
    rw [request_eq some,if_neg fits]
    exact .root fits

/-! ### Requests -/

/-- A range that lets the new one be granted: apart from it, or around it and not busy. -/
def Clear (new x : Range) : Prop := Apart x new ∨ (x.flags &&& IORESOURCE_BUSY = 0 ∧ Within new x)

theorem busy_iff : res.busy = false ↔ res.range.flags &&& IORESOURCE_BUSY = 0 := by
  simp [resource.busy]

theorem split_behind (split : child = before ++ res :: after) : child = (before ++ [res]) ++ after := by
  simpa using split

/-- What is below children that end before a range, or start behind it, is apart from it. -/
theorem Valid.below_before (valid : Valid parent) (split : parent.child = before ++ after) {start : Nat}
    (low : ∀ b ∈ before, b.end_ < start) : ∀ x ∈ before.flatMap ranges, x.end_ < start := by
  intro x mem
  obtain ⟨b,here,mem_b⟩ := List.mem_flatMap.mp mem
  obtain ⟨front,back,rfl⟩ := List.append_of_mem here
  have around : parent.child = front ++ b :: (back ++ after) := by simpa using split
  have valid_b := (valid.split around).1
  exact Nat.lt_of_le_of_lt (valid_b.ranges_within x mem_b).1.2 (low b here)

theorem Valid.below_after (valid : Valid parent) (split : parent.child = before ++ after) {end_ : Nat}
    (high : ∀ a ∈ after, end_ < a.start) : ∀ x ∈ after.flatMap ranges, end_ < x.start := by
  intro x mem
  obtain ⟨a,here,mem_a⟩ := List.mem_flatMap.mp mem
  obtain ⟨front,back,rfl⟩ := List.append_of_mem here
  have around : parent.child = (before ++ front) ++ a :: back := by simpa using split
  have valid_a := (valid.split around).1
  exact Nat.lt_of_lt_of_le (high a here) (valid_a.ranges_within x mem_a).1.1

theorem descendants_eq (split : parent.child = before ++ res :: after) :
    descendants parent = before.flatMap ranges ++ (res.range :: descendants res) ++ after.flatMap ranges := by
  rw [descendants,split,List.flatMap_append,List.flatMap_cons,ranges_eq,List.append_assoc]

@[simp]
theorem ranges_leaf (range : Range) : ranges (.mk range []) = [range] := by
  rw [ranges,List.flatMap_nil]

/-- What a call that takes a new range into a valid tree does. -/
structure Taken (parent : resource) (range : Range) (t : resource) : Prop where
  valid : Valid t
  same : t.range = parent.range
  ranges : (ranges t).Perm (range :: ranges parent)

/-- A part of the children is replaced by one with a range more. -/
theorem Valid.taken (valid : Valid parent) {middle middle' : List resource} {range : Range}
    (split : parent.child = before ++ middle ++ after) (all' : ∀ c ∈ middle', Valid c)
    (apart' : middle'.Pairwise (fun a b => a.end_ < b.start))
    (inside' : ∀ c ∈ middle', parent.start ≤ c.start ∧ c.end_ ≤ parent.end_)
    (low : ∀ b ∈ before, ∀ c ∈ middle', b.end_ < c.start) (high : ∀ a ∈ after, ∀ c ∈ middle', c.end_ < a.start)
    (more : (middle'.flatMap ranges).Perm (range :: middle.flatMap ranges)) :
    Taken parent range (parent.with_child (before ++ middle' ++ after)) := by
  refine ⟨valid.replace split all' apart' inside' low high,rfl,?_⟩
  have whole : ranges (parent.with_child (before ++ middle' ++ after)) =
      parent.range :: (before.flatMap ranges ++ middle'.flatMap ranges ++ after.flatMap ranges) := by
    rw [ranges_eq,descendants]
    change parent.range :: (before ++ middle' ++ after).flatMap ranges = _
    rw [List.flatMap_append,List.flatMap_append]
  have inner : (before.flatMap ranges ++ middle'.flatMap ranges ++ after.flatMap ranges).Perm
      (range :: (before.flatMap ranges ++ middle.flatMap ranges ++ after.flatMap ranges)) := by
    refine (((List.Perm.append_left _ more).trans List.perm_middle).append_right _).trans ?_
    rw [List.cons_append]
  rw [whole,ranges_eq parent,descendants,split,List.flatMap_append,List.flatMap_append]
  exact (inner.cons _).trans (List.Perm.swap ..)

/-- The new resource between two of the children. -/
theorem Valid.linked (valid : Valid parent) {range : Range} (some : range.start ≤ range.end_)
    (fits : Fits (.mk range []) parent) (split : parent.child = before ++ after)
    (low : ∀ b ∈ before, b.end_ < range.start) (high : ∀ a ∈ after, range.end_ < a.start) :
    Taken parent range (parent.with_child (before ++ .mk range [] :: after)) := by
  have split' : parent.child = before ++ [] ++ after := by simpa using split
  have taken : Taken parent range (parent.with_child (before ++ [.mk range []] ++ after)) := valid.taken split'
    (by simpa using Valid.leaf some) (List.pairwise_singleton ..)
    (by intro c mem; rw [List.mem_singleton.mp mem]; exact fits)
    (by intro b mem c mem'; rw [List.mem_singleton.mp mem']; exact low b mem)
    (by intro a mem c mem'; rw [List.mem_singleton.mp mem']; exact high a mem) (by simp)
  simpa using taken

/-- A child that takes the new range in. -/
theorem Valid.descended (valid : Valid parent) {range : Range} (split : parent.child = before ++ res :: after)
    (taken : Taken res range t) : Taken parent range (parent.with_child (before ++ t :: after)) := by
  obtain ⟨-,inside,low,high⟩ := valid.split split
  have range_eq : t.start = res.start ∧ t.end_ = res.end_ := by
    unfold resource.start resource.end_
    rw [taken.same]
    exact ⟨rfl,rfl⟩
  have split' : parent.child = before ++ [res] ++ after := by simpa using split
  have whole : Taken parent range (parent.with_child (before ++ [t] ++ after)) := valid.taken split'
    (by simpa using taken.valid) (List.pairwise_singleton ..)
    (by intro c mem; rw [List.mem_singleton.mp mem,range_eq.1,range_eq.2]; exact inside)
    (by intro b mem c mem'; rw [List.mem_singleton.mp mem',range_eq.1]; exact low b mem)
    (by intro a mem c mem'; rw [List.mem_singleton.mp mem',range_eq.2]; exact high a mem)
    (by simpa using taken.ranges)
  simpa using whole

/-- What is in the way of a request, apart from the range of the root. -/
def Grantable (range : Range) (parent : resource) : Prop :=
  Fits (.mk range []) parent ∧ ∀ x ∈ descendants parent, Clear range x

/-- A child that meets the new range decides about it. -/
theorem Valid.grantable_iff (valid : Valid parent) {range : Range}
    (fits : Fits (.mk range []) parent) (split : parent.child = before ++ res :: after)
    (low : ∀ b ∈ before, b.end_ < range.start) (meets : res.start ≤ range.end_ ∧ range.start ≤ res.end_) :
    Grantable range parent ↔ res.busy = false ∧ Grantable range res := by
  obtain ⟨valid_res,-,-,behind⟩ := valid.split split
  have meeting : ¬ Apart res.range range := by
    rintro (left | right)
    · exact Nat.not_lt.mpr meets.2 left
    · exact Nat.not_lt.mpr meets.1 right
  constructor
  · rintro ⟨-,clear⟩
    have clear_res : Clear range res.range := clear _ (by rw [descendants_eq split]; simp)
    obtain apart | ⟨free,within⟩ := clear_res
    · exact absurd apart meeting
    · refine ⟨busy_iff.mpr free,within,fun x mem => clear x ?_⟩
      rw [descendants_eq split]
      simp [mem]
  · rintro ⟨free,within,clear⟩
    refine ⟨fits,fun x mem => ?_⟩
    rw [descendants_eq split,List.mem_append,List.mem_append,List.mem_cons] at mem
    obtain (mem | rfl | mem) | mem := mem
    · exact .inl (.inl (valid.below_before split low x mem))
    · exact .inr ⟨busy_iff.mp free,within⟩
    · exact clear x mem
    · have above := valid.below_after (split_behind split) behind x mem
      exact .inl (.inr (Nat.lt_of_le_of_lt within.2 above))

theorem request_region_spec (valid : Valid parent) {range : Range} (some_range : range.start ≤ range.end_) :
    (∃ t, request_region (.mk range []) parent = some t ∧ Taken parent range t ∧ Grantable range parent) ∨
      (request_region (.mk range []) parent = none ∧ ¬ Grantable range parent) := by
  induction valid with
  | @mk own child le inside apart all ih =>
    have valid : Valid (.mk own child) := .mk le inside apart all
    have requested : Requested _ (.mk range []) _ := valid.requested some_range
    rw [request_region]
    split
    case h_1 linked found =>
      rw [found] at requested
      cases requested with
      | linked fits split low high =>
        refine .inl ⟨_,rfl,valid.linked some_range fits split low high,fits,fun x mem => ?_⟩
        rw [descendants,split,List.flatMap_append,List.mem_append] at mem
        obtain mem | mem := mem
        · exact .inl (.inl (valid.below_before split low x mem))
        · exact .inl (.inr (valid.below_after split high x mem))
    case h_2 found =>
      rw [found] at requested
      cases requested with
      | root outside => exact .inr ⟨rfl,fun grantable => outside grantable.1⟩
    case h_3 before tmp after found =>
      rw [found] at requested
      cases requested with
      | conflict fits split low meets =>
        have decides := valid.grantable_iff fits split low meets
        rw [decides]
        cases busy : tmp.busy with
        | true => exact .inr ⟨rfl,fun grantable => by cases grantable.1⟩
        | false =>
          rw [if_neg Bool.false_ne_true]
          have here : tmp ∈ child := by
            have split : child = before ++ tmp :: after := split
            simp [split]
          obtain ⟨t,result,taken,grantable⟩ | ⟨result,refused⟩ := ih tmp here
          · rw [result]
            exact .inl ⟨_,rfl,valid.descended split taken,rfl,grantable⟩
          · rw [result]
            exact .inr ⟨rfl,fun grantable => refused grantable.2⟩

end GridOS.Resource
