import GridOS.ListHead
import GridOS.Vm

/-!
The sub-sections of a section: `ks_sub_create`, `ks_sub_locate` and `ks_sub_close` of
`source/kernel/memory/section.c`, `km_vm_create_sub` of `vm.c`, and the loop of `kp_exe_bind` that
makes one of every segment of an image. A sub-section is linked into the list of its parent by its
member `subsection_link`; the searches of `vm.c` take every link for a member `node`, so that they
read the file size and the file offset of a segment as its start and its size, and `ks_sub_close`
unlinks `node`, which is in no list.
-/
namespace GridOS.SubSection
open GridOS.Words GridOS.ListHead GridOS.Vm

/-! ### The layout of `struct ko_section` on the 32-bit targets -/

def NODE : Nat := 0
def SUBSECTION_HEAD : Nat := 8
def SUBSECTION_LINK : Nat := 16
def START : Nat := 24
def SIZE : Nat := 28
def TYPE : Nat := 32
def PROT : Nat := 36
def SHARE_SIZE : Nat := 40
def SHARE_OFFSET : Nat := 44
/-- `sizeof(struct ko_section)`. -/
def SECTION_SIZE : Nat := 56

def KS_TYPE_PRIVATE : Nat := 1
def KS_TYPE_ADD_SUB : Nat := 65536
def KM_PROT_READ : Nat := 1
def KM_PROT_WRITE : Nat := 2

/-- The structure whose `member` the link is. -/
def list_entry (link member : Nat) : Nat := link - member

/-- What the searches read of a `struct km_vm_node`; they do not look at the type. -/
def km_vm_node (m : Mem) (p : Nat) : VmNode := ⟨m (p + START),m (p + SIZE),.priv⟩

/-- The nodes of a list as `alloc_virtual_space` and `insert_virtual_space` see them. -/
def vm_nodes (fuel list : Nat) (m : Mem) : List VmNode :=
  (list_for_each fuel list m).map (fun t => km_vm_node m (list_entry t NODE))

/-! ### `vm.c` -/

/-- The test of `insert_virtual_space` for the node in front of which `who` comes. -/
def stands_behind (m : Mem) (who t : Nat) : Bool :=
  let p := km_vm_node m (list_entry t NODE)
  let w := km_vm_node m who
  decide (p.start > w.start ∧ p.start ≥ add w.start w.size)

def insert_virtual_space (fuel list who : Nat) (sub : Bool) (m : Mem) : Bool × Mem :=
  let link := if sub = false then who + NODE else who + SUBSECTION_LINK
  match (list_for_each fuel list m).find? (stands_behind m who) with
  | some t => (true,list_add_tail link t m)
  | none =>
    if ∀ p ∈ (vm_nodes fuel list m).getLast?, (km_vm_node m who).start ≥ add p.start p.size then
      (true,list_add_tail link list m)
    else (false,m)

def km_vm_create_sub (fuel parent sub_node start size : Nat) (m : Mem) : Nat × Mem :=
  let base := alloc_virtual_space (vm_nodes fuel (parent + SUBSECTION_HEAD) m) (m (parent + START)) (m (parent + SIZE))
    start size
  if base = 0 then (0,m) else
  let m := write (sub_node + SIZE) size m
  let m := write (sub_node + START) base m
  (base,(insert_virtual_space fuel (parent + SUBSECTION_HEAD) sub_node true m).2)

/-! ### `section.c` -/

/-- The `memset` of `cl_object_create`. -/
def clear_object (p : Nat) (m : Mem) : Mem := fun a => if p ≤ a ∧ a < p + SECTION_SIZE then 0 else m a

def object_init (p : Nat) (m : Mem) : Mem := INIT_LIST_HEAD (p + NODE) (INIT_LIST_HEAD (p + SUBSECTION_HEAD) m)

/-- `sub` is the object of `cl_object_create`, if it has memory for one. -/
def ks_sub_create (fuel parent : Nat) (sub : Option Nat) (sub_address sub_size : Nat) (m : Mem) : Option Nat × Mem :=
  match sub with
  | none => (none,m)
  | some sub =>
    let m := object_init sub (clear_object sub m)
    let m := write (sub + TYPE) (KS_TYPE_PRIVATE ||| KS_TYPE_ADD_SUB) m
    let m := write (sub + PROT) KM_PROT_READ m
    let made := km_vm_create_sub fuel parent sub sub_address sub_size m
    if made.1 = 0 then (none,made.2) else (some sub,made.2)

def ks_sub_locate (fuel parent address : Nat) (m : Mem) : Option Nat :=
  ((list_for_each fuel (parent + SUBSECTION_HEAD) m).map (list_entry · SUBSECTION_LINK)).find? (fun sub =>
    decide (address ≥ m (sub + START) ∧ address < add (m (sub + START)) (m (sub + SIZE))))

/-- The loop of `ks_sub_close` from `list` on: the sections that it closes. -/
def close_from (head : Nat) : Nat → Nat → Mem → List Nat × Mem
  | 0, _, m => ([],m)
  | fuel+1, list, m =>
    if list = head then ([],m) else
    let n := next m list
    let sub := list_entry list SUBSECTION_LINK
    let rest := close_from head fuel n (list_del_init (sub + NODE) m)
    (sub :: rest.1,rest.2)

def ks_sub_close (fuel which : Nat) (m : Mem) : List Nat × Mem :=
  close_from (which + SUBSECTION_HEAD) fuel (next m (which + SUBSECTION_HEAD)) m

/-! ### `kp_exe_bind` -/

/-- A segment of an image at its address in the process, with the object for its sub-section. -/
structure Segment where
  object : Option Nat
  address : Nat
  vsize : Nat
  fsize : Nat
  foffset : Nat
  writable : Bool

/-- The body of the loop over the segments. -/
def bind_segment (fuel ks : Nat) (seg : Segment) (m : Mem) : Option Nat × Mem :=
  let made := ks_sub_create fuel ks seg.object seg.address seg.vsize m
  match made.1 with
  | none => made
  | some sub =>
    let m := made.2
    let m := if seg.writable then write (sub + PROT) (m (sub + PROT) ||| KM_PROT_WRITE) m else m
    let m := write (sub + SHARE_SIZE) seg.fsize m
    let m := write (sub + SHARE_OFFSET) seg.foffset m
    (some sub,m)

/-- Two sections do not share memory. -/
def Apart (p q : Nat) : Prop := p + SECTION_SIZE ≤ q ∨ q + SECTION_SIZE ≤ p

/-- The memories reached by binding segments to a section without sub-sections, each with an object
    that is apart from the sections in place; `created` are the sub-sections that were made. -/
inductive Bound (fuel parent : Nat) : Mem → List Nat → List Segment → Prop
  | start {m : Mem} (ring : Ring m (parent + SUBSECTION_HEAD) []) : Bound fuel parent m [] []
  | segment {m : Mem} {created : List Nat} {segments : List Segment} (seg : Segment)
      (run : Bound fuel parent m created segments)
      (fresh : ∀ p ∈ seg.object, ∀ q ∈ parent :: created, Apart p q) :
      Bound fuel parent (bind_segment fuel parent seg m).2 (created ++ (bind_segment fuel parent seg m).1.toList)
        (segments ++ [seg])

/-- The address is in the range of the section. -/
def Inside (m : Mem) (s a : Nat) : Prop := m (s + START) ≤ a ∧ a < m (s + START) + m (s + SIZE)

/-- The sub-sections are disjoint ranges in the parent, listed by their starts, and found by their addresses. -/
structure Sorted (fuel parent : Nat) (m : Mem) (created : List Nat) : Prop where
  disjoint : created.Pairwise (fun s t => ∀ a, ¬(Inside m s a ∧ Inside m t a))
  inside : ∀ s ∈ created, m (parent + START) ≤ m (s + START) ∧
    m (s + START) + m (s + SIZE) ≤ m (parent + START) + m (parent + SIZE)
  sorted : ((list_for_each fuel (parent + SUBSECTION_HEAD) m).map
    (fun t => m (list_entry t SUBSECTION_LINK + START))).Pairwise (· ≤ ·)
  locate : ∀ a s, ks_sub_locate fuel parent a m = some s ↔ s ∈ created ∧ Inside m s a

/-- `ks_sub_close` leaves an empty list that refers to none of the sections it closed. -/
structure Closed (fuel parent : Nat) (m : Mem) : Prop where
  empty : list_empty (parent + SUBSECTION_HEAD) (ks_sub_close fuel parent m).2 = true
  released : ∀ t ∈ list_for_each fuel (parent + SUBSECTION_HEAD) (ks_sub_close fuel parent m).2,
    list_entry t SUBSECTION_LINK ∉ (ks_sub_close fuel parent m).1

/-- There is no object for the segment, or it is not in the range of the parent. -/
def Rejected (parent : Nat) (m : Mem) (seg : Segment) : Prop :=
  seg.object = none ∨ check_limit (m (parent + START)) (m (parent + SIZE))
    (if seg.address ≠ 0 then seg.address else m (parent + START)) seg.vsize = 0

/-- The segments lie in the parent one behind the other, and none is larger in the file than in memory. -/
structure Ascending (parent : Nat) (m : Mem) (segments : List Segment) : Prop where
  within : ∀ seg ∈ segments, m (parent + START) ≤ seg.address ∧
    seg.address + seg.vsize ≤ m (parent + START) + m (parent + SIZE)
  file : ∀ seg ∈ segments, seg.fsize ≤ seg.vsize
  order : segments.Pairwise (fun before behind => before.address + before.vsize ≤ behind.address)

end GridOS.SubSection
