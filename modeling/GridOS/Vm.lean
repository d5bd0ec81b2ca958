import GridOS.Words

/-!
The virtual range list of a process: `source/kernel/memory/vm.c`, the creation of
sections in `section.c` and the lookup of `exp.c`, on the 32-bit targets. The
list of a process is a list of nodes; a node keeps the type of the section it
is embedded in.
-/
namespace GridOS.Vm
open GridOS.Words

def PAGE_SIZE : Nat := 4096

inductive Arch
  | i386 | mips | arm
  deriving DecidableEq, Repr

/-- `HAL_GET_BASIC_KADDRESS(PHYS_OFFSET)`, which is `CONFIG_HAL_KERNEL_BASE`. -/
def Arch.kernel_base : Arch → Nat
  | .i386 => 0x80000000
  | .mips => 0x80000000
  | .arm => 0xc0000000
/-- `CONFIG_HAL_KERNEL_MEM_LEN`. -/
def Arch.kernel_mem_len : Arch → Nat
  | .i386 => 0x40000000
  | .mips => 0x40000000
  | .arm => 0x10000000
/-- `CONFIG_HAL_KERNEL_VM_LEN`. -/
def Arch.kernel_vm_len : Arch → Nat
  | .i386 => 0x40000000
  | .mips => 0x40000000
  | .arm => 0x10000000

/-- `KP_CPL0`, `KP_CPL0_FAKE` and `KP_USER`. -/
inductive Cpl
  | cpl0 | cpl0_fake | user
  deriving DecidableEq, Repr

/-- The `KS_TYPE` of a section. -/
inductive SectionType
  | priv | device | exe | stack | file | share | kernel
  deriving DecidableEq, Repr

def SectionType.is_type_kernel : SectionType → Bool
  | .kernel => true
  | .device => true
  | _ => false

/-- A `struct km_vm_node` in a section of the type. -/
structure VmNode where
  start : Nat
  size : Nat
  type : SectionType
  deriving DecidableEq, Repr

def user_start : Nat := 0x400000

/-- `ALIGN(size, PAGE_SIZE)`. -/
def align (size : Nat) : Nat := add size (PAGE_SIZE - 1) - add size (PAGE_SIZE - 1) % PAGE_SIZE

/-- The range that `get_vm_range` gives: its start and its size. -/
def vm_range (arch : Arch) (cpl : Cpl) (is_type_kernel : Bool) : Nat × Nat :=
  match cpl with
  | .cpl0 => (add arch.kernel_base arch.kernel_mem_len,sub arch.kernel_vm_len PAGE_SIZE)
  | _ => (if is_type_kernel then arch.kernel_base else user_start,sub arch.kernel_base user_start)

/-- The start and the size that `get_vm_range` leaves in the node: the big kernel
    section of a process that is not CPL0 takes the kernel's window, whatever was asked for. -/
def vm_desired (arch : Arch) (cpl : Cpl) (is_type_kernel : Bool) (desired_start desired_size : Nat) : Nat × Nat :=
  match cpl with
  | .cpl0 => (desired_start,align desired_size)
  | _ =>
    if is_type_kernel then (arch.kernel_base,align (sub arch.kernel_base user_start))
    else (desired_start,align desired_size)

/-- Where the loop of `alloc_virtual_space` stands when it ends: the start, whether `pP` is
    `pS`, and `pS`. -/
structure Found where
  start : Nat
  same : Bool
  pS : Option VmNode

/-- The loop of `alloc_virtual_space` over the nodes behind `pP`. -/
def walk (range_start range_len desired size : Nat) : List VmNode → Option VmNode → Nat → Found
  | [], pP, start => ⟨start,true,pP⟩
  | pS :: rest, pP, start =>
    if pS.start > start ∧ add start size ≤ pS.start ∧ (∀ p ∈ pP, add p.start p.size ≤ start) then
      ⟨start,false,some pS⟩
    else if desired ≠ 0 then walk range_start range_len desired size rest (some pS) start
    else
      let next := add pS.start pS.size
      if next ≤ start then walk range_start range_len desired size rest (some pS) start
      else if add next size > add range_start range_len then ⟨next,true,some pS⟩
      else walk range_start range_len desired size rest (some pS) next

/-- The label `check_limit`. -/
def check_limit (range_start range_len start size : Nat) : Nat :=
  if add start size ≤ add range_len range_start ∧ start ≥ range_start then start else 0

/-- The start of the space found, or 0. -/
def alloc_virtual_space (usage_list : List VmNode) (range_start range_len desired size : Nat) : Nat :=
  let found := walk range_start range_len desired size usage_list none (if desired ≠ 0 then desired else range_start)
  if found.same ∧ ∃ pS ∈ found.pS, ¬ found.start ≥ add pS.start pS.size then 0
  else check_limit range_start range_len found.start size

/-- The list with the node, or `none` when there is no place for it; `p` is the node in front. -/
def insert_virtual_space (who : VmNode) : List VmNode → Option VmNode → Option (List VmNode)
  | [], p => if ∀ last ∈ p, who.start ≥ add last.start last.size then some [who] else none
  | p :: rest, _ =>
    if p.start > who.start ∧ p.start ≥ add who.start who.size then some (who :: p :: rest)
    else (insert_virtual_space who rest (some p)).map (p :: ·)

/-- `ks_create` and `km_vm_create`: the node and the list with it. -/
def km_vm_create (arch : Arch) (cpl : Cpl) (vm_list : List VmNode) (type : SectionType) (base size : Nat) :
    Option (VmNode × List VmNode) :=
  let range := vm_range arch cpl type.is_type_kernel
  let node := vm_desired arch cpl type.is_type_kernel base size
  let start := alloc_virtual_space vm_list range.1 range.2 node.1 node.2
  if start = 0 then none
  else (insert_virtual_space ⟨start,node.2,type⟩ vm_list none).map (fun list => (⟨start,node.2,type⟩,list))

def km_vm_delete (vm_list : List VmNode) (what : VmNode) : List VmNode := vm_list.erase what

def ks_get_by_vaddress : List VmNode → Nat → Option VmNode
  | [], _ => none
  | p :: rest, address =>
    if p.start ≤ address ∧ address < add p.start p.size then some p
    else if p.start > address then none
    else ks_get_by_vaddress rest address

end GridOS.Vm
