import GridOS.Fault
import GridOS.Vm
import GridOS.CopyOnWrite

/-!
The pages of images and of mapped files: `do_page_fault` of `source/kernel/arch/x86/page.c`, `refill_exe`
and `refill_file` of `source/kernel/memory/exp.c`, `kp_exe_share` of `source/kernel/process/exe.c` and
`km_page_create_cow` of `source/kernel/memory/page.c`, with the contents of the frames. An instruction that
faults is tried again when the handler is done. The tables are there, and no two threads fault at once.
-/
namespace GridOS.ImagePages
open GridOS.Words GridOS.Walk GridOS.Fault

/-- A subsection of an image; `size` and `offset` are those of `priv.share`. -/
structure Segment where
  start : Nat
  size : Nat
  offset : Nat

/-- What `ks_get_by_vaddress` and, in an image, `ks_sub_locate` find. -/
inductive Found
  | exe (detailed : Option Segment) (backend : Backing)
  | file (backing : Backing)

/-- What is found for a process and an address. -/
abbrev Layout := Nat → Nat → Option Found

structure State where
  tables : Fault.State
  memory : Nat → Nat → BitVec 8

/-- `kp_get_file_process()`. -/
def FILE_PROCESS : Nat := 1
def PAGE_FAULT_U : Nat := 4

/-! ### `page.c` -/

def km_pte_write_force (p va what : Nat) (t : Fault.State) : Fault.State :=
  { t with pte := Function.update t.pte p (Function.update (t.pte p) (va / PAGE_SIZE) what) }

def km_page_dealloc (page : Nat) (t : Fault.State) : Fault.State := { t with free := page :: t.free }

/-- The frame that an address is mapped to. -/
def frame_at (t : Fault.State) (p va : Nat) : Nat := KE_PAGE_PHY_FROM_PTE (km_pte_read t p va)

def km_page_create_cow (p address : Nat) (s : State) : Bool × State :=
  if km_pte_read s.tables p address = 0 then (false,s) else
  let alloc := km_page_alloc s.tables
  if alloc.1 = 0 then (false,{ s with tables := alloc.2 }) else
  if Vm.Arch.i386.kernel_mem_len ≤ alloc.1 then (false,{ s with tables := km_page_dealloc alloc.1 alloc.2 }) else
  (true,{ tables := km_pte_write_force p address (alloc.1 ||| km_arch_get_flags (KM_PROT_READ ||| KM_PROT_WRITE)) alloc.2
          memory := Function.update s.memory alloc.1 (s.memory (frame_at s.tables p address)) })

/-- `delete_page`, which gives a frame back unless it is another's. -/
def delete_page (p va : Nat) (s : State) : State :=
  let deleted := Walk.delete_page va (km_pte_read s.tables p va) []
  match deleted.1 with
  | none => s
  | some entry => { s with tables := { km_pte_write_force p va entry s.tables with free := deleted.2 ++ s.tables.free } }

/-! ### `exp.c` and `exe.c` -/

def restore_file (who : Nat) (b : Backing) (address : Nat) (t : Fault.State) : Bool × Fault.State :=
  let db_addr := prepare_dbd b address
  if db_addr = 0 then (false,t) else
  let shared := km_page_share who address SYSTEM db_addr b.prot t
  (shared.1 = .ok,shared.2)

/-- `none` when it takes more rounds. -/
def ks_restore_share (dst_process : Nat) (src_section : Backing) (dst src prot : Nat) :
    Nat → Fault.State → Option (Bool × Fault.State)
  | 0,_ => none
  | rounds+1,t =>
    let shared := km_page_share dst_process dst FILE_PROCESS src prot t
    match shared.1 with
    | .ok => some (true,shared.2)
    | .err => some (false,shared.2)
    | .src_invalid =>
      let restored := restore_file FILE_PROCESS src_section src shared.2
      if restored.1 = false then some (false,restored.2)
      else ks_restore_share dst_process src_section dst src prot rounds restored.2

/-- The address in the file process of an address in the image. -/
def source (backend : Backing) (seg : Segment) (dst : Nat) : Nat :=
  add (add backend.start seg.offset) (sub dst seg.start)

def kp_exe_share (rounds who : Nat) (seg : Segment) (dst : Nat) (backend : Backing) (t : Fault.State) :
    Option (Bool × Fault.State) :=
  ks_restore_share who backend dst (source backend seg dst) KM_PROT_READ rounds t

def refill_exe (rounds p address code : Nat) (detailed : Option Segment) (backend : Backing) (s : State) :
    Option (Bool × State) :=
  match detailed with
  | none => some (false,s)
  | some seg =>
    if add seg.start seg.size ≤ address then
      let created := km_page_create p address (KM_PROT_READ ||| KM_PROT_WRITE) s.tables
      if created.1 = false then some (false,{ s with tables := created.2 })
      else some (true,⟨created.2,Function.update s.memory (frame_at created.2 p address) (fun _ => 0)⟩)
    -- a write to TEXT is let through, as in the source
    else if code &&& PAGE_FAULT_W ≠ 0 ∧ code &&& PAGE_FAULT_P ≠ 0 then some (km_page_create_cow p address s)
    else (kp_exe_share rounds p seg address backend s.tables).map fun shared => (shared.1,{ s with tables := shared.2 })

def refill_file (p address code : Nat) (b : Backing) (s : State) : Bool × State :=
  if code &&& PAGE_FAULT_W ≠ 0 ∧ b.prot &&& KM_PROT_WRITE = 0 then (false,s) else
  let restored := restore_file p b address s.tables
  (restored.1,{ s with tables := restored.2 })

section
variable (layout : Layout) (rounds : Nat)

def ks_exception (p address code : Nat) (s : State) : Option (Bool × State) :=
  match layout p address with
  | none => some (false,s)
  | some (.exe detailed backend) => refill_exe rounds p address code detailed backend s
  | some (.file b) => some (refill_file p address code b s)

/-- A fault of a user; a thread whose fault is not handled is deleted. -/
def do_page_fault (p error_address error_code : Nat) (s : State) : Option (Bool × State) :=
  if Vm.Arch.i386.kernel_base ≤ error_address then some (false,s)
  else ks_exception layout rounds p error_address (error_code ||| PAGE_FAULT_U) s

/-! ### Instructions -/

/-- The processor lets a user's access through. -/
def permitted (pte : Nat) (write : Bool) : Bool :=
  pte &&& PAGE_FLAG_VALID != 0 && pte &&& PAGE_FLAG_USER != 0 && (!write || pte &&& PAGE_FLAG_RW != 0)

def error_code (pte : Nat) (write : Bool) : Nat :=
  (if pte &&& PAGE_FLAG_VALID ≠ 0 then PAGE_FAULT_P else 0) ||| (if write then PAGE_FAULT_W else 0)

/-- The access is let through, at first or behind faults that are handled. -/
def reach (p va : Nat) (write : Bool) : Nat → State → Option (Bool × State)
  | 0,_ => none
  | tries+1,s =>
    if permitted (km_pte_read s.tables p va) write then some (true,s) else
    match do_page_fault layout rounds p va (error_code (km_pte_read s.tables p va) write) s with
    | none => none
    | some (false,s) => some (false,s)
    | some (true,s) => reach p va write tries s

inductive Op
  | read (p va : Nat)
  | write (p va : Nat) (byte : BitVec 8)
  | delete (p va : Nat)

inductive Result
  | byte (byte : BitVec 8)
  | written
  | deleted
  | killed

def call (s : State) : Op → Option (State × Result)
  | .read p va => (reach layout rounds p va false rounds s).map fun r =>
    (r.2,if r.1 then .byte (r.2.memory (frame_at r.2.tables p va) (va % PAGE_SIZE)) else .killed)
  | .write p va byte => (reach layout rounds p va true rounds s).map fun r =>
    if r.1 then
      let frame := frame_at r.2.tables p va
      ({ r.2 with memory := Function.update r.2.memory frame (Function.update (r.2.memory frame) (va % PAGE_SIZE) byte) },.written)
    else (r.2,.killed)
  | .delete p va => some (delete_page p va s,.deleted)

def run (s : State) : List Op → Option (State × List Result)
  | [] => some (s,[])
  | op :: ops => do
    let (s,result) ← call layout rounds s op
    let (s,results) ← run s ops
    some (s,result :: results)

end

/-! ### What a process sees -/

abbrev Content := Nat → BitVec 8
abbrev Page := CopyOnWrite.Page Nat Content
abbrev Pages := CopyOnWrite.Pages (Nat × Nat) Nat Content

/-- The pages that the processes have, each for itself, and how many frames are free. -/
structure Memory where
  pages : Pages
  frames : Nat

def page_of (p va : Nat) : Nat × Nat := (p,va / PAGE_SIZE)

def content (a : Pages) (p va : Nat) : Content := (a.content (page_of p va)).getD fun _ => 0

/-- A page of the process's own takes a frame. -/
def Memory.give (m : Memory) (k : Nat × Nat) : Page → Option Memory
  | .backed f => some { m with pages := m.pages.set k (some (.backed f)) }
  | .own c => if m.frames = 0 then none else some ⟨m.pages.set k (some (.own c)),m.frames - 1⟩

def Memory.delete (m : Memory) (k : Nat × Nat) : Memory :=
  match m.pages.page k with
  | some (.own _) => ⟨m.pages.set k none,m.frames + 1⟩
  | _ => { m with pages := m.pages.set k none }

/-- The frame of the buffer that a file has for an address. -/
def buffer (t : Fault.State) (b : Backing) (address : Nat) : Nat := frame_at t SYSTEM (prepare_dbd b address)

def Readable (prot : Nat) : Prop := km_arch_get_flags prot &&& PAGE_FLAG_VALID ≠ 0

instance (prot : Nat) : Decidable (Readable prot) := inferInstanceAs (Decidable (_ ≠ _))

/-- The file has a buffer for the address that the system has mapped, and its section can be read. -/
def Buffered (t : Fault.State) (b : Backing) (address : Nat) : Prop :=
  prepare_dbd b address ≠ 0 ∧ KE_PAGE_INVALID_PTE (km_pte_read t SYSTEM (prepare_dbd b address)) = false ∧ Readable b.prot

instance (t : Fault.State) (b : Backing) (address : Nat) : Decidable (Buffered t b address) :=
  inferInstanceAs (Decidable (_ ∧ _ ∧ _))

section
variable (layout : Layout) (t : Fault.State)

/-- What the first access brings to an address: the file's page, or zeros behind the file's part of a segment. -/
def fresh (p va : Nat) : Option Page :=
  if Vm.Arch.i386.kernel_base ≤ va then none else
  match layout p va with
  | none | some (.exe none _) => none
  | some (.exe (some seg) backend) =>
    if add seg.start seg.size ≤ va then some (.own fun _ => 0)
    else if Buffered t backend (source backend seg va) then some (.backed (buffer t backend (source backend seg va))) else none
  | some (.file b) => if Buffered t b va then some (.backed (buffer t b va)) else none

/-- The page belongs to a file that no page is loaded of for a write. -/
def read_only (p va : Nat) : Bool :=
  match layout p va with
  | some (.file b) => b.prot &&& KM_PROT_WRITE == 0
  | _ => false

/-- The page is there, or it is brought. -/
def load (p va : Nat) (write : Bool) (m : Memory) : Option Memory :=
  match m.pages.page (page_of p va) with
  | some _ => some m
  | none => if write && read_only layout p va then none else (fresh layout t p va).bind (m.give (page_of p va))

/-- The page can be written: it is the process's own or becomes it, unless it is a file's. -/
def unshare (p va : Nat) (m : Memory) : Option Memory :=
  match m.pages.page (page_of p va),layout p va with
  | some (.own _),_ => some m
  | some (.backed _),some (.file b) => if b.prot &&& (KM_PROT_WRITE ||| KM_MAP_DEVICE) = 0 then none else some m
  | some (.backed f),some (.exe (some seg) _) =>
    if Vm.Arch.i386.kernel_base ≤ va ∨ add seg.start seg.size ≤ va then none
    else m.give (page_of p va) (.own (m.pages.backing f))
  | _,_ => none

/-- The accesses, with pages that each process has for itself. -/
def Memory.call (m : Memory) : Op → Memory × Result
  | .read p va =>
    match load layout t p va false m with
    | none => (m,.killed)
    | some m => (m,.byte (content m.pages p va (va % PAGE_SIZE)))
  | .write p va byte =>
    match load layout t p va true m with
    | none => (m,.killed)
    | some m =>
      match unshare layout p va m with
      | none => (m,.killed)
      | some m =>
        ({ m with pages := m.pages.write (page_of p va) (Function.update (content m.pages p va) (va % PAGE_SIZE) byte) },.written)
  | .delete p va => (m.delete (page_of p va),.deleted)

def Memory.run (m : Memory) : List Op → Memory × List Result
  | [] => (m,[])
  | op :: ops =>
    let first := m.call layout t op
    let others := Memory.run first.1 ops
    (others.1,first.2 :: others.2)

end

end GridOS.ImagePages
