import GridOS.Walk

/-!
Threads of one process that fault on the same address: the refill handlers of
`source/kernel/memory/exp.c` for private, stack, file and share sections, with `km_page_create` and
`km_page_share` of `page.c`, and the flags of x86. The tables are there, and what happens with the
memory of a process locked is one step; between two of them the other threads run.
-/
namespace GridOS.Fault
open GridOS.Words GridOS.Walk

def PAGE_FLAG_RW : Nat := 2
def PAGE_FLAG_USER : Nat := 4
def PAGE_FLAG_PWT : Nat := 8
def PAGE_FLAG_PCD : Nat := 16
/-- `~PAGE_FLAG_MASK`. -/
def FRAME_MASK : Nat := 0xfffffc00
def PAGE_FAULT_P : Nat := 1
def PAGE_FAULT_W : Nat := 2
def KM_PROT_READ : Nat := 1
def KM_PROT_WRITE : Nat := 2
def KM_MAP_DEVICE : Nat := 65536

def km_arch_get_flags (prot : Nat) : Nat :=
  if prot = 0 then 0 else
  if prot &&& KM_MAP_DEVICE ≠ 0 then PAGE_FLAG_USER ||| PAGE_FLAG_VALID ||| PAGE_FLAG_RW ||| PAGE_FLAG_PCD ||| PAGE_FLAG_PWT
  else PAGE_FLAG_USER ||| (if prot &&& KM_PROT_READ ≠ 0 then PAGE_FLAG_VALID else 0) |||
    (if prot &&& KM_PROT_WRITE ≠ 0 then PAGE_FLAG_RW ||| PAGE_FLAG_VALID else 0)

/-- A section that pages may come from: if its type is FILE, `dbd` is the address of the buffer that
    `fss_map_prepare_dbd` gives for a position, or 0. -/
structure Backing where
  start : Nat
  prot : Nat
  dbd : Option (Nat → Nat)

/-- A section of type SHARE. -/
structure Share where
  start : Nat
  prot : Nat
  offset : Nat
  src_process : Nat
  src : Backing

/-- A section by its type. -/
inductive Section
  | priv (prot : Nat)
  | stack (prot : Nat)
  | file (backing : Backing)
  | share (share : Share)

/-- Where a thread is: at its fault, in `restore_file` with the buffer of the file for its own section or for
    the source, at `share_again`, before `ks_restore`, or behind `ks_exception`. -/
inductive Pc
  | fault
  | mapping (db_addr : Nat)
  | sharing
  | restoring
  | remapping (db_addr : Nat)
  | done (ret : Bool)
  deriving DecidableEq

/-- The entries of the page tables by process and page, the frames that `km_page_alloc` has, and the threads. -/
structure State where
  pte : Nat → Nat → Nat
  free : List Nat
  pc : Nat → Pc

/-- The section and the address of the fault, the process of the threads and the error code of each. -/
structure Access where
  sec : Section
  process : Nat
  address : Nat
  code : Nat → Nat

/-- `kp_get_system()`. -/
def SYSTEM : Nat := 0

/-! ### `page.c` -/

def km_pte_read (s : State) (p va : Nat) : Nat := s.pte p (va / PAGE_SIZE)

/-- An entry that is not empty stays. -/
def km_pte_write (s : State) (p va what : Nat) : State :=
  if km_pte_read s p va ≠ 0 then s
  else { s with pte := Function.update s.pte p (Function.update (s.pte p) (va / PAGE_SIZE) what) }

def km_page_alloc (s : State) : Nat × State :=
  match s.free with
  | [] => (0,s)
  | page :: free => (page,{ s with free })

def km_page_create (p address prot : Nat) (s : State) : Bool × State :=
  if km_pte_read s p address ≠ 0 then (false,s) else
  let alloc := km_page_alloc s
  if alloc.1 = 0 then (false,alloc.2)
  else (true,km_pte_write alloc.2 p address (alloc.1 ||| km_arch_get_flags prot))

/-- The `KM_PAGE_SHARE_RESULT`s. -/
inductive ShareResult
  | ok | err | src_invalid
  deriving DecidableEq

/-- The entry that `km_page_share` makes of the one of the source. -/
def shared_pte (pte prot : Nat) : Nat := pte &&& FRAME_MASK ||| km_arch_get_flags prot ||| PAGE_FLAG_FROM_OTHER

def km_page_share (dst dst_addr src src_addr prot : Nat) (s : State) : ShareResult × State :=
  if km_pte_read s dst dst_addr ≠ 0 then (.err,s) else
  if src_addr < add src_addr PAGE_SIZE then
    if KE_PAGE_INVALID_PTE (km_pte_read s src src_addr) then (.src_invalid,s)
    else (.ok,km_pte_write s dst dst_addr (shared_pte (km_pte_read s src src_addr) prot))
  else (.ok,s)

/-! ### `exp.c` -/

def move (i : Nat) (pc : Pc) (s : State) : State := { s with pc := Function.update s.pc i pc }

/-- The buffer for an address of the section, 0 if it has none. -/
def prepare_dbd (b : Backing) (address : Nat) : Nat := (b.dbd.map (fun dbd => dbd (sub address b.start))).getD 0

/-- `restore_file` up to the lock; `next` is where the thread goes with the buffer. -/
def restore_file (b : Backing) (address i : Nat) (next : Nat → Pc) (s : State) : State :=
  let db_addr := prepare_dbd b address
  move i (if db_addr = 0 then .done false else next db_addr) s

def refill_private (f : Access) (prot i : Nat) (s : State) : State :=
  if f.code i &&& PAGE_FAULT_P ≠ 0 then move i (.done false) s else
  let created := km_page_create f.process f.address prot s
  move i (.done created.1) created.2

def refill_file (f : Access) (b : Backing) (i : Nat) (s : State) : State :=
  if f.code i &&& PAGE_FAULT_W ≠ 0 ∧ b.prot &&& KM_PROT_WRITE = 0 then move i (.done false) s
  else restore_file b f.address i .mapping s

/-- `source_address` of `refill_share`. -/
def Share.source_address (sh : Share) (address : Nat) : Nat := add (add sh.offset sh.src.start) (sub address sh.start)

/-- One round of `ks_restore_share`, up to the call of `ks_restore`. -/
def ks_restore_share (f : Access) (sh : Share) (i : Nat) (s : State) : State :=
  let shared := km_page_share f.process f.address sh.src_process (sh.source_address f.address) sh.prot s
  match shared.1 with
  | .ok => move i (.done true) shared.2
  | .err => move i (.done false) shared.2
  | .src_invalid => move i .restoring shared.2

/-- The next step of a thread in `ks_exception`. -/
def step (f : Access) (i : Nat) (s : State) : State :=
  match f.sec, s.pc i with
  | .priv prot, .fault => refill_private f prot i s
  | .stack prot, .fault => refill_private f prot i s
  | .file b, .fault => refill_file f b i s
  | .file b, .mapping db_addr =>
    let shared := km_page_share f.process f.address SYSTEM db_addr b.prot s
    move i (.done (shared.1 = .ok)) shared.2
  | .share _, .fault => move i .sharing s
  | .share sh, .sharing => ks_restore_share f sh i s
  | .share sh, .restoring => restore_file sh.src (sh.source_address f.address) i .remapping s
  | .share sh, .remapping db_addr =>
    let shared := km_page_share sh.src_process (sh.source_address f.address) SYSTEM db_addr sh.src.prot s
    move i (if shared.1 = .ok then .sharing else .done false) shared.2
  | _, _ => s

/-- The threads take their steps in the order of the schedule. -/
def run (f : Access) (schedule : List Nat) (s : State) : State := schedule.foldl (fun s i => step f i s) s

end GridOS.Fault
