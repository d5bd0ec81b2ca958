import GridOS.Words

/-!
Interrupt lines: the descriptors of `source/drivers/hal/irq` (`chip.c`, `handle.c`, `manage.c` and
`resend.c`) over the two 8259A of `source/drivers/hal/arch/x86/i8259.c`. A call is one step; an
interrupt is two, since `handle_irq_event` gives up the lock while the handlers run. Flags that nothing
reads are left out.
-/
namespace GridOS.IrqLine
open GridOS.Words

def IRQF_TRIGGER_MASK : BitVec 32 := 0x0000000f
def IRQF_SHARED : BitVec 32 := 0x00000080
def IRQF_PERCPU : BitVec 32 := 0x00000400
def IRQF_ONESHOT : BitVec 32 := 0x00002000

structure irqaction where
  dev_id : Nat
  flags : BitVec 32

/-- `disabled`, `masked` and `inprogress` are the `IRQD` flags, `pending`, `replay` and `spurious_disabled` the
    `IRQS` ones, and `level` is `IRQ_LEVEL`. -/
structure irq_desc where
  action : List irqaction
  depth : Nat
  disabled : Bool
  masked : Bool
  inprogress : Bool
  pending : Bool
  replay : Bool
  spurious_disabled : Bool
  level : Bool

/-- The cached mask and the interrupt mask registers. -/
structure Pic where
  cached_irq_mask : BitVec 32
  master_imr : BitVec 8
  slave_imr : BitVec 8

/-- `running` counts the calls of `handle_irq_event` whose handlers run. -/
structure System where
  pic : Pic
  desc : Nat → irq_desc
  running : Nat → Nat

/-! ### `i8259.c` -/

def Pic.cached_master_mask (pic : Pic) : BitVec 8 := pic.cached_irq_mask.extractLsb' 0 8
def Pic.cached_slave_mask (pic : Pic) : BitVec 8 := pic.cached_irq_mask.extractLsb' 8 8

def write_imr (irq : Nat) (pic : Pic) : Pic :=
  if irq &&& 8 ≠ 0 then { pic with slave_imr := pic.cached_slave_mask }
  else { pic with master_imr := pic.cached_master_mask }

def mask_8259A_irq (irq : Nat) (pic : Pic) : Pic :=
  write_imr irq { pic with cached_irq_mask := pic.cached_irq_mask ||| BitVec.twoPow 32 irq }

def unmask_8259A_irq (irq : Nat) (pic : Pic) : Pic :=
  write_imr irq { pic with cached_irq_mask := pic.cached_irq_mask &&& ~~~BitVec.twoPow 32 irq }

/-- A spurious interrupt is handled like a real one. -/
def mask_and_ack_8259A (irq : Nat) (pic : Pic) : Pic :=
  if pic.cached_irq_mask &&& BitVec.twoPow 32 irq ≠ 0 then write_imr irq pic
  else write_imr irq { pic with cached_irq_mask := pic.cached_irq_mask ||| BitVec.twoPow 32 irq }

/-! ### `chip.c` and `resend.c` -/

section
variable (irq : Nat)

def set_desc (desc : irq_desc) (s : System) : System := { s with desc := Function.update s.desc irq desc }

/-- The chip has no retrigger. -/
def check_irq_resend (s : System) : System :=
  let desc := s.desc irq
  if desc.level then s else
  if desc.replay then s else
  if desc.pending then set_desc irq { desc with pending := false, replay := true } s else s

def irq_enable (s : System) : System :=
  set_desc irq { s.desc irq with disabled := false, masked := false } { s with pic := unmask_8259A_irq irq s.pic }

def irq_disable (s : System) : System :=
  set_desc irq { s.desc irq with disabled := true, masked := true } { s with pic := mask_8259A_irq irq s.pic }

/-- With `resend`. -/
def irq_startup (s : System) : System :=
  check_irq_resend irq (irq_enable irq (set_desc irq { s.desc irq with disabled := false, depth := 0 } s))

def irq_shutdown (s : System) : System :=
  set_desc irq { s.desc irq with disabled := true, depth := 1, masked := true } { s with pic := mask_8259A_irq irq s.pic }

def mask_ack_irq (s : System) : System :=
  set_desc irq { s.desc irq with masked := true } { s with pic := mask_and_ack_8259A irq s.pic }

/-- Nothing sets `threads_oneshot`. -/
def cond_unmask_irq (s : System) : System :=
  let desc := s.desc irq
  if desc.disabled = false ∧ desc.masked = true then
    set_desc irq { desc with masked := false } { s with pic := unmask_8259A_irq irq s.pic }
  else s

/-- `handle_level_irq` up to the handlers, or to its end where it runs none; no poll is ever in progress. -/
def handle_level_irq (s : System) : System :=
  let s := mask_ack_irq irq s
  let desc := s.desc irq
  if desc.inprogress then s else
  let desc := { desc with replay := false }
  if desc.action = [] ∨ desc.disabled = true then set_desc irq { desc with pending := true } s
  else set_desc irq { desc with pending := false, inprogress := true } { s with running := Function.update s.running irq (s.running irq + 1) }

/-- The rest of it, behind the handlers. -/
def handled (s : System) : System :=
  if s.running irq = 0 then s else
  cond_unmask_irq irq (set_desc irq { s.desc irq with inprogress := false }
    { s with running := Function.update s.running irq (s.running irq - 1) })

/-! ### `manage.c` -/

/-- The new action may share the line with the first one. -/
def compatible (old new : irqaction) : Bool :=
  old.flags &&& new.flags &&& IRQF_SHARED != 0 && (old.flags ^^^ new.flags) &&& IRQF_TRIGGER_MASK == 0 &&
    (old.flags ^^^ new.flags) &&& IRQF_ONESHOT == 0 && old.flags &&& IRQF_PERCPU == new.flags &&& IRQF_PERCPU

/-- `__enable_irq` but for the resumption. -/
def enable_irq (s : System) : System :=
  let desc := s.desc irq
  if desc.depth = 0 then s else
  let s := if desc.depth = 1 then check_irq_resend irq (irq_enable irq s) else s
  set_desc irq { s.desc irq with depth := sub (s.desc irq).depth 1 } s

/-- `__setup_irq`; the chip cannot set a trigger type, so that this never fails. -/
def setup_irq (new : irqaction) (s : System) : Option System :=
  match (s.desc irq).action with
  | [] =>
    let s := irq_startup irq (set_desc irq { s.desc irq with spurious_disabled := false, inprogress := false } s)
    some (set_desc irq { s.desc irq with action := [new] } s)
  | old :: others =>
    if compatible old new = false then none else
    let s := set_desc irq { s.desc irq with action := old :: others ++ [new] } s
    if (s.desc irq).spurious_disabled then
      some (enable_irq irq (set_desc irq { s.desc irq with spurious_disabled := false } s))
    else some s

/-- `none` is an error; `memory` is whether there is memory for the action. -/
def request_threaded_irq (flags : BitVec 32) (dev_id : Nat) (memory : Bool) (s : System) : Option System :=
  if flags &&& IRQF_SHARED ≠ 0 ∧ dev_id = 0 then none else
  if memory = false then none else
  setup_irq irq ⟨dev_id,flags⟩ s

def disable_irq (s : System) : System :=
  let depth := (s.desc irq).depth
  let s := set_desc irq { s.desc irq with depth := add depth 1 } s
  if depth = 0 then irq_disable irq s else s

def free_irq (dev_id : Nat) (s : System) : System :=
  let desc := s.desc irq
  if desc.action.any (fun action => action.dev_id = dev_id) = false then s else
  let s := set_desc irq { desc with action := desc.action.eraseP fun action => action.dev_id = dev_id } s
  if (s.desc irq).action = [] then irq_shutdown irq s else s

end

/-! ### Runs -/

inductive Act
  | request (irq : Nat) (flags : BitVec 32) (dev_id : Nat) (memory : Bool)
  | free (irq dev_id : Nat)
  | disable (irq : Nat)
  | enable (irq : Nat)
  | interrupt (irq : Nat)
  | handled (irq : Nat)

def Act.irq : Act → Nat
  | .request irq _ _ _ | .free irq _ | .disable irq | .enable irq | .interrupt irq | .handled irq => irq

def step (s : System) : Act → System
  | .request irq flags dev_id memory => (request_threaded_irq irq flags dev_id memory s).getD s
  | .free irq dev_id => free_irq irq dev_id s
  | .disable irq => disable_irq irq s
  | .enable irq => enable_irq irq s
  | .interrupt irq => handle_level_irq irq s
  | .handled irq => IrqLine.handled irq s

def run (s : System) (acts : List Act) : System := acts.foldl step s

/-- Behind `early_irq_init` and `init_8259A`. -/
def boot : System where
  pic := ⟨0xffff,0xff,0xff⟩
  desc := fun _ => ⟨[],1,true,false,false,false,false,false,false⟩
  running := fun _ => 0

/-- The bit of the line in the mask registers. -/
def Pic.blocked (pic : Pic) (irq : Nat) : Bool :=
  if irq < 8 then pic.master_imr.getLsbD irq else pic.slave_imr.getLsbD (irq - 8)

end GridOS.IrqLine
