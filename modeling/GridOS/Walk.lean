import GridOS.Words
import Mathlib.Data.List.Basic
import Mathlib.Logic.Function.Basic

/-!
The walk over a range of virtual addresses of `source/kernel/memory/walk.c` and
`source/kernel/include/walk.h`, and the freeing of a range of `page.c`. The counts and
flags are those of x86. A second-level table is named by its entry in the first-level
table; the entry of a table that is not there is `none`.
-/
namespace GridOS.Walk
open GridOS.Words

def PAGE_SIZE : Nat := 4096
def ARCH_KM_LV1_COUNT : Nat := 1024
def ARCH_KM_LV2_COUNT : Nat := 1024
def KM_WALK_MAX_LEVEL : Nat := 2
def PAGE_FLAG_VALID : Nat := 1
def PAGE_FLAG_FROM_OTHER : Nat := 512

/-- `struct km`. -/
structure Km where
  translation_table : Option (Nat → Option (Nat → Nat))

/-- `struct km_walk_ctx`, of whose `table_base` only the entry of level 1 is read. -/
structure km_walk_ctx where
  hirarch_id : Nat → Nat
  table_base : Nat
  current_virtual_address : Nat

/-- `level_id`, an alias of the first `hirarch_id`. -/
def km_walk_ctx.level_id (ctx : km_walk_ctx) : Nat := ctx.hirarch_id 0

def km_get_vid (level va : Nat) : Nat :=
  if level = 2 then (va >>> 22) &&& (ARCH_KM_LV2_COUNT - 1)
  else if level = 1 then (va >>> 12) &&& (ARCH_KM_LV1_COUNT - 1)
  else 4294967295

/-- `km_get_sub_table` of the first-level table. -/
def Km.sub_table (mem : Km) (sub_id : Nat) : Option (Nat → Nat) := mem.translation_table.bind (fun table => table sub_id)

/-- `km_walk_to` without a `miss_action`. A table that is missing leaves `level_id` at the
    level above it. -/
def km_walk_to (mem : Km) (ctx : km_walk_ctx) (va : Nat) : Bool × km_walk_ctx :=
  let ctx := { ctx with
    hirarch_id := Function.update ctx.hirarch_id 0 KM_WALK_MAX_LEVEL
    current_virtual_address := va }
  match mem.translation_table with
  | none => (false,ctx)
  | some table =>
    let sub_id := km_get_vid 2 va
    let ctx := { ctx with hirarch_id := Function.update (Function.update ctx.hirarch_id 2 sub_id) 0 2 }
    match table sub_id with
    | none => (false,ctx)
    | some _ => (true,{ ctx with
        hirarch_id := Function.update (Function.update ctx.hirarch_id 1 (km_get_vid 1 va)) 0 1
        table_base := sub_id })

/-- Adjust to the next entry. -/
def km_pte_next (mem : Km) (ctx : km_walk_ctx) : Bool × km_walk_ctx :=
  let ctx := { ctx with current_virtual_address := add ctx.current_virtual_address PAGE_SIZE }
  if ctx.hirarch_id 1 + 1 ≠ ARCH_KM_LV1_COUNT then
    (true,{ ctx with hirarch_id := Function.update ctx.hirarch_id 1 (ctx.hirarch_id 1 + 1) })
  else km_walk_to mem ctx ctx.current_virtual_address

def km_pte_read (mem : Km) (ctx : km_walk_ctx) : Nat :=
  ((mem.sub_table ctx.table_base).map (fun table => table (ctx.hirarch_id 1))).getD 0

def km_pte_write_force (mem : Km) (ctx : km_walk_ctx) (what : Nat) : Km where
  translation_table := mem.translation_table.map (fun table => Function.update table ctx.table_base
    ((table ctx.table_base).map (fun entries => Function.update entries (ctx.hirarch_id 1) what)))

def km_get_sub_level_size (id : Nat) : Nat :=
  if id = 1 then ARCH_KM_LV1_COUNT * PAGE_SIZE else 0

/-- Jump to the address behind the level: how many bytes it jumps, and where it is. -/
def km_walk_jump (ctx : km_walk_ctx) : Nat × km_walk_ctx :=
  let old := ctx.current_virtual_address
  let level_size := km_get_sub_level_size ctx.level_id
  let current := add (old ||| sub level_size 1) 1
  (sub current old,{ ctx with current_virtual_address := current })

section Loop
variable {σ : Type} (meet_action : Nat → Nat → σ → Option Nat × σ)

/-- The variables of `km_walk_loop`, with the memory and the rest of the kernel that
    `meet_action` changes, and the addresses it has been called on. -/
structure Progress (σ : Type) where
  ctx : km_walk_ctx
  s : Nat
  mem : Km
  rest : σ
  visited : List Nat

/-- `meet_action(ctx, pte)`: it is given the address and the entry there, and may write
    the entry. -/
def meet (p : Progress σ) : Progress σ :=
  let met := meet_action p.ctx.current_virtual_address (km_pte_read p.mem p.ctx) p.rest
  { p with
    s := add p.s PAGE_SIZE
    mem := match met.1 with
      | some what => km_pte_write_force p.mem p.ctx what
      | none => p.mem
    rest := met.2
    visited := p.visited ++ [p.ctx.current_virtual_address] }

/-- The loop over the entries; `none` when it takes more rounds. -/
def pte_loop (size : Nat) : Nat → Progress σ → Option (Progress σ)
  | 0, _ => none
  | rounds+1, p =>
    let p := meet meet_action p
    if p.s < size then
      let next := km_pte_next p.mem p.ctx
      if next.1 then pte_loop size rounds { p with ctx := next.2 } else some { p with ctx := next.2 }
    else some p

/-- The loop over the tables; `none` when it takes more rounds. -/
def table_loop (size : Nat) : Nat → Bool → Progress σ → Option (Progress σ)
  | 0, _, _ => none
  | rounds+1, jump, p =>
    let entries (p : Progress σ) : Option (Progress σ) :=
      match pte_loop meet_action size (rounds + 1) p with
      | none => none
      | some p => if p.s < size then table_loop size rounds true p else some p
    if jump then
      let jumped := km_walk_jump p.ctx
      let s := add p.s jumped.1
      if s ≥ size then some { p with ctx := jumped.2, s } else
      let walked := km_walk_to p.mem jumped.2 jumped.2.current_virtual_address
      if walked.1 then entries { p with ctx := walked.2, s } else table_loop size rounds true { p with ctx := walked.2, s }
    else entries p

/-- `km_walk_loop`, for `rounds` of its loops at most. -/
def km_walk_loop (rounds : Nat) (mem : Km) (rest : σ) (ctx : km_walk_ctx) (start size : Nat) : Option (Progress σ) :=
  let walked := km_walk_to mem ctx start
  table_loop meet_action size rounds (walked.1 == false) { ctx := walked.2, s := 0, mem, rest, visited := [] }

end Loop

def KE_PAGE_INVALID_PTE (pte : Nat) : Bool := pte == 0 || pte &&& PAGE_FLAG_VALID == 0
def KE_PAGE_IS_SHARED_FROM (pte : Nat) : Bool := pte &&& PAGE_FLAG_FROM_OTHER != 0
def KE_PAGE_PHY_FROM_PTE (pte : Nat) : Nat := pte &&& 0xfffff000

/-- The action of `km_page_dealloc_range`; the list is of the frames it gives to
    `km_page_dealloc`. -/
def delete_page (_va pte : Nat) (freed : List Nat) : Option Nat × List Nat :=
  if KE_PAGE_INVALID_PTE pte then (none,freed) else
  (some 0,if KE_PAGE_IS_SHARED_FROM pte then freed else freed ++ [KE_PAGE_PHY_FROM_PTE pte])

def km_page_dealloc_range (rounds : Nat) (mem : Km) (ctx : km_walk_ctx) (start size : Nat) : Option (Km × List Nat) :=
  (km_walk_loop delete_page rounds mem [] ctx start size).map (fun p => (p.mem,p.rest))

end GridOS.Walk
