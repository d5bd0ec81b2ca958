import Mathlib.Data.List.Basic
import Mathlib.Logic.Function.Basic

/-!
The block cache of the file subsystem: the translation tables of
`source/subsystem/fs/mltt.c`, the pools of `block.c` and `fss_block_io` of `main.c`.
Descriptors and buffers are named by their index in the pools. There is no eviction:
`fss_grab_buffer` gives up when a pool is empty. An operation is `none` when the code
follows a null pointer, which it does when it gets no memory for a table.
-/
namespace GridOS.Mltt

/-- `MLTT_PAGE_SIZE / MLTT_ENTRY_SIZE`. -/
def MLTT_ENTRY_COUNT : Nat := 16384 / 4
/-- `FSS_CACHE_SIZE / FSS_CACHE_DB_SIZE`. -/
def db_count : Nat := 8388608 / 262144

/-- `struct fss_mltt_pos`. -/
structure fss_mltt_pos where
  lv1 : Nat
  lv2 : Nat
deriving DecidableEq

/-- The number of bits `calc_mltt_pos` gives to a level of tables. -/
def lv_bits : Nat := if MLTT_ENTRY_COUNT = 1024 then 10 else if MLTT_ENTRY_COUNT = 2048 then 11 else
  if MLTT_ENTRY_COUNT = 4096 then 12 else 0

def calc_mltt_pos (block_id : Nat) : fss_mltt_pos where
  lv1 := block_id &&& ((1 <<< lv_bits) - 1)
  lv2 := (block_id >>> lv_bits) &&& ((1 <<< lv_bits) - 1)

/-- A `struct dbd`; `valid` and `dirty` are its `DB_VALID_DATA` and `DB_DIRTY`. -/
structure Dbd (φ : Type) where
  block_id : Nat
  who : Option φ
  buffer : Option Nat
  valid_size : Nat
  valid : Bool
  dirty : Bool

/-- The descriptor that `fss_dbd_malloc` makes. -/
def fresh_dbd {φ : Type} (who : φ) : Dbd φ where
  block_id := 0
  who := some who
  buffer := none
  valid_size := 0
  valid := false
  dirty := false

/-- The cache: for each file its `lv2` table, the descriptors and the contents of the
    buffers, and the stacks of free ones. -/
structure Cache (φ β : Type) where
  lv2 : φ → Option (Nat → Option (Nat → Option Nat))
  dbds : Nat → Dbd φ
  buffers : Nat → β
  dbd_stack : List Nat
  db_stack : List Nat

/-- `fss_db_init`, over memory that holds whatever it holds. -/
def fss_db_init {φ β : Type} (dbds : Nat → Dbd φ) (buffers : Nat → β) : Cache φ β where
  lv2 := fun _ => none
  dbds := dbds
  buffers := buffers
  dbd_stack := (List.range db_count).reverse
  db_stack := (List.range db_count).reverse

section Operations
variable {φ β : Type} [DecidableEq φ]

def fss_dbd_malloc (cache : Cache φ β) (who : φ) : Option (Nat × Cache φ β) :=
  match cache.dbd_stack with
  | [] => none
  | ret :: rest => some (ret,{ cache with
      dbd_stack := rest
      dbds := Function.update cache.dbds ret (fresh_dbd who) })

def fss_db_malloc (cache : Cache φ β) : Option (Nat × Cache φ β) :=
  match cache.db_stack with
  | [] => none
  | ret :: rest => some (ret,{ cache with db_stack := rest })

/-- The entry of the `lv1` table at `pos`, if there are tables. -/
def lv1_entry (cache : Cache φ β) (file : φ) (pos : fss_mltt_pos) : Option Nat :=
  (cache.lv2 file).bind (fun lv2 => (lv2 pos.lv2).bind (fun lv1 => lv1 pos.lv1))

/-- The `lv2` table of the file, made when it is missing and there is `memory`. -/
def allocate_lv2 (cache : Cache φ β) (file : φ) (memory : Bool) : Option (Cache φ β) :=
  match cache.lv2 file with
  | some _ => some cache
  | none => if memory then some { cache with lv2 := Function.update cache.lv2 file (some (fun _ => none)) } else none

/-- The `lv1` table at `pos`, made when it is missing and there is `memory`. -/
def allocate_lv1 (cache : Cache φ β) (file : φ) (pos : fss_mltt_pos) (memory : Bool) : Option (Cache φ β) :=
  match (cache.lv2 file).bind (fun lv2 => lv2 pos.lv2) with
  | some _ => some cache
  | none => if memory then
      some { cache with lv2 := Function.update cache.lv2 file ((cache.lv2 file).map (fun lv2 =>
        Function.update lv2 pos.lv2 (some (fun _ => none)))) }
    else none

/-- `lv1->ptr[pos->lv1] = lv1_entry`. -/
def set_entry (cache : Cache φ β) (file : φ) (pos : fss_mltt_pos) (entry : Nat) : Cache φ β :=
  { cache with lv2 := Function.update cache.lv2 file ((cache.lv2 file).map (fun lv2 =>
      Function.update lv2 pos.lv2 ((lv2 pos.lv2).map (fun lv1 => Function.update lv1 pos.lv1 (some entry))))) }

/-- The end of `search_mltt`: the descriptor gets a buffer if it has none. -/
def give_buffer (cache : Cache φ β) (who : Nat) : Cache φ β × Option Nat :=
  match (cache.dbds who).buffer with
  | some _ => (cache,some who)
  | none =>
    match fss_db_malloc cache with
    | none => (cache,none)
    | some (buffer,cache) =>
      ({ cache with dbds := Function.update cache.dbds who { cache.dbds who with buffer := some buffer } },some who)

def search_mltt (cache : Cache φ β) (file : φ) (pos : fss_mltt_pos) (block_id : Nat) (memory2 memory1 : Bool) :
    Option (Cache φ β × Option Nat) :=
  match allocate_lv2 cache file memory2 with
  | none => none
  | some cache =>
    match allocate_lv1 cache file pos memory1 with
    | none => none
    | some cache =>
      match lv1_entry cache file pos with
      | some who => some (give_buffer cache who)
      | none =>
        match fss_dbd_malloc cache file with
        | none => some (cache,none)
        | some (who,cache) =>
          let cache := set_entry cache file pos who
          some (give_buffer { cache with dbds := Function.update cache.dbds who { cache.dbds who with block_id } } who)

def fss_dbd_get (cache : Cache φ β) (who : φ) (block_id : Nat) (memory2 memory1 : Bool) :
    Option (Cache φ β × Option Nat) :=
  search_mltt cache who (calc_mltt_pos block_id) block_id memory2 memory1

/-- The driver: which files it has opened, and `fRead` with the contents and the size of a
    block. -/
structure Driver (φ β : Type) where
  opened : φ → Bool
  fRead : φ → Nat → β × Nat

variable (driver : Driver φ β)

/-- `fss_dbd_make_valid`, and whether it succeeds. -/
def fss_dbd_make_valid (cache : Cache φ β) (who : φ) (which : Nat) : Cache φ β × Bool :=
  let dbd := cache.dbds which
  if dbd.valid then (cache,true) else
  if driver.opened who = false then (cache,false) else
  let read := driver.fRead who dbd.block_id
  ({ cache with
    buffers := match dbd.buffer with
      | some buffer => Function.update cache.buffers buffer read.1
      | none => cache.buffers
    dbds := Function.update cache.dbds which { dbd with valid_size := read.2, valid := true } },true)

/-- A call of `fss_block_io`, a write if it has `data`, and whether there is memory for
    tables. -/
structure Call (φ β : Type) where
  who : φ
  block : Nat
  data : Option β
  memory2 : Bool
  memory1 : Bool

/-- What a call does for its caller. -/
inductive Reply (β : Type) where
  | failed
  | read (buffer : β) (size : Nat)
  | written (size : Nat)

def fss_block_io (cache : Cache φ β) (call : Call φ β) : Option (Cache φ β × Reply β) :=
  match fss_dbd_get cache call.who call.block call.memory2 call.memory1 with
  | none => none
  | some (cache,none) => some (cache,.failed)
  | some (cache,some which) =>
    let made := fss_dbd_make_valid driver cache call.who which
    if made.2 = false then some (made.1,.failed) else
    match (made.1.dbds which).buffer, call.data with
    | none, _ => none
    | some buffer, none => some (made.1,.read (made.1.buffers buffer) (made.1.dbds which).valid_size)
    | some buffer, some data => some ({ made.1 with
        buffers := Function.update made.1.buffers buffer data
        dbds := Function.update made.1.dbds which { made.1.dbds which with dirty := true } },
        .written (made.1.dbds which).valid_size)

/-- A sequence of calls, and what each of them did; `none` when one of them crashed. -/
def run : Cache φ β → List (Call φ β) → Option (Cache φ β × List (Reply β))
  | cache, [] => some (cache,[])
  | cache, call :: calls =>
    match fss_block_io driver cache call with
    | none => none
    | some (cache,reply) => (run cache calls).map (fun rest => (rest.1,reply :: rest.2))

end Operations
end GridOS.Mltt
