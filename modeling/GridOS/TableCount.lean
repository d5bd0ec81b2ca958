import GridOS.MlttRuns
import Mathlib.Data.Finset.Card

/-!
The occupancy of the tables in `source/subsystem/fs/mltt.c`: the counter and the mark USING in the low
bits of an entry of the `lv2` table, for threads that search one file while others wait in
`fss_grab_buffer` with the lock dropped. A step is what happens with the lock held. A thread that
comes back from its wait does not see who else was there: it counts an entry that another thread has
filled again, and it takes the mark away from all other waiters of the table.
-/
namespace GridOS.TableCount
open GridOS.Mltt (fss_mltt_pos calc_mltt_pos MLTT_ENTRY_COUNT)

def MLTT_PAGE_SIZE : Nat := 16384
def MLTT_TABLE_USING : Nat := 8192
/-- The number of descriptors of the cache; a descriptor is named by its number from 1 on. -/
def dbd_count : Nat := 32

/-! ### The words of the `lv2` table -/

/-- `entry & MLTT_TABLE_POINTER_MASK`. -/
def pointer (entry : Nat) : Nat := entry - entry % MLTT_PAGE_SIZE
/-- `entry & MLTT_TABLE_COUNTER_MASK`. -/
def counter (entry : Nat) : Nat := entry % MLTT_ENTRY_COUNT
/-- `entry & MLTT_TABLE_USING`. -/
def marked (entry : Nat) : Bool := entry / MLTT_TABLE_USING % 2 == 1
/-- `entry | MLTT_TABLE_USING`. -/
def mark (entry : Nat) : Nat := if marked entry then entry else entry + MLTT_TABLE_USING
/-- `entry & ~MLTT_TABLE_USING`. -/
def unmark (entry : Nat) : Nat := if marked entry then entry - MLTT_TABLE_USING else entry

/-- A thread is outside, or in `fss_grab_buffer` with the table and the position that it comes back to. -/
inductive Pc
  | outside
  | waiting (lv1 : Nat) (pos : fss_mltt_pos) (block_id : Nat)
  deriving DecidableEq

/-- The tables of a file: the words of the `lv2` table and the `lv1` tables by their addresses, `none` where there
    is none. `pool` are the free descriptors, `elsewhere` those that are neither free nor in the tables. The last
    field says which waiting threads have had their table freed. -/
structure State (τ : Type) where
  lv2 : Nat → Nat
  tables : Nat → Option (Nat → Nat)
  block_id : Nat → Nat
  pool : List Nat
  elsewhere : List Nat
  pc : τ → Pc
  stale : τ → Bool

section Code
variable {τ : Type} [DecidableEq τ]

def entry_at (s : State τ) (lv1 k : Nat) : Nat := ((s.tables lv1).map (fun table => table k)).getD 0

/-- `lv1->ptr[k] = value`. -/
def set_entry (lv1 k value : Nat) (s : State τ) : State τ :=
  { s with tables := Function.update s.tables lv1 ((s.tables lv1).map (fun table => Function.update table k value)) }

def set_word (k value : Nat) (s : State τ) : State τ := { s with lv2 := Function.update s.lv2 k value }

def move (t : τ) (pc : Pc) (s : State τ) : State τ := { s with pc := Function.update s.pc t pc }

/-- The table of the position, which is made at the given address when it is missing. -/
def allocate_lv1 (pos : fss_mltt_pos) (address : Nat) (s : State τ) : State τ :=
  if pointer (s.lv2 pos.lv2) = 0 then
    set_word pos.lv2 address { s with tables := Function.update s.tables address (some (fun _ => 0)) }
  else s

/-- The end of the search: the entry, one more pointer, and the block of the descriptor. -/
def settle (t : τ) (lv1 : Nat) (pos : fss_mltt_pos) (block_id dbd : Nat) (s : State τ) : State τ :=
  let s := set_entry lv1 pos.lv1 dbd s
  let s := set_word pos.lv2 (s.lv2 pos.lv2 + 1) s
  move t .outside { s with block_id := Function.update s.block_id dbd block_id }

/-- `fss_dbd_malloc` for an empty entry: the thread has a descriptor, or it waits. -/
def fill (t : τ) (lv1 : Nat) (pos : fss_mltt_pos) (block_id : Nat) (s : State τ) : State τ :=
  match s.pool with
  | dbd :: pool => settle t lv1 pos block_id dbd { s with pool }
  | [] => move t (.waiting lv1 pos block_id) (set_word pos.lv2 (mark (s.lv2 pos.lv2)) s)

/-- `search_mltt` up to the unlock; a new table has the given address. -/
def search_mltt (t : τ) (block_id address : Nat) (s : State τ) : State τ :=
  let pos := calc_mltt_pos block_id
  let s := allocate_lv1 pos address s
  let lv1 := pointer (s.lv2 pos.lv2)
  if entry_at s lv1 pos.lv1 = 0 then fill t lv1 pos block_id s else s

/-- `search_mltt` behind `fss_grab_buffer`, which has succeeded or not. -/
def grabbed (t : τ) (ok : Bool) (s : State τ) : State τ :=
  match s.pc t with
  | .outside => s
  | .waiting lv1 pos block_id =>
    if ok then
      let lv1_entry := entry_at s lv1 pos.lv1
      let s := set_word pos.lv2 (unmark (s.lv2 pos.lv2)) s
      if lv1_entry = 0 then fill t lv1 pos block_id s else settle t lv1 pos block_id lv1_entry s
    else move t .outside s

/-- `deallocate_lv1`. -/
def deallocate_lv1 (lv1 : Nat) (s : State τ) : State τ :=
  { s with
    tables := Function.update s.tables lv1 none
    stale := fun t => s.stale t || match s.pc t with
      | .waiting lv1' _ _ => lv1' == lv1
      | .outside => false }

def fss_mltt_entry_clean_nolock (dbd : Nat) (s : State τ) : State τ :=
  let pos := calc_mltt_pos (s.block_id dbd)
  let lv1 := pointer (s.lv2 pos.lv2)
  let s := { set_entry lv1 pos.lv1 0 s with elsewhere := dbd :: s.elsewhere }
  let s := set_word pos.lv2 (s.lv2 pos.lv2 - 1) s
  if counter (s.lv2 pos.lv2) = 0 ∧ marked (s.lv2 pos.lv2) = false then deallocate_lv1 lv1 (set_word pos.lv2 0 s) else s

/-- `fss_dbd_free`. -/
def fss_dbd_free (dbd : Nat) (s : State τ) : State τ :=
  { s with pool := dbd :: s.pool, elsewhere := s.elsewhere.erase dbd }

/-- Another file takes a descriptor. -/
def taken (s : State τ) : State τ := { s with pool := s.pool.tail, elsewhere := s.pool.head?.toList ++ s.elsewhere }

/-- A file without tables, when the cache has these descriptors left. -/
def initial (pool elsewhere : List Nat) : State τ :=
  { lv2 := fun _ => 0, tables := fun _ => none, block_id := fun _ => 0, pool, elsewhere, pc := fun _ => .outside,
    stale := fun _ => false }

end Code

/-! ### Runs -/

section Runs
variable {τ : Type} [DecidableEq τ]

/-- The thread waits for the table at the index of the `lv2` table. -/
def Waits (s : State τ) (t : τ) (k : Nat) : Prop := ∃ lv1 pos block_id, s.pc t = .waiting lv1 pos block_id ∧ pos.lv2 = k

/-- The states reached in runs whose steps all meet `allowed`, which is told which thread comes back from its wait,
    with what, or which descriptor is cleaned. -/
inductive Run (back : State τ → τ → Bool → Prop) (clean : State τ → Nat → Prop) : State τ → Prop
  | init {pool elsewhere : List Nat} (known : (pool ++ elsewhere).Perm (List.range' 1 dbd_count)) :
      Run back clean (initial pool elsewhere)
  | search {s : State τ} {t : τ} {address : Nat} (block_id : Nat) (run : Run back clean s) (outside : s.pc t = .outside)
      (aligned : MLTT_PAGE_SIZE ∣ address) (some_memory : 0 < address) (free : s.tables address = none) :
      Run back clean (search_mltt t block_id address s)
  | grabbed {s : State τ} {t : τ} {ok : Bool} (run : Run back clean s) (condition : back s t ok) :
      Run back clean (grabbed t ok s)
  | clean {s : State τ} {dbd : Nat} (run : Run back clean s) (there : dbd ≠ 0)
      (linked : entry_at s (pointer (s.lv2 (calc_mltt_pos (s.block_id dbd)).lv2)) (calc_mltt_pos (s.block_id dbd)).lv1 = dbd)
      (condition : clean s dbd) : Run back clean (fss_mltt_entry_clean_nolock dbd s)
  | free {s : State τ} {dbd : Nat} (run : Run back clean s) (loose : dbd ∈ s.elsewhere) : Run back clean (fss_dbd_free dbd s)
  | taken {s : State τ} (run : Run back clean s) : Run back clean (taken s)

/-- The entries of a table that are not null. -/
def occupied (table : Nat → Nat) : Nat := ((Finset.range MLTT_ENTRY_COUNT).filter (fun j => table j ≠ 0)).card

/-- The counters are right, an empty table is one that a thread waits for, and the table of a waiting thread was not
    freed. -/
structure Counted (s : State τ) : Prop where
  counters : ∀ k, pointer (s.lv2 k) ≠ 0 → ∃ table, s.tables (pointer (s.lv2 k)) = some table ∧
    counter (s.lv2 k) = occupied table
  freed : ∀ k, pointer (s.lv2 k) ≠ 0 → counter (s.lv2 k) = 0 → ∃ t, Waits s t k
  used : ∀ t lv1 pos block_id, s.pc t = .waiting lv1 pos block_id →
    pointer (s.lv2 pos.lv2) = lv1 ∧ lv1 ≠ 0 ∧ s.stale t = false

/-- A thread that comes back from its wait finds its entry empty; one whose wait has failed leaves a table that is not
    empty, or that another thread waits for. -/
def Alone (s : State τ) (t : τ) (ok : Bool) : Prop :=
  ∀ lv1 pos block_id, s.pc t = .waiting lv1 pos block_id →
    if ok then entry_at s lv1 pos.lv1 = 0
    else counter (s.lv2 pos.lv2) ≠ 0 ∨ ∃ other, other ≠ t ∧ Waits s other pos.lv2

/-- When the last entry of a table is cleaned, the table is marked exactly if a thread waits for it. -/
def Guarded (s : State τ) (dbd : Nat) : Prop :=
  counter (s.lv2 (calc_mltt_pos (s.block_id dbd)).lv2) = 1 →
    (marked (s.lv2 (calc_mltt_pos (s.block_id dbd)).lv2) = true ↔ ∃ t, Waits s t (calc_mltt_pos (s.block_id dbd)).lv2)

end Runs
end GridOS.TableCount
