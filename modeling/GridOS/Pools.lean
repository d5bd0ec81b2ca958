import Mathlib.Data.List.Basic
import Mathlib.Data.List.Count
import Mathlib.Data.List.Perm.Basic
import Mathlib.Data.List.Range
import Mathlib.Tactic

/-!
The two pools of the block cache, `source/subsystem/fs/block.c`: the array `db_stack` of free
buffers, and the free descriptors, which are stacked through their `list.prev`. The pools are
coupled: a descriptor that is freed gives its buffer back.
-/
namespace GridOS.Pools

def FSS_CACHE_SIZE : Nat := 8388608
def FSS_CACHE_DB_SIZE : Nat := 262144

/-- What `list.prev` may point to: nothing, a descriptor, or the member `list` of one. -/
inductive Link
  | null
  | dbd (i : Nat)
  | list (i : Nat)
  deriving DecidableEq

/-- A `struct dbd`: what the pools use of it. -/
structure Dbd (φ : Type) where
  list_prev : Link
  buffer : Nat
  who : Option φ

structure fss_cache (φ : Type) where
  db_count : Nat
  db_cache : Nat
  db_stack : Nat → Nat
  db_stack_top : Int
  dbd_cache : Nat → Dbd φ
  dbd_stack_top : Link

section Code
variable {φ : Type}

/-- The address of the `i`-th buffer. -/
def fss_cache.db (c : fss_cache φ) (i : Nat) : Nat := c.db_cache + i * FSS_CACHE_DB_SIZE

/-- The loop that fills `db_stack`. -/
def push_dbs (db_cache db_count : Nat) (db_stack : Nat → Nat) : Nat → Nat :=
  (List.range db_count).foldl (fun db_stack i => Function.update db_stack i (db_cache + i * FSS_CACHE_DB_SIZE)) db_stack

/-- The loop that stacks the descriptors: the array and `dbd_stack_top`. -/
def push_dbds (db_count : Nat) (dbd_cache : Nat → Dbd φ) : (Nat → Dbd φ) × Link :=
  (List.range db_count).foldl (fun s i =>
    (Function.update s.1 i { s.1 i with buffer := 0, list_prev := s.2 },.dbd i)) (dbd_cache,.null)

/-- `fss_db_init` with the memory that it gets, which holds whatever it holds. -/
def fss_db_init (cache_size db_cache : Nat) (db_stack : Nat → Nat) (dbd_cache : Nat → Dbd φ) : fss_cache φ :=
  let db_count := cache_size / FSS_CACHE_DB_SIZE
  let dbds := push_dbds db_count dbd_cache
  { db_count, db_cache, db_stack := push_dbs db_cache db_count db_stack, db_stack_top := db_count - 1,
    dbd_cache := dbds.1, dbd_stack_top := dbds.2 }

/-- The address of a buffer, or 0. -/
def fss_db_malloc (c : fss_cache φ) : Nat × fss_cache φ :=
  if c.db_stack_top ≥ 0 then (c.db_stack c.db_stack_top.toNat,{ c with db_stack_top := c.db_stack_top - 1 }) else (0,c)

def set_dbd (c : fss_cache φ) (i : Nat) (dbd : Dbd φ) : fss_cache φ :=
  { c with dbd_cache := Function.update c.dbd_cache i dbd }

def fss_dbd_malloc (who : φ) (c : fss_cache φ) : Option Nat × fss_cache φ :=
  match c.dbd_stack_top with
  | .dbd ret => (some ret,set_dbd { c with dbd_stack_top := (c.dbd_cache ret).list_prev } ret
      { list_prev := .list ret, buffer := 0, who := some who })
  | _ => (none,c)

/-- The buffer of a descriptor goes back to its stack. -/
def free_buffer (i : Nat) (c : fss_cache φ) : fss_cache φ :=
  if (c.dbd_cache i).buffer ≠ 0 then
    set_dbd { c with
      db_stack_top := c.db_stack_top + 1
      db_stack := Function.update c.db_stack (c.db_stack_top + 1).toNat (c.dbd_cache i).buffer } i
      { c.dbd_cache i with buffer := 0 }
  else c

def fss_dbd_free (i : Nat) (c : fss_cache φ) : fss_cache φ :=
  let c := free_buffer i c
  { set_dbd c i { c.dbd_cache i with list_prev := c.dbd_stack_top, who := none } with dbd_stack_top := .dbd i }

/-- A descriptor without a buffer gets one, in `search_mltt`. -/
def give_buffer (i : Nat) (c : fss_cache φ) : fss_cache φ :=
  if (c.dbd_cache i).buffer = 0 then
    let db := fss_db_malloc c
    set_dbd db.2 i { db.2.dbd_cache i with buffer := db.1 }
  else c

/-- The caches reached, with the descriptors in use. -/
inductive Run : fss_cache φ → List Nat → Prop
  | init (cache_size : Nat) {db_cache : Nat} (db_stack : Nat → Nat) (dbd_cache : Nat → Dbd φ) (some_memory : 0 < db_cache) :
      Run (fss_db_init cache_size db_cache db_stack dbd_cache) []
  | dbd_malloc {c : fss_cache φ} {used : List Nat} (who : φ) (run : Run c used) :
      Run (fss_dbd_malloc who c).2 ((fss_dbd_malloc who c).1.toList ++ used)
  | db_malloc {c : fss_cache φ} {used : List Nat} {i : Nat} (run : Run c used) (in_use : i ∈ used) :
      Run (give_buffer i c) used
  | dbd_free {c : fss_cache φ} {used : List Nat} {i : Nat} (run : Run c used) (in_use : i ∈ used) :
      Run (fss_dbd_free i c) (used.erase i)

/-- The slots of `db_stack` up to the top. -/
def slots (c : fss_cache φ) : List Nat := (List.range (c.db_stack_top + 1).toNat).map c.db_stack

/-- The descriptors that are stacked from `top` on. -/
def Stacked (dbd_cache : Nat → Dbd φ) : Link → List Nat → Prop
  | top, [] => top = .null
  | top, i :: rest => top = .dbd i ∧ Stacked dbd_cache (dbd_cache i).list_prev rest

/-- Every buffer is in one slot or in one used descriptor, every descriptor is used or stacked once, and
    the pools give nothing exactly when they are empty. -/
structure Conserved (c : fss_cache φ) (used : List Nat) : Prop where
  top : -1 ≤ c.db_stack_top ∧ c.db_stack_top < c.db_count
  buffers : ∀ k < c.db_count, (slots c).count (c.db k) + (used.map (fun i => (c.dbd_cache i).buffer)).count (c.db k) = 1
  db_empty : (fss_db_malloc c).1 = 0 ↔ slots c = []
  descriptors : ∃ free, Stacked c.dbd_cache c.dbd_stack_top free ∧
    (∀ i < c.db_count, free.count i + used.count i = 1) ∧ ∀ who, (fss_dbd_malloc who c).1 = none ↔ free = []

end Code

section Proofs
variable {φ : Type} {c : fss_cache φ} {used free : List Nat}

/-- The buffers of the descriptors in use. -/
def held (c : fss_cache φ) (used : List Nat) : List Nat := (used.map (fun i => (c.dbd_cache i).buffer)).filter (· ≠ 0)

/-- The buffers and the descriptors are each divided into two parts. -/
structure Inv (c : fss_cache φ) (used : List Nat) : Prop where
  some_memory : 0 < c.db_cache
  bottom : -1 ≤ c.db_stack_top
  buffers : (slots c ++ held c used).Perm ((List.range c.db_count).map c.db)
  descriptors : ∃ free, Stacked c.dbd_cache c.dbd_stack_top free ∧ (free ++ used).Perm (List.range c.db_count)

/-! ### The stacks -/

theorem slots_pop {d : fss_cache φ} (there : 0 ≤ c.db_stack_top) (top : d.db_stack_top = c.db_stack_top - 1)
    (stack : d.db_stack = c.db_stack) : slots c = slots d ++ [c.db_stack c.db_stack_top.toNat] := by
  have above : (c.db_stack_top + 1).toNat = (d.db_stack_top + 1).toNat + 1 := by omega
  have here : (d.db_stack_top + 1).toNat = c.db_stack_top.toNat := by omega
  rw [slots,above,List.range_succ,List.map_append,slots,stack,here]
  rfl

theorem slots_push {d : fss_cache φ} {b : Nat} (bottom : -1 ≤ c.db_stack_top) (top : d.db_stack_top = c.db_stack_top + 1)
    (stack : d.db_stack = Function.update c.db_stack (c.db_stack_top + 1).toNat b) : slots d = slots c ++ [b] := by
  have above : (d.db_stack_top + 1).toNat = (c.db_stack_top + 1).toNat + 1 := by omega
  rw [slots,above,List.range_succ,List.map_append,slots,stack]
  congr 1
  · refine List.map_congr_left ?_
    intro i member
    exact Function.update_of_ne (Nat.ne_of_lt (List.mem_range.mp member)) ..
  · simp

theorem slots_empty (bottom : -1 ≤ c.db_stack_top) : slots c = [] ↔ ¬c.db_stack_top ≥ 0 := by
  rw [slots,List.map_eq_nil_iff,List.range_eq_nil]
  omega

/-- A stack depends on the links of its own descriptors. -/
theorem stacked_congr {dbds dbds' : Nat → Dbd φ} {top : Link} (stacked : Stacked dbds top free)
    (same : ∀ i ∈ free, (dbds' i).list_prev = (dbds i).list_prev) : Stacked dbds' top free := by
  induction free generalizing top with
  | nil => exact stacked
  | cons i rest ih =>
    obtain ⟨here,below⟩ := stacked
    refine ⟨here,?_⟩
    rw [same i (by simp)]
    exact ih below (fun j member => same j (by simp [member]))

theorem dbd_malloc_none {who : φ} (stacked : Stacked c.dbd_cache c.dbd_stack_top free) :
    (fss_dbd_malloc who c).1 = none ↔ free = [] := by
  rw [fss_dbd_malloc]
  cases free with
  | nil => rw [show c.dbd_stack_top = .null from stacked]; simp
  | cons i rest => rw [stacked.1]; simp

/-- The descriptors that are used or free are different ones. -/
theorem apart_of_perm (parts : (free ++ used).Perm (List.range c.db_count)) : (free ++ used).Nodup :=
  parts.nodup_iff.mpr List.nodup_range

theorem db_pos (some_memory : 0 < c.db_cache) (k : Nat) : c.db k ≠ 0 := by
  unfold fss_cache.db
  omega

theorem db_injective {j k : Nat} (same : c.db j = c.db k) : j = k := by
  unfold fss_cache.db FSS_CACHE_DB_SIZE at same
  omega

theorem held_congr {d : fss_cache φ} (same : ∀ i ∈ used, (d.dbd_cache i).buffer = (c.dbd_cache i).buffer) :
    held d used = held c used := by
  rw [held,held,List.map_congr_left same]

theorem held_perm {used' : List Nat} (order : used.Perm used') : (held c used).Perm (held c used') :=
  (order.map _).filter _

/-- The buffer of a descriptor, if it has one. -/
def own (c : fss_cache φ) (i : Nat) : List Nat := if (c.dbd_cache i).buffer ≠ 0 then [(c.dbd_cache i).buffer] else []

theorem held_cons (i : Nat) : held c (i :: used) = own c i ++ held c used := by
  by_cases some_buffer : (c.dbd_cache i).buffer ≠ 0
  · simp [held,own,some_buffer]
  · simp [held,own,not_not.mp some_buffer]

/-! ### The operations -/

theorem dbd_malloc_inv (who : φ) (inv : Inv c used) :
    Inv (fss_dbd_malloc who c).2 ((fss_dbd_malloc who c).1.toList ++ used) := by
  obtain ⟨free,stacked,parts⟩ := inv.descriptors
  cases free with
  | nil =>
    have nothing : fss_dbd_malloc who c = (none,c) := by
      rw [fss_dbd_malloc,show c.dbd_stack_top = .null from stacked]
    rw [nothing]
    exact inv
  | cons i rest =>
    have distinct := apart_of_perm parts
    rw [List.cons_append,List.nodup_cons,List.mem_append,not_or] at distinct
    obtain ⟨⟨not_free,not_used⟩,_⟩ := distinct
    have taken : fss_dbd_malloc who c = (some i,set_dbd { c with dbd_stack_top := (c.dbd_cache i).list_prev } i
        { list_prev := .list i, buffer := 0, who := some who }) := by
      rw [fss_dbd_malloc,stacked.1]
    rw [taken]
    generalize dbd : ({ list_prev := .list i, buffer := 0, who := some who } : Dbd φ) = new
    have no_buffer : new.buffer = 0 := by rw [← dbd]
    have here : Function.update c.dbd_cache i new i = new := Function.update_self ..
    have others : ∀ j, j ≠ i → Function.update c.dbd_cache i new j = c.dbd_cache j :=
      fun j other => Function.update_of_ne other ..
    constructor
    · exact inv.some_memory
    · exact inv.bottom
    · have same : held (set_dbd { c with dbd_stack_top := (c.dbd_cache i).list_prev } i new) (i :: used) = held c used := by
        rw [held_cons,own,if_neg (by simp [set_dbd,no_buffer])]
        refine held_congr (fun j member => ?_)
        exact congrArg Dbd.buffer (others j (fun same => not_used (same ▸ member)))
      exact same ▸ inv.buffers
    · refine ⟨rest,stacked_congr stacked.2 (fun j member => ?_),?_⟩
      · exact congrArg Dbd.list_prev (others j (fun same => not_free (same ▸ member)))
      · exact List.perm_middle.trans parts

/-- A used descriptor and the other ones. -/
theorem used_split {i : Nat} (inv : Inv c used) (in_use : i ∈ used) :
    used.Perm (i :: used.erase i) ∧ i ∉ used.erase i ∧ ∀ free, (free ++ used).Perm (List.range c.db_count) → i ∉ free := by
  obtain ⟨free,_,parts⟩ := inv.descriptors
  have distinct := (List.nodup_append.mp (apart_of_perm parts)).2.1
  refine ⟨List.perm_cons_erase in_use,distinct.not_mem_erase,fun free parts member => ?_⟩
  exact List.disjoint_of_nodup_append (apart_of_perm parts) member in_use

/-- A buffer that goes from its slot to a used descriptor, or back. -/
theorem inv_of_move {d : fss_cache φ} {i : Nat} (inv : Inv c used) (in_use : i ∈ used) (cache : d.db_cache = c.db_cache)
    (count : d.db_count = c.db_count) (bottom : -1 ≤ d.db_stack_top) (top : d.dbd_stack_top = c.dbd_stack_top)
    (others : ∀ j, j ≠ i → d.dbd_cache j = c.dbd_cache j) (moved : (slots d ++ own d i).Perm (slots c ++ own c i)) :
    Inv d used := by
  obtain ⟨split,other,not_free⟩ := used_split inv in_use
  have rest : held d (used.erase i) = held c (used.erase i) :=
    held_congr (fun j member => congrArg Dbd.buffer (others j (fun same => other (same ▸ member))))
  have address : d.db = c.db := by
    funext k
    rw [fss_cache.db,cache,fss_cache.db]
  constructor
  · rw [cache]
    exact inv.some_memory
  · exact bottom
  · calc
      (slots d ++ held d used).Perm (slots d ++ (own d i ++ held c (used.erase i))) := by
        rw [← rest,← held_cons]
        exact (held_perm split).append_left _
      _ |>.Perm (slots c ++ (own c i ++ held c (used.erase i))) := by
        rw [← List.append_assoc,← List.append_assoc]
        exact moved.append_right _
      _ |>.Perm (slots c ++ held c used) := by
        rw [← held_cons]
        exact (held_perm split.symm).append_left _
      _ |>.Perm ((List.range d.db_count).map d.db) := by
        rw [count,address]
        exact inv.buffers
  · obtain ⟨free,stacked,parts⟩ := inv.descriptors
    rw [top,count]
    refine ⟨free,stacked_congr stacked (fun j member => ?_),parts⟩
    exact congrArg Dbd.list_prev (others j (fun same => not_free free parts (same ▸ member)))

/-- A buffer that is taken from the stack is none of the null pointers. -/
theorem slot_ne_zero {b : Nat} (inv : Inv c used) (member : b ∈ slots c) : b ≠ 0 := by
  obtain ⟨k,_,same⟩ := List.mem_map.mp (inv.buffers.mem_iff.mp (List.mem_append_left _ member))
  rw [← same]
  exact db_pos inv.some_memory k

theorem give_buffer_inv {i : Nat} (inv : Inv c used) (in_use : i ∈ used) : Inv (give_buffer i c) used := by
  rw [give_buffer]
  split
  · next no_buffer =>
    rw [fss_db_malloc]
    split
    · next there =>
      have top : c.db_stack_top.toNat < (c.db_stack_top + 1).toNat := by omega
      have found : c.db_stack c.db_stack_top.toNat ∈ slots c := List.mem_map_of_mem (List.mem_range.mpr top)
      have some_buffer := slot_ne_zero inv found
      refine inv_of_move inv in_use rfl rfl ?_ rfl (fun j other => Function.update_of_ne other ..) ?_
      · change -1 ≤ c.db_stack_top - 1
        omega
      · have before : own c i = [] := by rw [own,if_neg (not_not.mpr no_buffer)]
        rw [before,List.append_nil,slots_pop (d := { c with db_stack_top := c.db_stack_top - 1 }) there rfl rfl]
        simp [own,set_dbd,some_buffer,slots]
    · refine inv_of_move inv in_use rfl rfl inv.bottom rfl (fun j other => Function.update_of_ne other ..) ?_
      simp [own,set_dbd,no_buffer,slots]
  · exact inv

theorem free_buffer_inv {i : Nat} (inv : Inv c used) (in_use : i ∈ used) :
    Inv (free_buffer i c) used ∧ ((free_buffer i c).dbd_cache i).buffer = 0 := by
  rw [free_buffer]
  split
  · next some_buffer =>
    refine ⟨inv_of_move inv in_use rfl rfl ?_ rfl (fun j other => Function.update_of_ne other ..) ?_,by simp [set_dbd]⟩
    · have := inv.bottom
      change -1 ≤ c.db_stack_top + 1
      omega
    · have before : own c i = [(c.dbd_cache i).buffer] := by rw [own,if_pos some_buffer]
      have pushed := slots_push (d := set_dbd { c with
        db_stack_top := c.db_stack_top + 1
        db_stack := Function.update c.db_stack (c.db_stack_top + 1).toNat (c.dbd_cache i).buffer } i
        { c.dbd_cache i with buffer := 0 }) inv.bottom rfl rfl
      rw [before,pushed]
      simp [own,set_dbd]
  · next no_buffer => exact ⟨inv,not_not.mp no_buffer⟩

theorem dbd_free_inv {i : Nat} (inv : Inv c used) (in_use : i ∈ used) : Inv (fss_dbd_free i c) (used.erase i) := by
  obtain ⟨inv,no_buffer⟩ := free_buffer_inv inv in_use
  obtain ⟨split,other,not_free⟩ := used_split inv in_use
  rw [fss_dbd_free]
  generalize free_buffer i c = c at *
  dsimp only
  have others : ∀ j, j ≠ i → Function.update c.dbd_cache i
      { c.dbd_cache i with list_prev := c.dbd_stack_top, who := none } j = c.dbd_cache j :=
    fun j other => Function.update_of_ne other ..
  constructor
  · exact inv.some_memory
  · exact inv.bottom
  · have same : (held c used).Perm (held c (used.erase i)) := by
      have split := held_perm (c := c) split
      rwa [held_cons,own,if_neg (not_not.mpr no_buffer),List.nil_append] at split
    refine List.Perm.trans ?_ inv.buffers
    refine List.Perm.trans ?_ (same.symm.append_left _)
    rw [held_congr (c := c)]
    · exact .refl _
    · intro j member
      exact congrArg Dbd.buffer (others j (fun same => other (same ▸ member)))
  · obtain ⟨free,stacked,parts⟩ := inv.descriptors
    refine ⟨i :: free,⟨rfl,?_⟩,?_⟩
    · have link : (Function.update c.dbd_cache i { c.dbd_cache i with list_prev := c.dbd_stack_top, who := none } i).list_prev =
          c.dbd_stack_top := by rw [Function.update_self]
      refine link.symm ▸ stacked_congr stacked (fun j member => ?_)
      exact congrArg Dbd.list_prev (others j (fun same => not_free free parts (same ▸ member)))
    · exact List.perm_middle.symm.trans ((split.symm.append_left free).trans parts)

/-! ### The beginning -/

theorem push_dbs_apply (db_cache db_count : Nat) (db_stack : Nat → Nat) (k : Nat) : push_dbs db_cache db_count db_stack k =
    if k < db_count then db_cache + k * FSS_CACHE_DB_SIZE else db_stack k := by
  induction db_count with
  | zero => rfl
  | succ n ih =>
    rw [push_dbs,List.range_succ,List.foldl_append,List.foldl_cons,List.foldl_nil,Function.update_apply]
    rw [push_dbs] at ih
    by_cases last : k = n
    · rw [if_pos last,if_pos (by omega),last]
    · rw [if_neg last,ih]
      by_cases below : k < n
      · rw [if_pos below,if_pos (by omega)]
      · rw [if_neg below,if_neg (by omega)]

theorem push_dbds_stacked (db_count : Nat) (dbd_cache : Nat → Dbd φ) :
    Stacked (push_dbds db_count dbd_cache).1 (push_dbds db_count dbd_cache).2 (List.range db_count).reverse := by
  induction db_count with
  | zero => rfl
  | succ n ih =>
    have last : push_dbds (n + 1) dbd_cache = (Function.update (push_dbds n dbd_cache).1 n
        { (push_dbds n dbd_cache).1 n with buffer := 0, list_prev := (push_dbds n dbd_cache).2 },.dbd n) := by
      rw [push_dbds,List.range_succ,List.foldl_append]
      rfl
    rw [last,List.range_succ,List.reverse_append]
    refine ⟨rfl,?_⟩
    dsimp only
    rw [Function.update_self]
    refine stacked_congr ih (fun i member => ?_)
    have below : i < n := by simpa using member
    rw [Function.update_of_ne (Nat.ne_of_lt below)]

theorem init_inv (cache_size : Nat) {db_cache : Nat} (db_stack : Nat → Nat) (dbd_cache : Nat → Dbd φ)
    (some_memory : 0 < db_cache) : Inv (fss_db_init cache_size db_cache db_stack dbd_cache) [] := by
  rw [fss_db_init]
  generalize cache_size / FSS_CACHE_DB_SIZE = n
  refine ⟨some_memory,?_,?_,(List.range n).reverse,push_dbds_stacked n dbd_cache,?_⟩
  · change (-1 : Int) ≤ n - 1
    omega
  · have all : ((n : Int) - 1 + 1).toNat = n := by omega
    rw [slots,held]
    dsimp only
    rw [all,List.map_nil,List.filter_nil,List.append_nil]
    refine .of_eq (List.map_congr_left ?_)
    intro k member
    rw [push_dbs_apply,if_pos (List.mem_range.mp member)]
    rfl
  · rw [List.append_nil]
    exact List.reverse_perm _

theorem run_inv (run : Run c used) : Inv c used := by
  induction run with
  | init cache_size db_stack dbd_cache some_memory => exact init_inv cache_size db_stack dbd_cache some_memory
  | dbd_malloc who run ih => exact dbd_malloc_inv who ih
  | db_malloc run in_use ih => exact give_buffer_inv ih in_use
  | dbd_free run in_use ih => exact dbd_free_inv ih in_use

/-- No run loses or doubles a buffer or a descriptor. -/
theorem pools_conserved (run : Run c used) : Conserved c used := by
  have inv := run_inv run
  constructor
  · refine ⟨inv.bottom,?_⟩
    have length := inv.buffers.length_eq
    simp only [List.length_append,slots,List.length_map,List.length_range] at length
    omega
  · intro k below
    have once : ((List.range c.db_count).map c.db).count (c.db k) = 1 := by
      refine List.count_eq_one_of_mem (List.nodup_range.map (fun _ _ same => db_injective same)) ?_
      exact List.mem_map_of_mem (List.mem_range.mpr below)
    have somewhere := inv.buffers.count_eq (c.db k)
    rw [once,List.count_append,held,List.count_filter (by simp [db_pos inv.some_memory k])] at somewhere
    exact somewhere
  · rw [slots_empty inv.bottom,fss_db_malloc]
    split
    · next there =>
      have top : c.db_stack_top.toNat < (c.db_stack_top + 1).toNat := by omega
      have some_buffer := slot_ne_zero inv (List.mem_map_of_mem (f := c.db_stack) (List.mem_range.mpr top))
      simp [some_buffer,there]
    · next empty => simp [empty]
  · obtain ⟨free,stacked,parts⟩ := inv.descriptors
    refine ⟨free,stacked,fun i below => ?_,fun who => dbd_malloc_none stacked⟩
    have once : (List.range c.db_count).count i = 1 := List.count_eq_one_of_mem List.nodup_range (List.mem_range.mpr below)
    rw [← List.count_append,parts.count_eq,once]

end Proofs

/-- Two buffers: both descriptors are taken, one of them with a buffer, and then it is freed. -/
theorem pools_conserved_two_buffers : ∃ c : fss_cache Unit, Run c [0] ∧ Conserved c [0] := by
  have init : Run (fss_db_init 524288 4096 (fun _ => 0) (fun _ => ⟨.null,0,none⟩) : fss_cache Unit) [] :=
    .init 524288 _ _ (by decide)
  have first := Run.dbd_malloc () init
  have second := Run.dbd_malloc () first
  have given := Run.db_malloc (i := 1) second (by decide)
  have freed := Run.dbd_free (i := 1) given (by decide)
  exact ⟨_,freed,pools_conserved freed⟩

end GridOS.Pools
