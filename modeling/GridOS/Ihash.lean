import GridOS.ProbeTable
import Mathlib.Data.List.GetD
import Mathlib.Data.List.Nodup
import Mathlib.Data.Int.ModEq
import Mathlib.Tactic.Ring

/-!
The integer-keyed hash table of `source/libs/pthread/ihash.c` and `ihash.h`, for tables
without location pointers. A function returns the table behind it and the values that it gave
to the cleanup function.
-/
namespace GridOS.Ihash
open GridOS.ProbeTable

/-! ### The code -/

def HURD_IHASH_EMPTY : BitVec 32 := 0
def HURD_IHASH_DELETED : BitVec 32 := -1
def HURD_IHASH_MIN_SIZE : BitVec 32 := 32
def HURD_IHASH_MAX_LOAD_DEFAULT : BitVec 32 := 96
def ENOMEM : Nat := 12
/-- `sizeof (struct _hurd_ihash_item)`. -/
def ITEM_SIZE : BitVec 32 := 8

structure hurd_ihash_item where
  value : BitVec 32
  key : BitVec 32
deriving DecidableEq

/-- `struct hurd_ihash`; `cleanup` is whether the function is set. -/
structure hurd_ihash where
  nr_items : BitVec 32
  items : List hurd_ihash_item
  size : BitVec 32
  max_load : BitVec 32
  cleanup : Bool

def item (ht : hurd_ihash) (idx : BitVec 32) : hurd_ihash_item := ht.items.getD idx.toNat ⟨0,0⟩

def value_empty (value : BitVec 32) : Bool := value == HURD_IHASH_EMPTY || value == HURD_IHASH_DELETED

def index_empty (ht : hurd_ihash) (idx : BitVec 32) : Bool := value_empty (item ht idx).value

def index_valid (ht : hurd_ihash) (idx key : BitVec 32) : Bool := !index_empty ht idx && (item ht idx).key == key

def mask (ht : hurd_ihash) : BitVec 32 := ht.size - 1

/-- The condition at which the loops of `find_index` and `add_one` stop. -/
def stop_at (ht : hurd_ihash) (key idx : BitVec 32) : Bool :=
  (item ht idx).value == HURD_IHASH_EMPTY || (item ht idx).key == key

/-- The loop: the first place behind `up_idx` to stop at, or nothing once around to `idx`. -/
def probe (ht : hurd_ihash) (key idx : BitVec 32) : Nat → BitVec 32 → Option (BitVec 32)
  | 0, _ => none
  | fuel+1, up_idx =>
    let up_idx := (up_idx + 1) &&& mask ht
    if stop_at ht key up_idx then some up_idx else
    if up_idx = idx then none else probe ht key idx fuel up_idx

def find_index (ht : hurd_ihash) (key : BitVec 32) : BitVec 32 :=
  let idx := key &&& mask ht
  if stop_at ht key idx then idx else (probe ht key idx ht.size.toNat idx).getD idx

def set_item (ht : hurd_ihash) (idx : BitVec 32) (it : hurd_ihash_item) : hurd_ihash :=
  { ht with items := ht.items.set idx.toNat it }

def locp_remove (ht : hurd_ihash) (idx : BitVec 32) : hurd_ihash × List (BitVec 32) :=
  ({ set_item ht idx { item ht idx with value := HURD_IHASH_DELETED } with nr_items := ht.nr_items - 1 },
    if ht.cleanup then [(item ht idx).value] else [])

/-- The entry at `idx`, counted: what `add_one` does in the end. -/
def put_item (ht : hurd_ihash) (idx key value : BitVec 32) : hurd_ihash :=
  { set_item ht idx ⟨value,key⟩ with nr_items := ht.nr_items + 1 }

def hurd_ihash_init : hurd_ihash := ⟨0,[],0,HURD_IHASH_MAX_LOAD_DEFAULT,false⟩

def add_one (ht : hurd_ihash) (key value : BitVec 32) : hurd_ihash × List (BitVec 32) × Bool :=
  let home := key &&& mask ht
  let idx :=
    if (item ht home).value != HURD_IHASH_EMPTY && (item ht home).key != key then
      (probe ht key home ht.size.toNat home).getD home
    else home
  let (ht,cleaned) := if index_valid ht idx key then locp_remove ht idx else (ht,[])
  let first_free := if index_empty ht home then home else idx
  if index_empty ht first_free then
    (put_item ht first_free key value,cleaned,true)
  else (ht,cleaned,false)

/-- `hurd_ihash_get_load`. -/
def hurd_ihash_get_load (ht : hurd_ihash) : BitVec 32 :=
  let d : Int := ht.size.ctz.toNat - 7
  if d ≥ 0 then ht.nr_items >>> d.toNat else ht.nr_items <<< (-d).toNat

/-- The loop that puts the old entries into the larger table; it ends early when one cannot be
    added. -/
def rehash (ht : hurd_ihash) : List hurd_ihash_item → hurd_ihash × List (BitVec 32) × Bool
  | [] => (ht,[],true)
  | it :: rest =>
    if value_empty it.value then rehash ht rest else
    let (ht,cleaned,was_added) := add_one ht it.key it.value
    if was_added then
      let (ht,more,done) := rehash ht rest
      (ht,cleaned ++ more,done)
    else (ht,cleaned,false)

/-- The table behind the call, the values given to the cleanup function, and what it returns. -/
structure Added where
  ht : hurd_ihash
  cleaned : List (BitVec 32)
  r : Nat

/-- The part of `hurd_ihash_add` behind the comment that the table is too small; nothing is
    returned where the size in bytes does not fit a word, as the writes are then behind the
    array. `memory` is whether `malloc` gives the array. -/
def grow (old_ht : hurd_ihash) (key value : BitVec 32) (memory : Bool) : Option Added :=
  let size := if old_ht.size = 0 then HURD_IHASH_MIN_SIZE else old_ht.size <<< 1
  if ¬memory then some ⟨old_ht,[],ENOMEM⟩ else
  if size = 0 ∨ (size * ITEM_SIZE).toNat ≠ size.toNat * ITEM_SIZE.toNat then none else
  let ht := { old_ht with nr_items := 0,size,items := List.replicate size.toNat ⟨HURD_IHASH_EMPTY,0⟩ }
  let (ht,cleaned,was_added) := rehash ht (old_ht.items.take old_ht.size.toNat)
  if ¬was_added then some ⟨{ ht with items := [] },cleaned,ENOMEM⟩ else
  let (ht,more,was_added) := add_one ht key value
  if ¬was_added then some ⟨{ ht with items := [] },cleaned ++ more,ENOMEM⟩ else
  some ⟨ht,cleaned ++ more,0⟩

def hurd_ihash_add (ht : hurd_ihash) (key value : BitVec 32) (memory : Bool) : Option Added :=
  if ht.size ≠ 0 ∧ hurd_ihash_get_load ht ≤ ht.max_load then
    let (added,cleaned,was_added) := add_one ht key value
    -- where the table is full for the key it is still as it was
    if was_added then some ⟨added,cleaned,0⟩ else grow ht key value memory
  else grow ht key value memory

def hurd_ihash_find (ht : hurd_ihash) (key : BitVec 32) : BitVec 32 :=
  if ht.size = 0 then 0 else
  let idx := find_index ht key
  if index_valid ht idx key then (item ht idx).value else 0

def hurd_ihash_remove (ht : hurd_ihash) (key : BitVec 32) : hurd_ihash × List (BitVec 32) × Nat :=
  if ht.size ≠ 0 ∧ index_valid ht (find_index ht key) key then
    let (ht,cleaned) := locp_remove ht (find_index ht key)
    (ht,cleaned,1)
  else (ht,[],0)

/-! ### The table as cells -/

def cell (it : hurd_ihash_item) : Cell (BitVec 32) (BitVec 32) :=
  if it.value = HURD_IHASH_EMPTY then .empty else
  if it.value = HURD_IHASH_DELETED then .deleted it.key else .live it.key it.value

def cells (ht : hurd_ihash) (idx : BitVec 32) : Cell (BitVec 32) (BitVec 32) := cell (item ht idx)

/-- The `n`-th place of a key. -/
def pos (size key : BitVec 32) (n : Nat) : BitVec 32 := (key + BitVec.ofNat 32 n) &&& (size - 1)

/-- From its own place once around. -/
def way (size key : BitVec 32) : List (BitVec 32) := (List.range size.toNat).map (pos size key)

/-- The values of the table by their keys. -/
def values (ht : hurd_ihash) : BitVec 32 → Option (BitVec 32) := lookup (way ht.size) (cells ht)

variable {ht : hurd_ihash} {idx key value : BitVec 32}

@[simp]
theorem deleted_ne_empty : HURD_IHASH_DELETED ≠ HURD_IHASH_EMPTY := by decide

theorem stop_at_eq (ht : hurd_ihash) (key idx : BitVec 32) : stop_at ht key idx = (cells ht idx).stops key := by
  unfold stop_at cells cell
  by_cases empty : (item ht idx).value = HURD_IHASH_EMPTY
  · simp [empty,Cell.stops]
  · by_cases deleted : (item ht idx).value = HURD_IHASH_DELETED
    · rw [if_neg empty,if_pos deleted]
      simp [empty,beq_eq_decide]
    · rw [if_neg empty,if_neg deleted]
      simp [empty,beq_eq_decide]

theorem value_empty_iff {it : hurd_ihash_item} : value_empty it.value = true ↔ ∀ k v, cell it ≠ .live k v := by
  unfold value_empty cell
  by_cases empty : it.value = HURD_IHASH_EMPTY
  · simp [empty]
  · by_cases deleted : it.value = HURD_IHASH_DELETED
    · rw [if_neg empty,if_pos deleted]
      simp [deleted]
    · simp [empty,deleted]

theorem cell_eq_live {it : hurd_ihash_item} {k v : BitVec 32} :
    cell it = .live k v ↔ value_empty it.value = false ∧ it.key = k ∧ it.value = v := by
  unfold value_empty cell
  by_cases empty : it.value = HURD_IHASH_EMPTY
  · simp [empty]
  · by_cases deleted : it.value = HURD_IHASH_DELETED
    · rw [if_neg empty,if_pos deleted]
      simp [deleted]
    · simp [empty,deleted]

theorem index_valid_iff : index_valid ht idx key = true ↔ cells ht idx = .live key (item ht idx).value := by
  rw [cells,cell_eq_live,index_valid,index_empty]
  simp

/-! ### The way of a key -/

/-- The sizes of a table: powers of two that fit a word. -/
structure PowerOfTwo (size : BitVec 32) : Prop where
  pow : ∃ m, size.toNat = 2 ^ m

theorem PowerOfTwo.pos_toNat {size : BitVec 32} (pow : PowerOfTwo size) (key : BitVec 32) (n : Nat) :
    (pos size key n).toNat = (key.toNat + n) % size.toNat := by
  obtain ⟨m,pow⟩ := pow.pow
  have fits : m < 32 := by
    have := size.isLt
    rw [pow] at this
    exact (Nat.pow_lt_pow_iff_right (by decide)).mp this
  have below : (size - 1).toNat = 2 ^ m - 1 := by
    have some : 1 ≤ size.toNat := pow ▸ Nat.one_le_two_pow
    have := size.isLt
    rw [BitVec.toNat_sub,← pow]
    simp
    omega
  rw [pos,BitVec.toNat_and,below,Nat.and_two_pow_sub_one_eq_mod,BitVec.toNat_add,BitVec.toNat_ofNat,Nat.add_mod_mod,
    Nat.mod_mod_of_dvd _ (Nat.pow_dvd_pow 2 fits.le),pow]

theorem PowerOfTwo.pos_succ {size : BitVec 32} (pow : PowerOfTwo size) (key : BitVec 32) (n : Nat) :
    (pos size key n + 1) &&& (size - 1) = pos size key (n + 1) := by
  have step : (pos size key n + 1) &&& (size - 1) = pos size (pos size key n) 1 := rfl
  rw [step,← BitVec.toNat_inj,pow.pos_toNat,pow.pos_toNat,pow.pos_toNat,Nat.mod_add_mod,Nat.add_assoc]

/-- Once around the way is at its start again. -/
theorem PowerOfTwo.pos_back {size : BitVec 32} (pow : PowerOfTwo size) {key : BitVec 32} {n : Nat} (some : 0 < n)
    (le : n ≤ size.toNat) : pos size key n = pos size key 0 ↔ n = size.toNat := by
  rw [← BitVec.toNat_inj,pow.pos_toNat,pow.pos_toNat,Nat.add_zero]
  constructor
  · intro same
    have divides : size.toNat ∣ n := by
      have := (Nat.modEq_iff_dvd' (Nat.le_add_right key.toNat n)).mp same.symm
      rwa [Nat.add_sub_cancel_left] at this
    exact Nat.le_antisymm le (Nat.le_of_dvd some divides)
  · rintro rfl
    rw [Nat.add_mod_right]

theorem PowerOfTwo.positive {size : BitVec 32} (pow : PowerOfTwo size) : 0 < size.toNat := by
  obtain ⟨m,pow⟩ := pow.pow
  exact pow ▸ Nat.two_pow_pos m

/-- The way of a key goes through all places. -/
theorem PowerOfTwo.mem_way {size : BitVec 32} (pow : PowerOfTwo size) (key i : BitVec 32) :
    i ∈ way size key ↔ i.toNat < size.toNat := by
  constructor
  · intro mem
    obtain ⟨n,-,rfl⟩ := List.mem_map.mp mem
    rw [pow.pos_toNat]
    exact Nat.mod_lt _ pow.positive
  · intro inside
    refine List.mem_map.mpr ⟨(i.toNat + (2 ^ 32 - key.toNat)) % size.toNat,
      List.mem_range.mpr (Nat.mod_lt _ pow.positive),?_⟩
    have around : size.toNat ∣ 2 ^ 32 := by
      obtain ⟨m,pow⟩ := pow.pow
      have fits : m < 32 := by
        have := size.isLt
        rw [pow] at this
        exact (Nat.pow_lt_pow_iff_right (by decide)).mp this
      exact pow ▸ Nat.pow_dvd_pow 2 fits.le
    rw [← BitVec.toNat_inj,pow.pos_toNat,Nat.add_mod_mod,
      show key.toNat + (i.toNat + (2 ^ 32 - key.toNat)) = i.toNat + 2 ^ 32 by have := key.isLt; omega,
      ← Nat.add_mod_mod,Nat.mod_eq_zero_of_dvd around,Nat.add_zero,Nat.mod_eq_of_lt inside]

/-! ### The search -/

/-- The loop looks at the places behind its start in their order. -/
theorem probe_eq (pow : PowerOfTwo ht.size) (key : BitVec 32) (fuel n : Nat) (left : n + fuel = ht.size.toNat) :
    probe ht key (pos ht.size key 0) fuel (pos ht.size key n) =
      ((List.range' (n + 1) fuel).map (pos ht.size key)).find? (fun i => (cells ht i).stops key) := by
  induction fuel generalizing n with
  | zero => rfl
  | succ fuel ih =>
    rw [probe,mask,pow.pos_succ,List.range'_succ,List.map_cons,List.find?_cons,stop_at_eq]
    cases stop : (cells ht (pos ht.size key (n + 1))).stops key with
    | true => rfl
    | false =>
      rw [if_neg Bool.false_ne_true]
      split
      case isTrue back =>
        have last := (pow.pos_back (Nat.succ_pos n) (by omega)).mp back
        obtain rfl : fuel = 0 := by omega
        rfl
      case isFalse on => exact ih (n + 1) (by omega)

theorem home_eq (ht : hurd_ihash) (key : BitVec 32) : key &&& mask ht = pos ht.size key 0 := by
  rw [pos,mask,BitVec.ofNat_eq_ofNat,BitVec.add_zero]

/-- The search ends where the way of the key stops, or at its start when it does not. -/
theorem find_index_eq (pow : PowerOfTwo ht.size) (key : BitVec 32) :
    find_index ht key = (find (way ht.size) (cells ht) key).getD (pos ht.size key 0) := by
  have start : way ht.size key = pos ht.size key 0 :: (List.range' 1 (ht.size.toNat - 1)).map (pos ht.size key) := by
    rw [way,List.range_eq_range',show ht.size.toNat = (ht.size.toNat - 1) + 1 by have := pow.positive; omega,
      List.range'_succ,List.map_cons]
    rfl
  have around : List.range' 1 ht.size.toNat = List.range' 1 (ht.size.toNat - 1) ++ [ht.size.toNat] := by
    obtain ⟨n,size⟩ := Nat.exists_eq_add_of_lt pow.positive
    rw [size,Nat.zero_add,Nat.add_sub_cancel,List.range'_concat,Nat.one_mul,Nat.add_comm n 1]
  rw [find_index,home_eq,find,start,List.find?_cons,stop_at_eq]
  cases stop : (cells ht (pos ht.size key 0)).stops key with
  | true => rfl
  | false =>
    rw [if_neg Bool.false_ne_true,probe_eq pow key _ 0 (Nat.zero_add _),around,List.map_append,List.find?_append,
      List.map_singleton,(pow.pos_back pow.positive le_rfl).mpr rfl,List.find?_singleton]
    simp [stop]

/-! ### What the table keeps -/

def live_items (ht : hurd_ihash) : Nat := ht.items.countP (fun it => !value_empty it.value)
def used_items (ht : hurd_ihash) : Nat := ht.items.countP (fun it => it.value != HURD_IHASH_EMPTY)

structure Table (ht : hurd_ihash) : Prop where
  pow : PowerOfTwo ht.size
  length : ht.items.length = ht.size.toNat
  reached : Reached (way ht.size) (cells ht)
  count : ht.nr_items.toNat = live_items ht

theorem item_eq_getElem (inside : idx.toNat < ht.items.length) : item ht idx = ht.items[idx.toNat] := by
  simp [item,inside]

/-- Only the place that is set changes. -/
theorem cells_set_item (inside : idx.toNat < ht.items.length) (it : hurd_ihash_item) (nr_items : BitVec 32) :
    cells { set_item ht idx it with nr_items } = Function.update (cells ht) idx (cell it) := by
  funext i
  by_cases same : i = idx
  · subst same
    rw [Function.update_self]
    simp [cells,item,set_item,inside]
  · have apart : idx.toNat ≠ i.toNat := fun equal => same (BitVec.toNat_inj.mp equal).symm
    rw [Function.update_of_ne same]
    simp [cells,item,set_item,List.getElem?_set_ne apart]

theorem live_le_used (ht : hurd_ihash) : live_items ht ≤ used_items ht := by
  apply List.countP_mono_left
  intro it _ live
  by_contra empty
  simp [value_empty] at live empty
  exact live.1 empty

theorem used_le (ht : hurd_ihash) : used_items ht ≤ ht.items.length := List.countP_le_length

/-- An entry is inside the table. -/
theorem Table.inside (table : Table ht) {v : BitVec 32} (entry : cells ht idx = .live key v) :
    idx.toNat < ht.items.length := by
  rw [table.length,← table.pow.mem_way key]
  exact List.mem_of_find?_eq_some (table.reached idx key v entry)

theorem countP_set_add {α : Type} (p : α → Bool) {l : List α} {i : Nat} (inside : i < l.length) (a : α) :
    (l.set i a).countP p + (if p l[i] then 1 else 0) = l.countP p + (if p a then 1 else 0) := by
  have counted := List.boole_getElem_le_countP (p := p) inside
  rw [List.countP_set inside]
  omega

theorem live_set_item (inside : idx.toNat < ht.items.length) (it : hurd_ihash_item) (nr_items : BitVec 32) :
    live_items { set_item ht idx it with nr_items } + (if value_empty (item ht idx).value then 0 else 1) =
      live_items ht + (if value_empty it.value then 0 else 1) := by
  have counted := countP_set_add (fun it => !value_empty it.value) inside it
  rw [← item_eq_getElem inside] at counted
  change live_items { set_item ht idx it with nr_items } + _ = live_items ht + _ at counted
  cases was : value_empty (item ht idx).value <;> cases is_empty : value_empty it.value <;>
    simpa [was,is_empty] using counted

theorem used_set_item (inside : idx.toNat < ht.items.length) (it : hurd_ihash_item) (nr_items : BitVec 32) :
    used_items { set_item ht idx it with nr_items } ≤
      used_items ht + (if (item ht idx).value = HURD_IHASH_EMPTY then 1 else 0) := by
  have counted := countP_set_add (fun it => it.value != HURD_IHASH_EMPTY) inside it
  rw [← item_eq_getElem inside] at counted
  change used_items { set_item ht idx it with nr_items } + _ = used_items ht + _ at counted
  by_cases empty : (item ht idx).value = HURD_IHASH_EMPTY
  · rw [if_pos empty]
    rw [if_neg (by simp [empty])] at counted
    split at counted <;> omega
  · rw [if_neg empty]
    rw [if_pos (by simp [empty])] at counted
    split at counted <;> omega

/-- Removing keeps the table, and takes the value of the key out of it. -/
theorem Table.removed (table : Table ht) {v : BitVec 32} (entry : cells ht idx = .live key v) :
    Table (locp_remove ht idx).1 ∧ values (locp_remove ht idx).1 = Function.update (values ht) key none ∧
      cells (locp_remove ht idx).1 = Function.update (cells ht) idx (.deleted key) ∧
      used_items (locp_remove ht idx).1 ≤ used_items ht := by
  have inside := table.inside entry
  obtain ⟨live,key_eq,value_eq⟩ := cell_eq_live.mp entry
  have changed : cells (locp_remove ht idx).1 = Function.update (cells ht) idx (.deleted key) := by
    refine (cells_set_item inside _ _).trans ?_
    simp [cell,key_eq]
  have way_eq : (locp_remove ht idx).1.size = ht.size := rfl
  refine ⟨⟨table.pow,?_,?_,?_⟩,?_,changed,?_⟩
  · exact (List.length_set ..).trans table.length
  · rw [changed,way_eq]
    exact table.reached.delete entry
  · have one := live_set_item inside { item ht idx with value := HURD_IHASH_DELETED } (ht.nr_items - 1)
    rw [live] at one
    have count := table.count
    have fits := ht.nr_items.isLt
    change (ht.nr_items - 1).toNat = live_items (locp_remove ht idx).1
    rw [BitVec.toNat_sub]
    change live_items (locp_remove ht idx).1 + 1 = live_items ht + 0 at one
    change (2 ^ 32 - 1 + ht.nr_items.toNat) % 2 ^ 32 = _
    omega
  · rw [values,changed,way_eq]
    exact table.reached.lookup_delete entry
  · have used := used_set_item inside { item ht idx with value := HURD_IHASH_DELETED } (ht.nr_items - 1)
    have some : (item ht idx).value ≠ HURD_IHASH_EMPTY := by
      intro empty
      rw [empty] at live
      cases live
    rwa [if_neg some] at used

/-- Putting an entry where the table is open for its key. -/
theorem Table.put (table : Table ht) (inside : idx.toNat < ht.items.length)
    (opened : Open (way ht.size) (cells ht) key idx) (absent : values ht key = none)
    (good : value_empty value = false) :
    Table (put_item ht idx key value) ∧
      values (put_item ht idx key value) = Function.update (values ht) key (some value) ∧
      used_items (put_item ht idx key value) ≤ used_items ht + 1 := by
  have entry : cell ⟨value,key⟩ = .live key value := cell_eq_live.mpr ⟨good,rfl,rfl⟩
  have changed : cells (put_item ht idx key value) = Function.update (cells ht) idx (.live key value) :=
    (cells_set_item inside ⟨value,key⟩ (ht.nr_items + 1)).trans (by rw [entry])
  have size_eq : (put_item ht idx key value).size = ht.size := rfl
  have none := table.reached.lookup_eq_none.mp absent
  refine ⟨⟨table.pow,?_,?_,?_⟩,?_,?_⟩
  · exact (List.length_set ..).trans table.length
  · rw [changed,size_eq]
    exact table.reached.put opened none value
  · have one := live_set_item inside ⟨value,key⟩ (ht.nr_items + 1)
    have free : value_empty (item ht idx).value = true := value_empty_iff.mpr opened.free
    rw [free,good] at one
    have bound := live_le_used (put_item ht idx key value)
    have bound' := used_le (put_item ht idx key value)
    have length : (put_item ht idx key value).items.length = ht.size.toNat := (List.length_set ..).trans table.length
    have count := table.count
    have fits := ht.size.isLt
    change live_items (put_item ht idx key value) + 0 = live_items ht + 1 at one
    change (ht.nr_items.toNat + 1) % 2 ^ 32 = _
    omega
  · rw [values,changed,size_eq]
    exact table.reached.lookup_put opened none value
  · refine (used_set_item inside ⟨value,key⟩ (ht.nr_items + 1)).trans (Nat.add_le_add_left ?_ _)
    split
    · exact le_rfl
    · exact Nat.zero_le 1

/-- What an entry that is put in does to the table. -/
structure Put (ht ht' : hurd_ihash) (key value : BitVec 32) (cleaned : List (BitVec 32)) : Prop where
  table : Table ht'
  size : ht'.size = ht.size
  max_load : ht'.max_load = ht.max_load
  cleanup : ht'.cleanup = ht.cleanup
  values : values ht' = Function.update (values ht) key (some value)
  used : used_items ht' ≤ used_items ht + 1
  cleaned : cleaned = if ht.cleanup then (Ihash.values ht key).toList else []

/-- `add_one` looks for the key as `find_index` does. -/
theorem add_one_eq (ht : hurd_ihash) (key value : BitVec 32) :
    add_one ht key value =
      (let home := key &&& mask ht
      let idx := find_index ht key
      let (ht,cleaned) := if index_valid ht idx key then locp_remove ht idx else (ht,[])
      let first_free := if index_empty ht home then home else idx
      if index_empty ht first_free then
        (put_item ht first_free key value,cleaned,true)
      else (ht,cleaned,false)) := by
  have idx : (if (item ht (key &&& mask ht)).value != HURD_IHASH_EMPTY && (item ht (key &&& mask ht)).key != key then
      (probe ht key (key &&& mask ht) ht.size.toNat (key &&& mask ht)).getD (key &&& mask ht)
      else key &&& mask ht) = find_index ht key := by
    have flip : ((item ht (key &&& mask ht)).value != HURD_IHASH_EMPTY && (item ht (key &&& mask ht)).key != key) =
        !stop_at ht key (key &&& mask ht) := by
      rw [stop_at,Bool.not_or]
      rfl
    rw [flip,find_index]
    cases stop_at ht key (key &&& mask ht) <;> rfl
  rw [add_one,idx]

/-- The places that `add_one` may put the key at: its own one, and where the search stops. -/
theorem Table.open_home (table : Table ht) (key : BitVec 32)
    (free : ∀ k v, cells ht (pos ht.size key 0) ≠ .live k v) : Open (way ht.size) (cells ht) key (pos ht.size key 0) where
  free := free
  way := by
    obtain ⟨n,size⟩ := Nat.exists_eq_add_of_lt table.pow.positive
    refine ⟨[],(List.range' 1 n).map (pos ht.size key),?_,List.not_mem_nil,fun a mem => absurd mem List.not_mem_nil⟩
    rw [way,size,Nat.zero_add,List.range_eq_range',List.range'_succ,List.map_cons]
    rfl

theorem Table.open_stop (stop : find (way ht.size) (cells ht) key = some idx) (free : ∀ k v, cells ht idx ≠ .live k v) :
    Open (way ht.size) (cells ht) key idx where
  free := free
  way := by
    obtain ⟨stops,before,after,split,passed⟩ := find_eq_some_iff.mp stop
    refine ⟨before,after,split,fun mem => ?_,passed⟩
    rw [passed idx mem] at stops
    cases stops

theorem index_empty_iff : index_empty ht idx = true ↔ ∀ k v, cells ht idx ≠ .live k v := value_empty_iff

theorem Table.pos_inside (table : Table ht) (key : BitVec 32) (n : Nat) :
    (pos ht.size key n).toNat < ht.items.length := by
  rw [table.length,table.pow.pos_toNat]
  exact Nat.mod_lt _ table.pow.positive

theorem Table.stop_inside (table : Table ht) (stop : find (way ht.size) (cells ht) key = some idx) :
    idx.toNat < ht.items.length := by
  rw [table.length,← table.pow.mem_way key]
  exact List.mem_of_find?_eq_some stop

/-- The search of a key stops at its entry, or nowhere else with an entry. -/
theorem Table.valid_iff (table : Table ht) (key : BitVec 32) :
    index_valid ht (find_index ht key) key = true ↔ values ht key = some (item ht (find_index ht key)).value := by
  rw [index_valid_iff,values,table.reached.lookup_eq_some]
  constructor
  · exact fun entry => ⟨_,entry⟩
  · rintro ⟨i,entry⟩
    have found : find_index ht key = i := by
      rw [find_index_eq table.pow,table.reached i key _ entry,Option.getD_some]
    rw [found] at entry ⊢
    exact entry

theorem Table.absent_of_not_valid (table : Table ht) (invalid : index_valid ht (find_index ht key) key = false) :
    values ht key = none := by
  rw [values,table.reached.lookup_eq_none]
  intro i v entry
  have found : find_index ht key = i := by
    rw [find_index_eq table.pow,table.reached i key v entry,Option.getD_some]
  have value := (cell_eq_live.mp entry).2.2
  have valid : index_valid ht i key = true := by
    rw [index_valid_iff,value]
    exact entry
  rw [found,valid] at invalid
  cases invalid

/-- The entry of the key goes out, the new one to a place that it leaves open. -/
theorem Table.add_one_replaces (table : Table ht) (good : value_empty value = false)
    (valid : index_valid ht (find_index ht key) key = true) :
    ∃ ht' cleaned, add_one ht key value = (ht',cleaned,true) ∧ Put ht ht' key value cleaned := by
  have entry := index_valid_iff.mp valid
  have stop : find (way ht.size) (cells ht) key = some (find_index ht key) := table.reached _ key _ entry
  obtain ⟨table₁,values₁,cells₁,used₁⟩ := table.removed entry
  have absent : values (locp_remove ht (find_index ht key)).1 key = none := by rw [values₁,Function.update_self]
  have deleted : cells (locp_remove ht (find_index ht key)).1 (find_index ht key) = .deleted key := by
    rw [cells₁,Function.update_self]
  have cleaned : (locp_remove ht (find_index ht key)).2 =
      if ht.cleanup then (Ihash.values ht key).toList else [] := by
    rw [(table.valid_iff key).mp valid]
    rfl
  have result {idx : BitVec 32} (inside : idx.toNat < (locp_remove ht (find_index ht key)).1.items.length)
      (opened : Open (way ht.size) (cells (locp_remove ht (find_index ht key)).1) key idx) :=
    table₁.put inside opened absent good
  rw [add_one_eq,home_eq]
  dsimp only
  rw [if_pos valid]
  by_cases home : index_empty (locp_remove ht (find_index ht key)).1 (pos ht.size key 0) = true
  · rw [if_pos home,if_pos home]
    obtain ⟨table₂,values₂,used₂⟩ :=
      result (table₁.pos_inside key 0) (table₁.open_home key (index_empty_iff.mp home))
    refine ⟨_,_,rfl,table₂,rfl,rfl,rfl,?_,?_,cleaned⟩
    · exact values₂.trans (by rw [values₁,Function.update_idem])
    · exact used₂.trans (Nat.succ_le_succ used₁)
  · have free : index_empty (locp_remove ht (find_index ht key)).1 (find_index ht key) = true := by
      rw [index_empty_iff,deleted]
      simp
    have stop₁ : find (way ht.size) (cells (locp_remove ht (find_index ht key)).1) key = some (find_index ht key) := by
      rw [cells₁,find_delete entry,stop]
    rw [if_neg home,if_pos free]
    obtain ⟨table₂,values₂,used₂⟩ := result (table₁.stop_inside stop₁) (Table.open_stop stop₁ (index_empty_iff.mp free))
    refine ⟨_,_,rfl,table₂,rfl,rfl,rfl,?_,?_,cleaned⟩
    · exact values₂.trans (by rw [values₁,Function.update_idem])
    · exact used₂.trans (Nat.succ_le_succ used₁)

/-- A key that is not in the table gets a place, unless its own one has an entry and no place on its
    way was never used. -/
theorem Table.add_one_new (table : Table ht) (good : value_empty value = false)
    (invalid : index_valid ht (find_index ht key) key = false) :
    (∃ ht' cleaned, add_one ht key value = (ht',cleaned,true) ∧ Put ht ht' key value cleaned) ∨
      (add_one ht key value = (ht,[],false) ∧ used_items ht = ht.size.toNat) := by
  have absent := table.absent_of_not_valid invalid
  have not_valid : ¬ index_valid ht (find_index ht key) key = true := by simp [invalid]
  have cleaned : ([] : List (BitVec 32)) = if ht.cleanup then (values ht key).toList else [] := by simp [absent]
  rw [add_one_eq,home_eq]
  dsimp only
  rw [if_neg not_valid]
  by_cases home : index_empty ht (pos ht.size key 0) = true
  · rw [if_pos home,if_pos home]
    obtain ⟨table₁,values₁,used₁⟩ :=
      table.put (table.pos_inside key 0) (table.open_home key (index_empty_iff.mp home)) absent good
    exact .inl ⟨_,_,rfl,table₁,rfl,rfl,rfl,values₁,used₁,cleaned⟩
  · rw [if_neg home]
    cases stop : find (way ht.size) (cells ht) key with
    | some idx =>
      have found : find_index ht key = idx := by rw [find_index_eq table.pow,stop,Option.getD_some]
      -- an entry where the search stops is one of the key
      have free : ∀ k v, cells ht idx ≠ .live k v := by
        intro k v entry
        have stops := stops_of_find stop
        rw [entry,stops_live,decide_eq_true_iff] at stops
        subst stops
        rw [found,index_valid_iff.mpr (by rw [(cell_eq_live.mp entry).2.2,entry])] at invalid
        cases invalid
      rw [found,if_pos (index_empty_iff.mpr free)]
      obtain ⟨table₁,values₁,used₁⟩ := table.put (table.stop_inside stop) (Table.open_stop stop free) absent good
      exact .inl ⟨_,_,rfl,table₁,rfl,rfl,rfl,values₁,used₁,cleaned⟩
    | none =>
      have found : find_index ht key = pos ht.size key 0 := by rw [find_index_eq table.pow,stop,Option.getD_none]
      rw [found,if_neg home]
      refine .inr ⟨rfl,?_⟩
      rw [← table.length]
      refine List.countP_eq_length.mpr fun it mem => ?_
      obtain ⟨n,inside,rfl⟩ := List.getElem_of_mem mem
      have fits : n < 2 ^ 32 := by
        have := ht.size.isLt
        rw [← table.length] at this
        omega
      have place : (BitVec.ofNat 32 n).toNat = n := by rw [BitVec.toNat_ofNat,Nat.mod_eq_of_lt fits]
      have on_way : BitVec.ofNat 32 n ∈ way ht.size key := by
        rw [table.pow.mem_way,place,← table.length]
        exact inside
      have passed := List.find?_eq_none.mp stop _ on_way
      rw [← stop_at_eq,stop_at,item_eq_getElem (by rw [place]; exact inside)] at passed
      simp only [place] at passed
      simp only [Bool.or_eq_true,not_or,beq_iff_eq] at passed
      simpa using passed.1

theorem Table.add_one (table : Table ht) (key : BitVec 32) (good : value_empty value = false) :
    (∃ ht' cleaned, add_one ht key value = (ht',cleaned,true) ∧ Put ht ht' key value cleaned) ∨
      (add_one ht key value = (ht,[],false) ∧ used_items ht = ht.size.toNat) := by
  cases valid : index_valid ht (find_index ht key) key with
  | true => exact .inl (table.add_one_replaces good valid)
  | false => exact table.add_one_new good valid

end GridOS.Ihash
