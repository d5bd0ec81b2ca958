import GridOS.Ihash

/-!
Whole runs of the hash table of `source/libs/pthread/ihash.c`: the larger table of
`hurd_ihash_add` and that the calls are those of a map from keys to values.
-/
namespace GridOS.Ihash
open GridOS.ProbeTable

variable {ht : hurd_ihash} {idx key value : BitVec 32}

/-! ### A larger table -/

/-- Keys of entries are pairwise different. -/
def Distinct (items : List hurd_ihash_item) : Prop :=
  items.Pairwise (fun a b => ∀ k v v', cell a = .live k v → cell b ≠ .live k v')

theorem Table.distinct (table : Table ht) : Distinct ht.items := by
  refine List.pairwise_iff_getElem.mpr fun i j low high less k v v' first second => ?_
  have fits := ht.size.isLt
  have place {n : Nat} (inside : n < ht.items.length) : cells ht (BitVec.ofNat 32 n) = cell ht.items[n] := by
    have small := inside
    rw [table.length] at small
    have same : (BitVec.ofNat 32 n).toNat = n := by rw [BitVec.toNat_ofNat,Nat.mod_eq_of_lt (by omega)]
    rw [cells,item_eq_getElem (by rw [same]; exact inside)]
    simp only [same]
  have same := table.reached.unique ((place low).trans first) ((place high).trans second)
  have := congrArg BitVec.toNat same
  rw [table.length] at low high
  rw [BitVec.toNat_ofNat,BitVec.toNat_ofNat,Nat.mod_eq_of_lt (by omega),Nat.mod_eq_of_lt (by omega)] at this
  omega

/-- The entries of the table are those of its items. -/
theorem Table.values_eq_some (table : Table ht) {v : BitVec 32} :
    values ht key = some v ↔ ∃ it ∈ ht.items, cell it = .live key v := by
  rw [values,table.reached.lookup_eq_some]
  constructor
  · rintro ⟨i,entry⟩
    have inside := table.inside entry
    exact ⟨_,List.getElem_mem inside,by rw [← item_eq_getElem inside]; exact entry⟩
  · rintro ⟨it,mem,entry⟩
    obtain ⟨n,inside,rfl⟩ := List.getElem_of_mem mem
    have fits := ht.size.isLt
    have same : (BitVec.ofNat 32 n).toNat = n := by
      rw [table.length] at inside
      rw [BitVec.toNat_ofNat,Nat.mod_eq_of_lt (by omega)]
    refine ⟨BitVec.ofNat 32 n,?_⟩
    rw [cells,item_eq_getElem (by rw [same]; exact inside)]
    simp only [same]
    exact entry

/-- What the entries that are put into a table with room for them come to. -/
structure Rehashed (ht ht' : hurd_ihash) (items : List hurd_ihash_item) : Prop where
  table : Table ht'
  size : ht'.size = ht.size
  max_load : ht'.max_load = ht.max_load
  cleanup : ht'.cleanup = ht.cleanup
  values : ∀ k v, values ht' k = some v ↔ values ht k = some v ∨ ∃ it ∈ items, cell it = .live k v
  used : used_items ht' ≤ used_items ht + items.countP (fun it => !value_empty it.value)

theorem Table.rehash (table : Table ht) {items : List hurd_ihash_item} (distinct : Distinct items)
    (absent : ∀ it ∈ items, ∀ k v, cell it = .live k v → values ht k = none)
    (room : used_items ht + items.countP (fun it => !value_empty it.value) ≤ ht.size.toNat) :
    ∃ ht', rehash ht items = (ht',[],true) ∧ Rehashed ht ht' items := by
  induction items generalizing ht with
  | nil => exact ⟨ht,rfl,table,rfl,rfl,rfl,by simp,Nat.le_add_right _ _⟩
  | cons it rest ih =>
    obtain ⟨apart,distinct⟩ := List.pairwise_cons.mp distinct
    rw [Ihash.rehash]
    cases empty : value_empty it.value with
    | true =>
      have skip : (it :: rest).countP (fun it => !value_empty it.value) =
          rest.countP (fun it => !value_empty it.value) := List.countP_cons_of_neg (by simp [empty])
      have none := value_empty_iff.mp empty
      rw [skip] at room
      obtain ⟨ht',result,rehashed⟩ :=
        ih table distinct (fun it mem => absent it (List.mem_cons_of_mem _ mem)) room
      rw [if_pos rfl]
      refine ⟨ht',result,rehashed.table,rehashed.size,rehashed.max_load,rehashed.cleanup,?_,?_⟩
      · intro k v
        rw [rehashed.values]
        simp [none]
      · rw [skip]
        exact rehashed.used
    | false =>
      have entry : cell it = .live it.key it.value := cell_eq_live.mpr ⟨empty,rfl,rfl⟩
      have one : (it :: rest).countP (fun it => !value_empty it.value) =
          rest.countP (fun it => !value_empty it.value) + 1 := List.countP_cons_of_pos (by simp [empty])
      rw [one] at room
      obtain ⟨ht₁,cleaned,added,put⟩ | ⟨-,full⟩ := table.add_one it.key empty
      · have fresh := absent it List.mem_cons_self _ _ entry
        have nothing : cleaned = [] := by
          rw [put.cleaned,fresh]
          simp
        have absent₁ : ∀ it' ∈ rest, ∀ k v, cell it' = .live k v → values ht₁ k = none := by
          intro it' mem k v entry'
          have other : k ≠ it.key := by
            rintro rfl
            exact apart it' mem _ _ _ entry entry'
          rw [put.values,Function.update_of_ne other]
          exact absent it' (List.mem_cons_of_mem _ mem) k v entry'
        have used := put.used
        have size := congrArg BitVec.toNat put.size
        obtain ⟨ht₂,result,rehashed⟩ := ih put.table distinct absent₁ (by omega)
        rw [if_neg Bool.false_ne_true,added]
        dsimp only
        rw [if_pos rfl,result,nothing]
        refine ⟨ht₂,rfl,rehashed.table,rehashed.size.trans put.size,rehashed.max_load.trans put.max_load,
          rehashed.cleanup.trans put.cleanup,?_,?_⟩
        · intro k v
          rw [rehashed.values,put.values]
          by_cases same : k = it.key
          · subst same
            rw [Function.update_self,fresh]
            simp [entry]
          · rw [Function.update_of_ne same]
            simp [entry,Ne.symm same]
        · have := rehashed.used
          omega
      · omega

/-- A table as `hurd_ihash_init` leaves it, without an array. -/
structure Fresh (ht : hurd_ihash) : Prop where
  size : ht.size = 0
  items : ht.items = []

/-- A table between two calls. -/
def Valid (ht : hurd_ihash) : Prop := Fresh ht ∨ Table ht

theorem Fresh.values (fresh : Fresh ht) (key : BitVec 32) : values ht key = none := by
  rw [Ihash.values,lookup,find,way,fresh.size]
  rfl

theorem Valid.length (valid : Valid ht) : ht.items.length = ht.size.toNat := by
  obtain fresh | table := valid
  · rw [fresh.size,fresh.items]
    rfl
  · exact table.length

theorem Valid.distinct (valid : Valid ht) : Distinct ht.items := by
  obtain fresh | table := valid
  · rw [fresh.items]
    exact List.Pairwise.nil
  · exact table.distinct

theorem Valid.values_eq_some (valid : Valid ht) {v : BitVec 32} :
    values ht key = some v ↔ ∃ it ∈ ht.items, cell it = .live key v := by
  obtain fresh | table := valid
  · rw [fresh.values,fresh.items]
    simp
  · exact table.values_eq_some

/-- The size of the larger table. -/
theorem Valid.new_size (valid : Valid ht) (small : ht.size.toNat ≤ 2 ^ 27) :
    ∃ size, (if ht.size = 0 then HURD_IHASH_MIN_SIZE else ht.size <<< 1) = size ∧ PowerOfTwo size ∧
      ht.size.toNat < size.toNat ∧ size.toNat = (if ht.size = 0 then 32 else 2 * ht.size.toNat) := by
  refine ⟨_,rfl,?_⟩
  by_cases none : ht.size = 0
  · rw [if_pos none,if_pos none,none]
    exact ⟨⟨5,rfl⟩,by decide,rfl⟩
  · rw [if_neg none,if_neg none]
    obtain fresh | table := valid
    · exact absurd fresh.size none
    · have double : (ht.size <<< 1).toNat = 2 * ht.size.toNat := by
        rw [BitVec.toNat_shiftLeft,Nat.shiftLeft_eq]
        omega
      have some := table.pow.positive
      obtain ⟨m,pow⟩ := table.pow.pow
      refine ⟨⟨m+1,?_⟩,by omega,double⟩
      rw [double,pow,Nat.pow_succ,Nat.mul_comm]

/-- The new array before the old entries are put in. -/
def cleared (size max_load : BitVec 32) (cleanup : Bool) : hurd_ihash :=
  ⟨0,List.replicate size.toNat ⟨HURD_IHASH_EMPTY,0⟩,size,max_load,cleanup⟩

variable {size max_load : BitVec 32} {cleanup : Bool}

theorem cells_cleared (i : BitVec 32) : cells (cleared size max_load cleanup) i = .empty := by
  have cleared_item : item (cleared size max_load cleanup) i = ⟨HURD_IHASH_EMPTY,0⟩ :=
    (List.getD_eq_getElem?_getD ..).trans (List.getElem?_getD_replicate_default_eq ..)
  rw [cells,cleared_item]
  rfl

theorem table_cleared (pow : PowerOfTwo size) : Table (cleared size max_load cleanup) where
  pow := pow
  length := List.length_replicate
  reached := by
    intro i k v entry
    rw [cells_cleared] at entry
    cases entry
  count := by
    rw [live_items,cleared,List.countP_replicate]
    rfl

theorem values_cleared (pow : PowerOfTwo size) (key : BitVec 32) : values (cleared size max_load cleanup) key = none := by
  rw [values,(table_cleared pow).reached.lookup_eq_none]
  intro i v entry
  rw [cells_cleared] at entry
  cases entry

theorem used_cleared : used_items (cleared size max_load cleanup) = 0 := by
  rw [used_items,cleared,List.countP_replicate]
  rfl

/-- What an addition that finds room, or makes it, does to the table. -/
structure Add (ht ht' : hurd_ihash) (key value : BitVec 32) (cleaned : List (BitVec 32)) : Prop where
  table : Table ht'
  max_load : ht'.max_load = ht.max_load
  cleanup : ht'.cleanup = ht.cleanup
  values : values ht' = Function.update (values ht) key (some value)
  used : used_items ht' ≤ used_items ht + 1
  cleaned : cleaned = if ht.cleanup then (Ihash.values ht key).toList else []

/-- The larger table has room for all entries and the new one: the ways out for the case that it
    had none are not taken. -/
theorem Valid.larger (valid : Valid ht) (small : ht.size.toNat ≤ 2 ^ 27) (key : BitVec 32)
    (good : value_empty value = false) :
    ∃ ht' cleaned, grow ht key value true = some ⟨ht',cleaned,0⟩ ∧ Add ht ht' key value cleaned ∧
      ht'.size.toNat = (if ht.size = 0 then 32 else 2 * ht.size.toNat) := by
  obtain ⟨size,size_eq,pow,larger,new_size⟩ := valid.new_size small
  have bound : size.toNat ≤ 2 ^ 28 := by
    rw [new_size]
    split <;> omega
  have some_size : size ≠ 0 := by
    rintro rfl
    exact Nat.not_lt_zero _ larger
  have bytes : (size * ITEM_SIZE).toNat = size.toNat * ITEM_SIZE.toNat := by
    rw [BitVec.toNat_mul]
    change size.toNat * 8 % 2 ^ 32 = size.toNat * 8
    omega
  have live : ht.items.countP (fun it => !value_empty it.value) ≤ ht.size.toNat := by
    rw [← valid.length]
    exact List.countP_le_length
  have array : Table (cleared size ht.max_load ht.cleanup) := table_cleared pow
  have none : ∀ key, values (cleared size ht.max_load ht.cleanup) key = .none := values_cleared pow
  have room : used_items (cleared size ht.max_load ht.cleanup) +
      ht.items.countP (fun it => !value_empty it.value) ≤ size.toNat := by
    rw [used_cleared]
    omega
  obtain ⟨ht₁,rehashes,rehashed⟩ := array.rehash valid.distinct (fun it _ k v _ => none k) room
  have values₁ : values ht₁ = values ht := by
    funext k
    ext v
    rw [rehashed.values,none,valid.values_eq_some]
    simp
  have used₁ := rehashed.used
  rw [used_cleared] at used₁
  have size₁ : ht₁.size.toNat = size.toNat := congrArg BitVec.toNat rehashed.size
  have live_used := live_le_used ht
  change ht.items.countP (fun it => !value_empty it.value) ≤ _ at live_used
  have all : ht.items.take ht.size.toNat = ht.items := List.take_of_length_le valid.length.le
  obtain ⟨ht₂,cleaned,added,put⟩ | ⟨-,full⟩ := rehashed.table.add_one key good
  · refine ⟨ht₂,cleaned,?_,⟨put.table,?_,?_,?_,?_,?_⟩,?_⟩
    · have fits : ¬ (size = 0 ∨ (size * ITEM_SIZE).toNat ≠ size.toNat * ITEM_SIZE.toNat) := by
        rintro (zero | wraps)
        · exact some_size zero
        · exact wraps bytes
      rw [cleared] at rehashes
      rw [grow,size_eq,all]
      simp only [not_true_eq_false,if_false,if_neg fits,rehashes,added,List.nil_append]
    · exact put.max_load.trans rehashed.max_load
    · exact put.cleanup.trans rehashed.cleanup
    · rw [put.values,values₁]
    · have used := put.used
      omega
    · rw [put.cleaned,values₁,rehashed.cleanup]
      rfl
    · rw [put.size,size₁,new_size]
  · omega

/-! ### The calls -/

theorem PowerOfTwo.ctz {m : Nat} (pow : size.toNat = 2 ^ m) : size.ctz.toNat = m := by
  have some : size ≠ 0 := by
    rintro rfl
    exact absurd pow.symm (Nat.two_pow_pos m).ne'
  have bit := BitVec.getLsbD_true_ctz_of_ne_zero some
  rw [← BitVec.testBit_toNat,pow,Nat.testBit_two_pow,decide_eq_true_iff] at bit
  exact bit.symm

/-- More than the least maximal load means that more than half of the places have entries. -/
theorem Table.half (table : Table ht) (load : ¬ hurd_ihash_get_load ht ≤ ht.max_load) (least : 64 ≤ ht.max_load.toNat) :
    ht.size.toNat ≤ 2 * live_items ht := by
  obtain ⟨m,pow⟩ := table.pow.pow
  have heavy : 64 < (hurd_ihash_get_load ht).toNat := by
    have := BitVec.not_le.mp load
    rw [BitVec.lt_def] at this
    omega
  rw [← table.count,pow]
  unfold hurd_ihash_get_load at heavy
  rw [PowerOfTwo.ctz pow] at heavy
  dsimp only at heavy
  split at heavy
  case isTrue large =>
    obtain ⟨d,rfl⟩ : ∃ d, m = d + 7 := ⟨m-7,by omega⟩
    have shift : ((d + 7 : Nat) - 7 : Int).toNat = d := by omega
    rw [shift,BitVec.toNat_ushiftRight,Nat.shiftRight_eq_div_pow] at heavy
    have := Nat.div_mul_le_self ht.nr_items.toNat (2 ^ d)
    have more : 65 * 2 ^ d ≤ ht.nr_items.toNat / 2 ^ d * 2 ^ d := Nat.mul_le_mul_right _ heavy
    rw [Nat.pow_add]
    omega
  case isFalse small =>
    have shift : (-((m : Int) - 7)).toNat = 7 - m := by omega
    rw [shift,BitVec.toNat_shiftLeft,Nat.shiftLeft_eq] at heavy
    have wrap := Nat.mod_le (ht.nr_items.toNat * 2 ^ (7 - m)) (2 ^ 32)
    have all : 2 ^ m * 2 ^ (7 - m) = 128 := by
      rw [← Nat.pow_add,show m + (7 - m) = 7 by omega]
    have product : 2 ^ m * 2 ^ (7 - m) ≤ 2 * ht.nr_items.toNat * 2 ^ (7 - m) := by
      rw [all,Nat.mul_assoc]
      omega
    exact Nat.le_of_mul_le_mul_right product (Nat.two_pow_pos _)

/-- An addition fails only when memory is refused, and changes nothing then. -/
theorem Valid.add (valid : Valid ht) (least : 64 ≤ ht.max_load.toNat) (few : used_items ht ≤ 2 ^ 26) (key : BitVec 32)
    (good : value_empty value = false) (memory : Bool) :
    (∃ ht' cleaned, hurd_ihash_add ht key value memory = some ⟨ht',cleaned,0⟩ ∧ Add ht ht' key value cleaned) ∨
      (memory = false ∧ hurd_ihash_add ht key value memory = some ⟨ht,[],ENOMEM⟩) := by
  have larger (small : ht.size.toNat ≤ 2 ^ 27) :
      (∃ ht' cleaned, grow ht key value memory = some ⟨ht',cleaned,0⟩ ∧ Add ht ht' key value cleaned) ∨
        (memory = false ∧ grow ht key value memory = some ⟨ht,[],ENOMEM⟩) := by
    cases memory with
    | false => exact .inr ⟨rfl,by simp [grow]⟩
    | true =>
      obtain ⟨ht',cleaned,result,added,-⟩ := valid.larger small key good
      exact .inl ⟨ht',cleaned,result,added⟩
  have live_used := live_le_used ht
  rw [hurd_ihash_add]
  obtain fresh | table := valid
  · rw [if_neg (fun here => here.1 fresh.size)]
    apply larger
    rw [fresh.size]
    decide
  · split
    case isFalse crowded =>
      have some : ht.size ≠ 0 := by
        intro zero
        have := table.pow.positive
        rw [zero] at this
        exact Nat.lt_irrefl _ this
      have half := table.half (fun load => crowded ⟨some,load⟩) least
      exact larger (by omega)
    case isTrue =>
      obtain ⟨ht',cleaned,added,put⟩ | ⟨full,all⟩ := table.add_one key good
      · rw [added]
        exact .inl ⟨ht',cleaned,rfl,put.table,put.max_load,put.cleanup,put.values,put.used,put.cleaned⟩
      · rw [full]
        exact larger (by omega)

theorem Valid.find (valid : Valid ht) (key : BitVec 32) : hurd_ihash_find ht key = (values ht key).getD 0 := by
  rw [hurd_ihash_find]
  obtain fresh | table := valid
  · rw [if_pos fresh.size,fresh.values]
    rfl
  · have some : ht.size ≠ 0 := by
      intro zero
      have := table.pow.positive
      rw [zero] at this
      exact Nat.lt_irrefl _ this
    rw [if_neg some]
    cases found : index_valid ht (find_index ht key) key with
    | true =>
      rw [(table.valid_iff key).mp found,Option.getD_some]
      exact if_pos found
    | false =>
      rw [table.absent_of_not_valid found,Option.getD_none]
      exact if_neg (by rw [found]; exact Bool.false_ne_true)

theorem Valid.remove (valid : Valid ht) (key : BitVec 32) :
    (∃ v ht' cleaned, values ht key = some v ∧ hurd_ihash_remove ht key = (ht',cleaned,1) ∧ Table ht' ∧
      ht'.max_load = ht.max_load ∧ ht'.cleanup = ht.cleanup ∧ values ht' = Function.update (values ht) key none ∧
      used_items ht' ≤ used_items ht ∧ cleaned = if ht.cleanup then [v] else []) ∨
    (values ht key = none ∧ hurd_ihash_remove ht key = (ht,[],0)) := by
  obtain fresh | table := valid
  · exact .inr ⟨fresh.values key,if_neg (fun here => here.1 fresh.size)⟩
  · cases found : index_valid ht (find_index ht key) key with
    | true =>
      have some_size : ht.size ≠ 0 := by
        intro zero
        have := table.pow.positive
        rw [zero] at this
        exact Nat.lt_irrefl _ this
      obtain ⟨table₁,values₁,-,used₁⟩ := table.removed (index_valid_iff.mp found)
      exact .inl ⟨_,_,_,(table.valid_iff key).mp found,if_pos ⟨some_size,found⟩,table₁,rfl,rfl,values₁,used₁,rfl⟩
    | false =>
      refine .inr ⟨table.absent_of_not_valid found,if_neg fun here => ?_⟩
      rw [found] at here
      exact Bool.false_ne_true here.2

/-! ### Runs of calls -/

inductive Op
  | add (key value : BitVec 32) (memory : Bool)
  | find (key : BitVec 32)
  | remove (key : BitVec 32)

/-- The values given to the cleanup function, and what a call returns. -/
structure Out where
  cleaned : List (BitVec 32)
  r : Nat
deriving DecidableEq

def step (ht : hurd_ihash) : Op → Option (hurd_ihash × Out)
  | .add key value memory => (hurd_ihash_add ht key value memory).map (fun added => (added.ht,⟨added.cleaned,added.r⟩))
  | .find key => some (ht,⟨[],(hurd_ihash_find ht key).toNat⟩)
  | .remove key => some ((hurd_ihash_remove ht key).1,⟨(hurd_ihash_remove ht key).2.1,(hurd_ihash_remove ht key).2.2⟩)

def run (ht : hurd_ihash) : List Op → Option (hurd_ihash × List Out)
  | [] => some (ht,[])
  | op :: ops => do
    let (ht,out) ← step ht op
    let (ht,outs) ← run ht ops
    some (ht,out :: outs)

/-! ### The map -/

/-- What the calls are for: each key has at most one value. A refused addition is one for which
    there was no memory. -/
inductive MapStep (cleanup : Bool) (m : BitVec 32 → Option (BitVec 32)) : Op → Out → (BitVec 32 → Option (BitVec 32)) → Prop
  | add {key value : BitVec 32} {memory : Bool} : MapStep cleanup m (.add key value memory)
      ⟨if cleanup then (m key).toList else [],0⟩ (Function.update m key (some value))
  | refused {key value : BitVec 32} : MapStep cleanup m (.add key value false) ⟨[],ENOMEM⟩ m
  | find {key : BitVec 32} : MapStep cleanup m (.find key) ⟨[],((m key).getD 0).toNat⟩ m
  | remove {key value : BitVec 32} (entry : m key = some value) :
      MapStep cleanup m (.remove key) ⟨if cleanup then [value] else [],1⟩ (Function.update m key none)
  | absent {key : BitVec 32} (none : m key = none) : MapStep cleanup m (.remove key) ⟨[],0⟩ m

inductive MapRun (cleanup : Bool) : (BitVec 32 → Option (BitVec 32)) → List Op → List Out → (BitVec 32 → Option (BitVec 32)) → Prop
  | nil {m : BitVec 32 → Option (BitVec 32)} : MapRun cleanup m [] [] m
  | cons {m m₁ m₂ : BitVec 32 → Option (BitVec 32)} {op : Op} {out : Out} {ops : List Op} {outs : List Out}
      (step : MapStep cleanup m op out m₁) (rest : MapRun cleanup m₁ ops outs m₂) :
      MapRun cleanup m (op :: ops) (out :: outs) m₂

/-- The values 0 and -1 are reserved for the table. -/
def Op.Good : Op → Prop
  | .add _ value _ => value_empty value = false
  | _ => True

instance (op : Op) : Decidable op.Good :=
  match op with
  | .add _ value _ => inferInstanceAs (Decidable (value_empty value = false))
  | .find _ => inferInstanceAs (Decidable True)
  | .remove _ => inferInstanceAs (Decidable True)

def Op.adds : Op → Nat
  | .add .. => 1
  | _ => 0

/-- What holds of the table while `left` additions are still to come. -/
structure Ready (ht : hurd_ihash) (left : Nat) : Prop where
  valid : Valid ht
  least : 64 ≤ ht.max_load.toNat
  few : used_items ht + left ≤ 2 ^ 26

/-- Each call does what it would do to the map. -/
theorem Ready.step {op : Op} {left : Nat} (ready : Ready ht (op.adds + left)) (good : op.Good) :
    ∃ ht' out, step ht op = some (ht',out) ∧ MapStep ht.cleanup (values ht) op out (values ht') ∧
      ht'.cleanup = ht.cleanup ∧ Ready ht' left := by
  have few := ready.few
  cases op with
  | add key value memory =>
    change used_items ht + (1 + left) ≤ _ at few
    obtain ⟨ht',cleaned,result,added⟩ | ⟨rfl,result⟩ := ready.valid.add ready.least (by omega) key good memory
    · have used := added.used
      refine ⟨ht',_,by rw [Ihash.step,result]; rfl,?_,added.cleanup,.inr added.table,?_,by omega⟩
      · rw [added.values,added.cleaned]
        exact .add
      · rw [added.max_load]
        exact ready.least
    · exact ⟨ht,_,by rw [Ihash.step,result]; rfl,.refused,rfl,ready.valid,ready.least,by omega⟩
  | find key =>
    change used_items ht + (0 + left) ≤ _ at few
    refine ⟨ht,_,rfl,?_,rfl,ready.valid,ready.least,by omega⟩
    rw [ready.valid.find]
    exact .find
  | remove key =>
    change used_items ht + (0 + left) ≤ _ at few
    obtain ⟨v,ht',cleaned,entry,result,table,max_load,cleanup,values',used,cleaned_eq⟩ | ⟨none,result⟩ :=
      ready.valid.remove key
    · refine ⟨ht',_,by rw [Ihash.step,result],?_,cleanup,.inr table,?_,by omega⟩
      · rw [values',cleaned_eq]
        exact .remove entry
      · rw [max_load]
        exact ready.least
    · exact ⟨ht,_,by rw [Ihash.step,result],.absent none,rfl,ready.valid,ready.least,by omega⟩

theorem Ready.run {ops : List Op} (ready : Ready ht (ops.map Op.adds).sum) (good : ∀ op ∈ ops, op.Good) :
    ∃ ht' outs, run ht ops = some (ht',outs) ∧ MapRun ht.cleanup (values ht) ops outs (values ht') ∧ Valid ht' := by
  induction ops generalizing ht with
  | nil => exact ⟨ht,[],rfl,.nil,ready.valid⟩
  | cons op ops ih =>
    obtain ⟨ht₁,out,stepped,mapped,cleanup,ready₁⟩ := ready.step (good op List.mem_cons_self)
    obtain ⟨ht₂,outs,ran,maps,valid⟩ := ih ready₁ (fun op mem => good op (List.mem_cons_of_mem _ mem))
    rw [cleanup] at maps
    refine ⟨ht₂,out :: outs,?_,.cons mapped maps,valid⟩
    rw [Ihash.run,stepped]
    change (Ihash.run ht₁ ops).bind _ = _
    rw [ran]
    rfl

/-- With at most 2^26 additions the hash table is the map, whatever its collisions, its deleted
    places and its growth: all calls return what they do on the map, each value that is replaced or
    removed is given to the cleanup function once, nothing is written outside the array, and an
    addition fails only for want of memory. -/
theorem ihash_is_map {max_load : BitVec 32} {cleanup : Bool} {ops : List Op} (least : 64 ≤ max_load.toNat)
    (few : (ops.map Op.adds).sum ≤ 2 ^ 26) (good : ∀ op ∈ ops, op.Good) :
    ∃ ht outs m, run { hurd_ihash_init with max_load,cleanup } ops = some (ht,outs) ∧
      MapRun cleanup (fun _ => none) ops outs m ∧ ∀ key, hurd_ihash_find ht key = (m key).getD 0 := by
  have fresh : Fresh { hurd_ihash_init with max_load,cleanup } := ⟨rfl,rfl⟩
  have ready : Ready { hurd_ihash_init with max_load,cleanup } (ops.map Op.adds).sum := by
    refine ⟨.inl fresh,least,?_⟩
    change 0 + _ ≤ _
    omega
  obtain ⟨ht,outs,ran,maps,valid⟩ := ready.run good
  have empty : values { hurd_ihash_init with max_load,cleanup } = fun _ => none := funext fresh.values
  rw [empty] at maps
  exact ⟨ht,outs,_,ran,maps,valid.find⟩

/-- Two keys of one place, the first of them removed. -/
theorem ihash_is_map_collision : ∃ ht outs m,
    run { hurd_ihash_init with max_load := 96,cleanup := true }
      [.add 1 5 true,.add 33 6 true,.remove 1,.find 33] = some (ht,outs) ∧
    MapRun true (fun _ => none) [.add 1 5 true,.add 33 6 true,.remove 1,.find 33] outs m ∧
    ∀ key, hurd_ihash_find ht key = (m key).getD 0 :=
  ihash_is_map (by decide) (by decide) (by decide)

/-- A reserved value that is stored all the same cuts the way of the other key. -/
example : (run { hurd_ihash_init with max_load := 96,cleanup := true }
    [.add 1 5 true,.add 33 6 true,.add 1 0 true,.find 33]).map (fun out => out.2.getLast?) = some (some ⟨[],0⟩) := by
  decide +kernel

end GridOS.Ihash
