import GridOS.MlttRuns
import GridOS.TableCountRuns
import GridOS.DbdGet

/-!
The three views of a search in the tables of the cache agree. `DbdGet` refines `Mltt`: with the reference counts,
the locks and the words of the tables left out, a call finds and makes what `Mltt` does, and crashes where it does.
And its tables are those of `TableCount`, in which the thread of the call is the only one that comes back from waits.
-/
namespace GridOS.MlttViews
open GridOS.Mltt (fss_mltt_pos calc_mltt_pos MLTT_ENTRY_COUNT Cache)
open GridOS.TableCount (MLTT_PAGE_SIZE MLTT_TABLE_USING pointer counter marked mark unmark)
open GridOS.DbdGet (Supply Outcome word set_word entry_at table Linked FreeMemory)

/-! ### One file of the cache -/

/-- The entries of a table that point to a descriptor. -/
def filled (entries : Nat → Option Nat) : Nat := ((Finset.range MLTT_ENTRY_COUNT).filter fun j => entries j ≠ none).card

theorem filled_none : filled (fun _ => none) = 0 := by simp [filled]

theorem filled_some {entries : Nat → Option Nat} {j : Nat} (inside : j < MLTT_ENTRY_COUNT) (empty : entries j = none) (who : Nat) :
    filled (Function.update entries j (some who)) = filled entries + 1 := by
  have grown : (Finset.range MLTT_ENTRY_COUNT).filter (fun i => Function.update entries j (some who) i ≠ none) =
      insert j ((Finset.range MLTT_ENTRY_COUNT).filter fun i => entries i ≠ none) := by
    ext i
    by_cases same : i = j
    · subst same
      simp [inside]
    · simp [same]
  rw [filled,grown,Finset.card_insert_of_notMem (by simp [empty])]
  rfl

theorem filled_lt {entries : Nat → Option Nat} {j : Nat} (inside : j < MLTT_ENTRY_COUNT) (empty : entries j = none) :
    filled entries < MLTT_ENTRY_COUNT := by
  have grown := filled_some inside empty 0
  have most : filled (Function.update entries j (some 0)) ≤ (Finset.range MLTT_ENTRY_COUNT).card :=
    Finset.card_le_card (Finset.filter_subset ..)
  rw [Finset.card_range] at most
  omega

section Refines
variable {φ β : Type} {f : φ} {cache : Cache φ β} {s : DbdGet.State}

/-- The file's tables and the descriptors are those of the cache; a word of the `lv2` table is that of one table and
    counts its entries, below the mark. -/
structure View (f : φ) (cache : Cache φ β) (s : DbdGet.State) : Prop where
  lv2 : cache.lv2 f = s.lv2.map fun _ => table s
  linked : Linked s
  apart : ∀ k k', pointer (word s k) = pointer (word s k') → pointer (word s k) ≠ 0 → k = k'
  counted : ∀ k entries, table s k = some entries → word s k % MLTT_TABLE_USING = filled entries
  buffer : ∀ who, (cache.dbds who).buffer = s.buffer who
  block_id : ∀ who, (cache.dbds who).block_id = s.block_id who

/-- What the call is told from outside is what the cache has; nothing is evicted. -/
structure Supplies (cache : Cache φ β) (memory2 memory1 : Bool) (supply : Supply) : Prop where
  lv2_memory : supply.lv2_memory = memory2
  lv1_memory : supply.lv1_memory.isSome = memory1
  dbd : supply.dbd 0 = cache.dbd_stack.head?
  db : supply.db 0 = cache.db_stack.head?
  dbd_grab : supply.dbd_grab 0 = false
  db_grab : supply.db_grab 0 = false

/-- The view is one of the tables and the descriptors. -/
theorem View.congr {s' : DbdGet.State} (view : View f cache s) (lv2 : s'.lv2 = s.lv2) (tables : s'.tables = s.tables)
    (buffer : s'.buffer = s.buffer) (block_id : s'.block_id = s.block_id) : View f cache s' := by
  have words : word s' = word s := by
    funext k
    rw [word,word,lv2]
  have same : table s' = table s := by
    funext k
    rw [table,table,words,tables]
  refine ⟨?_,?_,?_,?_,?_,?_⟩
  · rw [same,lv2]
    exact view.lv2
  · intro k
    rw [words,tables]
    exact view.linked k
  · rw [words]
    exact view.apart
  · rw [words,same]
    exact view.counted
  · rw [buffer]
    exact view.buffer
  · rw [block_id]
    exact view.block_id

/-- A word that keeps its pointer keeps its table. -/
theorem table_set_word (there : s.lv2 ≠ none) {k value : Nat} (kept : pointer value = pointer (word s k)) :
    table (set_word k value s) = table s := by
  funext k'
  rw [table,table,DbdGet.word_set_word there]
  by_cases here : k' = k
  · rw [if_pos here,kept,here]
    rfl
  · rw [if_neg here]
    rfl

theorem mark_low (w : Nat) : mark w % MLTT_TABLE_USING = w % MLTT_TABLE_USING := by
  unfold mark
  split
  · rfl
  · exact Nat.add_mod_right _ _

/-- The mark is seen by nobody. -/
theorem View.marked (view : View f cache s) (there : s.lv2 ≠ none) (pos : fss_mltt_pos) : View f cache (DbdGet.unlock_using pos s) := by
  have kept := (DbdGet.mark_kept (word s pos.lv2)).1
  have same := table_set_word there kept
  have pointers (k : Nat) : pointer (word (set_word pos.lv2 (mark (word s pos.lv2)) s) k) = pointer (word s k) := by
    rw [DbdGet.word_set_word there]
    split
    · next here => rw [kept,here]
    · rfl
  obtain ⟨words,made⟩ := Option.ne_none_iff_exists'.mp there
  refine View.congr (s := set_word pos.lv2 (mark (word s pos.lv2)) s) ⟨?_,?_,?_,?_,view.buffer,view.block_id⟩ rfl rfl rfl rfl
  · rw [same,view.lv2,set_word,made]
    rfl
  · intro k
    rw [pointers]
    exact view.linked k
  · intro k k'
    rw [pointers,pointers]
    exact view.apart k k'
  · intro k entries
    rw [same,DbdGet.word_set_word there]
    split
    · next here =>
      rw [mark_low,here]
      exact view.counted pos.lv2 entries
    · exact view.counted k entries

section
variable [DecidableEq φ] {pos : fss_mltt_pos} {supply : Supply}

theorem lv2_refines (view : View f cache s) (memory : Bool) :
    (Mltt.allocate_lv2 cache f memory = none ∧ DbdGet.allocate_lv2 memory s = none) ∨
      ∃ cache' s', Mltt.allocate_lv2 cache f memory = some cache' ∧ DbdGet.allocate_lv2 memory s = some s' ∧ View f cache' s' ∧
        s'.lv2 ≠ none ∧ s'.tables = s.tables ∧ cache'.dbd_stack = cache.dbd_stack ∧ cache'.db_stack = cache.db_stack := by
  rw [Mltt.allocate_lv2,view.lv2,DbdGet.allocate_lv2]
  cases made : s.lv2 with
  | some words => exact .inr ⟨cache,s,rfl,rfl,view,by simp [made],rfl,rfl,rfl⟩
  | none =>
    cases memory with
    | false => exact .inl ⟨rfl,rfl⟩
    | true =>
      have empty (k : Nat) : word { s with lv2 := some fun _ => 0 } k = 0 := rfl
      refine .inr ⟨_,_,rfl,rfl,⟨?_,?_,?_,?_,view.buffer,view.block_id⟩,Option.some_ne_none _,rfl,rfl,rfl⟩
      · show Function.update cache.lv2 f (some fun _ => none) f = some (table { s with lv2 := some fun _ => 0 })
        rw [Function.update_self]
        congr 1
      · exact fun k there => absurd rfl there
      · exact fun _ _ _ there => absurd rfl there
      · intro k entries place
        cases place

/-- A new table, whose memory was no table before. -/
theorem table_add (pos : fss_mltt_pos) (linked : Linked s) (there : s.lv2 ≠ none) {address : Nat} (some_memory : address ≠ 0) (aligned : MLTT_PAGE_SIZE ∣ address)
    (free : s.tables address = none) (k : Nat) :
    table (set_word pos.lv2 address (DbdGet.add_table address s)) k = if k = pos.lv2 then some fun _ => none else table s k := by
  have place := (DbdGet.word_address aligned).1
  have words : word (set_word pos.lv2 address (DbdGet.add_table address s)) k = if k = pos.lv2 then address else word s k :=
    DbdGet.word_set_word (s := DbdGet.add_table address s) there k
  rw [table,words]
  by_cases here : k = pos.lv2
  · rw [if_pos here,if_pos here,place,if_neg some_memory]
    exact Function.update_self ..
  · rw [if_neg here,if_neg here,table]
    split
    · rfl
    · next some_table =>
      refine Function.update_of_ne ?_ ..
      intro same
      exact linked k some_table (same ▸ free)

theorem lv1_refines (view : View f cache s) (there : s.lv2 ≠ none) (free : FreeMemory supply s) (pos : fss_mltt_pos) :
    (Mltt.allocate_lv1 cache f pos supply.lv1_memory.isSome = none ∧ DbdGet.allocate_lv1 pos supply.lv1_memory s = none) ∨
      ∃ cache' s' entries, Mltt.allocate_lv1 cache f pos supply.lv1_memory.isSome = some cache' ∧
        DbdGet.allocate_lv1 pos supply.lv1_memory s = some s' ∧ View f cache' s' ∧ s'.lv2 ≠ none ∧ table s' pos.lv2 = some entries ∧
        cache'.dbd_stack = cache.dbd_stack ∧ cache'.db_stack = cache.db_stack := by
  obtain ⟨words,made⟩ := Option.ne_none_iff_exists'.mp there
  have tables : (cache.lv2 f).bind (fun lv2 => lv2 pos.lv2) = table s pos.lv2 := by rw [view.lv2,made]; rfl
  rw [Mltt.allocate_lv1,tables,DbdGet.allocate_lv1]
  by_cases present : pointer (word s pos.lv2) ≠ 0
  · obtain ⟨entries,place⟩ := Option.ne_none_iff_exists'.mp (view.linked pos.lv2 present)
    have held : table s pos.lv2 = some entries := by rw [table,if_neg present,place]
    rw [held,if_pos present]
    exact .inr ⟨cache,s,entries,rfl,rfl,view,there,held,rfl,rfl⟩
  · have none_yet : table s pos.lv2 = none := by rw [table,if_pos (not_not.mp present)]
    rw [none_yet,if_neg present]
    cases memory : supply.lv1_memory with
    | none => exact .inl ⟨rfl,rfl⟩
    | some address =>
      obtain ⟨some_memory,aligned,unused⟩ := free address memory
      have added := table_add pos view.linked there some_memory aligned unused
      have place := (DbdGet.word_address aligned).1
      have new_word (k : Nat) : word (set_word pos.lv2 address (DbdGet.add_table address s)) k = if k = pos.lv2 then address else word s k :=
        DbdGet.word_set_word (s := DbdGet.add_table address s) there k
      have other {k : Nat} (some_table : pointer (word s k) ≠ 0) : pointer (word s k) ≠ address :=
        fun same => view.linked k some_table (same ▸ unused)
      have lv2 : (set_word pos.lv2 address (DbdGet.add_table address s)).lv2 = some (Function.update words pos.lv2 address) := by
        simp [DbdGet.set_word,DbdGet.add_table,made]
      refine .inr ⟨_,_,fun _ => none,rfl,rfl,⟨?_,?_,?_,?_,view.buffer,view.block_id⟩,?_,by rw [added,if_pos rfl],rfl,rfl⟩
      · show Function.update cache.lv2 f ((cache.lv2 f).map fun lv2 => Function.update lv2 pos.lv2 (some fun _ => none)) f = _
        rw [Function.update_self,view.lv2,made,lv2]
        exact congrArg some (funext fun k => (Function.update_apply ..).trans (added k).symm)
      · intro k
        rw [new_word]
        split
        · rw [place]
          intro _
          show Function.update s.tables address _ address ≠ none
          rw [Function.update_self]
          exact Option.some_ne_none _
        · intro some_table
          show Function.update s.tables address _ _ ≠ none
          rw [Function.update_of_ne (other some_table)]
          exact view.linked k some_table
      · intro k k'
        rw [new_word,new_word]
        split
        · split
          · next here here' => exact fun _ _ => here.trans here'.symm
          · rw [place]
            exact fun same some_table => absurd same.symm (other (same ▸ some_table))
        · split
          · rw [place]
            exact fun same some_table => absurd same (other some_table)
          · exact view.apart k k'
      · intro k entries
        rw [added,new_word]
        split
        · intro held
          obtain rfl := Option.some.inj held
          rw [filled_none]
          exact Nat.mod_eq_zero_of_dvd (dvd_trans (by decide) aligned)
        · exact view.counted k entries
      · rw [lv2]
        exact Option.some_ne_none _

omit [DecidableEq φ] in
/-- The search looks at the same entry. -/
theorem entry_refines (view : View f cache s) (there : s.lv2 ≠ none) {entries : Nat → Option Nat} (place : table s pos.lv2 = some entries) :
    Mltt.lv1_entry cache f pos = entries pos.lv1 ∧ entry_at s (pointer (word s pos.lv2)) pos.lv1 = entries pos.lv1 := by
  obtain ⟨words,made⟩ := Option.ne_none_iff_exists'.mp there
  refine ⟨?_,?_⟩
  · rw [Mltt.lv1_entry,view.lv2,made,Option.map_some,Option.bind_some,place]
    rfl
  · rw [DbdGet.entry_at,(DbdGet.table_some place).2]
    rfl

/-- The descriptor that the call makes. -/
theorem made_refines (view : View f cache s) (there : s.lv2 ≠ none) {entries : Nat → Option Nat} (place : table s pos.lv2 = some entries)
    (inside : pos.lv1 < MLTT_ENTRY_COUNT) (empty : entries pos.lv1 = none) (who block_id : Nat) (rest : List Nat) :
    View f { Mltt.set_entry { cache with dbd_stack := rest, dbds := Function.update cache.dbds who (Mltt.fresh_dbd f) } f pos who with
        dbds := Function.update (Function.update cache.dbds who (Mltt.fresh_dbd f)) who { Mltt.fresh_dbd f with block_id } }
      (DbdGet.settle (pointer (word s pos.lv2)) pos block_id who (DbdGet.fresh_dbd who s)) := by
  obtain ⟨words,made⟩ := Option.ne_none_iff_exists'.mp there
  obtain ⟨some_table,held⟩ := DbdGet.table_some place
  have low := view.counted pos.lv2 entries place
  have room := filled_lt inside empty
  generalize ends : DbdGet.settle (pointer (word s pos.lv2)) pos block_id who (DbdGet.fresh_dbd who s) = s'
  have lv2 : s'.lv2 = some (Function.update words pos.lv2 (word s pos.lv2 + 1)) := by
    rw [← ends]
    simp [DbdGet.settle,DbdGet.set_word,DbdGet.set_entry,DbdGet.fresh_dbd,made,DbdGet.word]
  have tables : s'.tables = Function.update s.tables (pointer (word s pos.lv2)) (some (Function.update entries pos.lv1 (some who))) := by
    rw [← ends]
    simp [DbdGet.settle,DbdGet.set_word,DbdGet.set_entry,DbdGet.fresh_dbd,held]
  have new_word (k : Nat) : word s' k = if k = pos.lv2 then word s pos.lv2 + 1 else word s k := by
    rw [word,lv2,word,word,made]
    exact Function.update_apply ..
  have next : pointer (word s pos.lv2 + 1) = pointer (word s pos.lv2) ∧ (word s pos.lv2 + 1) % MLTT_TABLE_USING = filled entries + 1 := by
    unfold pointer MLTT_PAGE_SIZE
    unfold MLTT_TABLE_USING at low ⊢
    rw [MLTT_ENTRY_COUNT] at room
    omega
  have pointers (k : Nat) : pointer (word s' k) = pointer (word s k) := by
    rw [new_word]
    split
    · next here => rw [next.1,here]
    · rfl
  have new_table (k : Nat) : table s' k = if k = pos.lv2 then some (Function.update entries pos.lv1 (some who)) else table s k := by
    rw [table,pointers,tables]
    by_cases here : k = pos.lv2
    · rw [if_pos here,here,if_neg some_table,Function.update_self]
    · rw [if_neg here,table]
      split
      · rfl
      · next other =>
        refine Function.update_of_ne ?_ ..
        exact fun same => here (view.apart k pos.lv2 same other)
  refine ⟨?_,?_,?_,?_,?_,?_⟩
  · show Function.update cache.lv2 f ((cache.lv2 f).map fun lv2 =>
      Function.update lv2 pos.lv2 ((lv2 pos.lv2).map fun lv1 => Function.update lv1 pos.lv1 (some who))) f = _
    rw [Function.update_self,view.lv2,made,lv2,Option.map_some,Option.map_some,Option.map_some,place]
    refine congrArg some (funext fun k => ?_)
    rw [new_table]
    exact Function.update_apply ..
  · intro k
    rw [pointers,tables]
    intro other
    by_cases same : pointer (word s k) = pointer (word s pos.lv2)
    · rw [same,Function.update_self]
      exact Option.some_ne_none _
    · rw [Function.update_of_ne same]
      exact view.linked k other
  · intro k k'
    rw [pointers,pointers]
    exact view.apart k k'
  · intro k entries'
    rw [new_table,new_word]
    split
    · intro here
      obtain rfl := Option.some.inj here
      rw [filled_some inside empty,next.2]
    · exact view.counted k entries'
  · intro other
    rw [← ends]
    show (Function.update (Function.update cache.dbds who (Mltt.fresh_dbd f)) who { Mltt.fresh_dbd f with block_id } other).buffer =
      Function.update s.buffer who none other
    by_cases same : other = who
    · rw [same,Function.update_self,Function.update_self]
      rfl
    · rw [Function.update_of_ne same,Function.update_of_ne same,Function.update_of_ne same]
      exact view.buffer other
  · intro other
    rw [← ends]
    show (Function.update (Function.update cache.dbds who (Mltt.fresh_dbd f)) who { Mltt.fresh_dbd f with block_id } other).block_id =
      Function.update (Function.update s.block_id who 0) who block_id other
    by_cases same : other = who
    · rw [same,Function.update_self,Function.update_self]
    · rw [Function.update_of_ne same,Function.update_of_ne same,Function.update_of_ne same,Function.update_of_ne same]
      exact view.block_id other

omit [DecidableEq φ] in
/-- The end of the search: the descriptor has a buffer, or gets one, or there is none. -/
theorem hold_refines (view : View f cache s) (db : supply.db 0 = cache.db_stack.head?) (fails : supply.db_grab 0 = false)
    (fuel who : Nat) : ∃ s', DbdGet.hold supply (fuel + 1) who s = some (.returned (Mltt.give_buffer cache who).2,s') ∧
      View f (Mltt.give_buffer cache who).1 s' := by
  rw [Mltt.give_buffer,view.buffer,DbdGet.hold]
  dsimp only
  cases held : s.buffer who with
  | some buffer => exact ⟨_,rfl,view.congr rfl rfl rfl rfl⟩
  | none =>
    dsimp only
    rw [Mltt.fss_db_malloc,DbdGet.give_buffer,db]
    cases cache.db_stack with
    | nil =>
      dsimp only [List.head?_nil]
      rw [if_pos fails]
      exact ⟨_,rfl,view.congr rfl rfl rfl rfl⟩
    | cons buffer rest =>
      refine ⟨_,rfl,?_⟩
      refine View.congr (s := { s with buffer := Function.update s.buffer who (some buffer) })
        ⟨view.lv2,view.linked,view.apart,view.counted,?_,?_⟩ rfl rfl rfl rfl
      · intro other
        by_cases same : other = who
        · subst same
          simp
        · simp [same,view.buffer]
      · intro other
        by_cases same : other = who
        · subst same
          simp [view.block_id]
        · simp [same,view.block_id]

omit [DecidableEq φ] in
theorem fill_refines (dbd : supply.dbd 0 = cache.dbd_stack.head?) (fails : supply.dbd_grab 0 = false) (fuel lv1 : Nat) (pos : fss_mltt_pos) :
    (cache.dbd_stack = [] ∧ DbdGet.fill supply lv1 pos (fuel + 1) 0 s = some (none,DbdGet.unlock_using pos s)) ∨
      ∃ who rest, cache.dbd_stack = who :: rest ∧ DbdGet.fill supply lv1 pos (fuel + 1) 0 s = some (some who,DbdGet.fresh_dbd who s) := by
  rw [DbdGet.fill,dbd]
  cases cache.dbd_stack with
  | nil =>
    dsimp only [List.head?_nil]
    rw [if_pos fails]
    exact .inl ⟨rfl,rfl⟩
  | cons who rest => exact .inr ⟨who,rest,rfl,rfl⟩

/-- A call with the locks, the counts and the words does what the call on the tables does. -/
theorem get_refines (view : View f cache s) {memory2 memory1 : Bool} (supplies : Supplies cache memory2 memory1 supply)
    (free : FreeMemory supply s) (fuel fuel' block_id : Nat) :
    (Mltt.fss_dbd_get cache f block_id memory2 memory1 = none ∧
      ∃ s', DbdGet.fss_dbd_get supply (fuel + 1) (fuel' + 1) block_id s = some (.crashed,s')) ∨
    ∃ cache' who s', Mltt.fss_dbd_get cache f block_id memory2 memory1 = some (cache',who) ∧
      DbdGet.fss_dbd_get supply (fuel + 1) (fuel' + 1) block_id s = some (.returned who,s') ∧ View f cache' s' := by
  obtain ⟨rfl,rfl,dbd,db,dbd_grab,db_grab⟩ := supplies
  have inside : (calc_mltt_pos block_id).lv1 < MLTT_ENTRY_COUNT := by
    rw [Mltt.calc_mltt_pos_eq]
    exact Nat.mod_lt _ (by decide)
  have locked : View f cache { s with lock := true } := view.congr rfl rfl rfl rfl
  rw [Mltt.fss_dbd_get,DbdGet.fss_dbd_get,Mltt.search_mltt,DbdGet.search_mltt]
  generalize calc_mltt_pos block_id = pos at inside ⊢
  dsimp only
  obtain ⟨crash,crash'⟩ | ⟨cache₂,s₂,made,made',view₂,there₂,tables₂,stack₂,db_stack₂⟩ := lv2_refines locked supply.lv2_memory
  · rw [crash,crash']
    exact .inl ⟨rfl,_,rfl⟩
  have free₂ : FreeMemory supply s₂ := by
    intro address memory
    rw [tables₂]
    exact free address memory
  rw [made,made']
  dsimp only
  obtain ⟨crash,crash'⟩ | ⟨cache₁,s₁,entries,made₁,made₁',view₁,there₁,place,stack₁,db_stack₁⟩ := lv1_refines view₂ there₂ free₂ pos
  · rw [crash,crash']
    exact .inl ⟨rfl,_,rfl⟩
  rw [made₁,made₁']
  dsimp only
  obtain ⟨entry,entry'⟩ := entry_refines view₁ there₁ place
  rw [entry,entry']
  have db₁ : supply.db 0 = cache₁.db_stack.head? := by rw [db_stack₁,db_stack₂,db]
  have dbd₁ : supply.dbd 0 = cache₁.dbd_stack.head? := by rw [stack₁,stack₂,dbd]
  cases present : entries pos.lv1 with
  | some who =>
    obtain ⟨s',held,view'⟩ := hold_refines view₁ db₁ db_grab fuel' who
    exact .inr ⟨_,_,s',rfl,held,view'⟩
  | none =>
    dsimp only
    rw [Mltt.fss_dbd_malloc]
    obtain ⟨empty,filled⟩ | ⟨who,rest,stack,filled⟩ := fill_refines (s := s₁) dbd₁ dbd_grab fuel (pointer (word s₁ pos.lv2)) pos
    · rw [filled,empty]
      exact .inr ⟨_,_,_,rfl,rfl,view₁.marked there₁ pos⟩
    · rw [filled,stack]
      have kept : (Mltt.set_entry { cache₁ with dbd_stack := rest, dbds := Function.update cache₁.dbds who (Mltt.fresh_dbd f) }
          f pos who).dbds = Function.update cache₁.dbds who (Mltt.fresh_dbd f) := rfl
      dsimp only
      rw [kept,Function.update_self]
      obtain ⟨s',held,view'⟩ := hold_refines (made_refines view₁ there₁ place inside present who block_id rest) db₁ db_grab fuel' who
      exact .inr ⟨_,_,s',rfl,held,view'⟩

end

end Refines

/-! ### The words of the tables -/

section Counts
variable {τ : Type} [DecidableEq τ] {t : τ} {c : TableCount.State τ} {s : DbdGet.State} {pos : fss_mltt_pos} {supply : Supply}

/-- A null pointer is no entry. -/
def entry (x : Nat) : Option Nat := if x = 0 then none else some x

/-- The same words, tables and blocks. -/
structure Counts (c : TableCount.State τ) (s : DbdGet.State) : Prop where
  lv2 : s.lv2 = some c.lv2
  tables : ∀ address, s.tables address = (c.tables address).map fun table k => entry (table k)
  block_id : s.block_id = c.block_id

/-- A thread comes back from its waits, from the `i`-th one on, and finds the pool as it is then. -/
def come_back (t : τ) (pools : Nat → List Nat) (grab : Nat → Bool) : Nat → Nat → TableCount.State τ → TableCount.State τ
  | 0, _, c => c
  | fuel+1, i, c =>
    match c.pc t with
    | .outside => c
    | .waiting .. => come_back t pools grab fuel (i + 1) (TableCount.grabbed t (grab i) { c with pool := pools (i + 1) })

theorem come_back_outside {pools : Nat → List Nat} {grab : Nat → Bool} (outside : c.pc t = .outside) (fuel i : Nat) :
    come_back t pools grab fuel i c = c := by
  cases fuel with
  | zero => rfl
  | succ fuel =>
    rw [come_back,outside]

omit [DecidableEq τ] in
theorem Counts.word (counts : Counts c s) (k : Nat) : DbdGet.word s k = c.lv2 k := by
  rw [DbdGet.word,counts.lv2]
  rfl

omit [DecidableEq τ] in
theorem Counts.entry_at (counts : Counts c s) (lv1 k : Nat) : DbdGet.entry_at s lv1 k = entry (TableCount.entry_at c lv1 k) := by
  rw [DbdGet.entry_at,counts.tables,TableCount.entry_at]
  cases c.tables lv1 with
  | none => rfl
  | some table => rfl

omit [DecidableEq τ] in
theorem Counts.set_word (counts : Counts c s) (k value : Nat) : Counts (TableCount.set_word k value c) (DbdGet.set_word k value s) := by
  refine ⟨?_,counts.tables,counts.block_id⟩
  rw [DbdGet.set_word,counts.lv2]
  rfl

omit [DecidableEq τ] in
theorem Counts.set_entry (counts : Counts c s) (lv1 k : Nat) {who : Nat} (there : who ≠ 0) :
    Counts (TableCount.set_entry lv1 k who c) (DbdGet.set_entry lv1 k who s) := by
  refine ⟨counts.lv2,?_,counts.block_id⟩
  intro address
  show Function.update s.tables lv1 _ address = (Function.update c.tables lv1 _ address).map _
  by_cases here : address = lv1
  · rw [here,Function.update_self,Function.update_self,counts.tables]
    cases c.tables lv1 with
    | none => rfl
    | some table =>
      refine congrArg some (funext fun k' => ?_)
      dsimp only
      by_cases same : k' = k
      · rw [same,Function.update_self,Function.update_self,entry,if_neg there]
      · rw [Function.update_of_ne same,Function.update_of_ne same]
  · rw [Function.update_of_ne here,Function.update_of_ne here]
    exact counts.tables address

/-- What the call finds or makes is settled in both, and the thread is outside. -/
theorem Counts.settle (counts : Counts c s) (t : τ) (lv1 : Nat) (pos : fss_mltt_pos) (block_id : Nat) {who : Nat} (there : who ≠ 0) :
    Counts (TableCount.settle t lv1 pos block_id who c) (DbdGet.settle lv1 pos block_id who s) ∧
      (TableCount.settle t lv1 pos block_id who c).pc t = .outside := by
  have linked := counts.set_entry lv1 pos.lv1 there
  have counted := linked.set_word pos.lv2 (DbdGet.word (DbdGet.set_entry lv1 pos.lv1 who s) pos.lv2 + 1)
  rw [linked.word] at counted
  refine ⟨⟨?_,?_,?_⟩,Function.update_self ..⟩
  · rw [DbdGet.settle,linked.word]
    exact counted.lv2
  · rw [DbdGet.settle,linked.word]
    exact counted.tables
  · show Function.update s.block_id who block_id = Function.update c.block_id who block_id
    rw [counts.block_id]

/-- The loop for a descriptor is the thread's waits. -/
theorem fill_agrees {pools : Nat → List Nat} (served : ∀ i, supply.dbd i = (pools i).head?) (some_dbd : ∀ i, ∀ who ∈ pools i, who ≠ 0)
    (lv1 block_id : Nat) (fuel i : Nat) (counts : Counts c s) (pool : c.pool = pools i) {got : Option Nat} {s' : DbdGet.State}
    (done : DbdGet.fill supply lv1 pos fuel i s = some (got,s')) :
    Counts (come_back t pools supply.dbd_grab fuel i (TableCount.fill t lv1 pos block_id c))
      (got.elim s' fun who => DbdGet.settle lv1 pos block_id who s') := by
  induction fuel generalizing i c s with
  | zero => cases done
  | succ fuel ih =>
    rw [DbdGet.fill,served] at done
    rw [TableCount.fill,pool]
    cases head : pools i with
    | cons who rest =>
      rw [head] at done
      obtain ⟨rfl,rfl⟩ := Prod.mk.inj (Option.some.inj done)
      have there : who ≠ 0 := some_dbd i who (by rw [head]; exact List.mem_cons_self)
      have same : Counts { c with pool := rest } s := ⟨counts.lv2,counts.tables,counts.block_id⟩
      obtain ⟨settled,outside⟩ := same.settle t lv1 pos block_id there
      dsimp only
      rw [come_back_outside outside]
      refine ⟨settled.lv2,settled.tables,?_⟩
      have blocks := settled.block_id
      rw [← blocks]
      show Function.update (Function.update s.block_id who 0) who block_id = Function.update s.block_id who block_id
      simp
    | nil =>
      rw [head] at done
      have marked := counts.set_word pos.lv2 (mark (c.lv2 pos.lv2))
      generalize waiting : TableCount.move t (.waiting lv1 pos block_id) (TableCount.set_word pos.lv2 (mark (c.lv2 pos.lv2)) c) = c₁
      have waits : c₁.pc t = .waiting lv1 pos block_id := by
        rw [← waiting]
        exact Function.update_self ..
      have counts₁ : Counts { c₁ with pool := pools (i + 1) } (DbdGet.unlock_using pos s) := by
        rw [← waiting,DbdGet.unlock_using,counts.word]
        exact ⟨marked.lv2,marked.tables,marked.block_id⟩
      dsimp only [List.head?_nil] at done ⊢
      rw [come_back,waits]
      dsimp only
      rw [TableCount.grabbed,waits]
      dsimp only
      by_cases fails : supply.dbd_grab i = false
      · rw [if_pos fails] at done
        obtain ⟨rfl,rfl⟩ := Prod.mk.inj (Option.some.inj done)
        rw [if_neg (by simp [fails]),come_back_outside (Function.update_self ..)]
        exact ⟨counts₁.lv2,counts₁.tables,counts₁.block_id⟩
      · have counts₂ := counts₁.set_word pos.lv2 (unmark (c₁.lv2 pos.lv2))
        have counts₂ : Counts (TableCount.set_word pos.lv2 (unmark (c₁.lv2 pos.lv2)) { c₁ with pool := pools (i + 1) })
            (DbdGet.lock_again pos (DbdGet.unlock_using pos s)) := by
          rw [DbdGet.lock_again,counts₁.word]
          exact ⟨counts₂.lv2,counts₂.tables,counts₂.block_id⟩
        have entries := counts₂.entry_at lv1 pos.lv1
        change _ = entry (TableCount.entry_at { c₁ with pool := pools (i + 1) } lv1 pos.lv1) at entries
        rw [if_neg fails,entries,entry] at done
        rw [if_pos (by simpa using fails)]
        by_cases empty : TableCount.entry_at { c₁ with pool := pools (i + 1) } lv1 pos.lv1 = 0
        · rw [if_pos empty] at done ⊢
          exact ih (i + 1) counts₂ rfl done
        · rw [if_neg empty] at done ⊢
          obtain ⟨rfl,rfl⟩ := Prod.mk.inj (Option.some.inj done)
          obtain ⟨settled,outside⟩ := counts₂.settle t lv1 pos block_id empty
          rw [come_back_outside outside]
          exact settled

theorem returned_ne (who : Option Nat) : Outcome.returned who ≠ .crashed := by
  intro wrong
  cases wrong

theorem hold_same {fuel who : Nat} {outcome : Outcome} {s' : DbdGet.State} (done : DbdGet.hold supply fuel who s = some (outcome,s')) :
    outcome ≠ .crashed ∧ s'.lv2 = s.lv2 ∧ s'.tables = s.tables ∧ s'.block_id = s.block_id := by
  have given (fuel i : Nat) {s s' : DbdGet.State} {b : Bool} (given : DbdGet.give_buffer supply who fuel i s = some (b,s')) :
      s'.lv2 = s.lv2 ∧ s'.tables = s.tables ∧ s'.block_id = s.block_id := by
    induction fuel generalizing i with
    | zero => cases given
    | succ fuel ih =>
      rw [DbdGet.give_buffer] at given
      split at given
      · cases given
        exact ⟨rfl,rfl,rfl⟩
      · split at given
        · cases given
          exact ⟨rfl,rfl,rfl⟩
        · exact ih (i + 1) given
  rw [DbdGet.hold] at done
  dsimp only at done
  split at done
  · cases done
    exact ⟨returned_ne _,rfl,rfl,rfl⟩
  · obtain ⟨⟨b,s₁⟩,made,same⟩ := Option.map_eq_some_iff.mp done
    cases same
    obtain ⟨lv2,tables,block_id⟩ := given fuel 0 made
    exact ⟨returned_ne _,lv2,tables,block_id⟩

/-- The tables that a call leaves are those that its thread leaves when it searches and comes back from its waits. -/
theorem search_agrees {pools : Nat → List Nat} (served : ∀ i, supply.dbd i = (pools i).head?) (some_dbd : ∀ i, ∀ who ∈ pools i, who ≠ 0)
    (counts : Counts c s) (pool : c.pool = pools 0) (outside : c.pc t = .outside) {address : Nat} (memory : supply.lv1_memory = some address)
    (fuel fuel' block_id : Nat) {outcome : Outcome} {s' : DbdGet.State}
    (done : DbdGet.fss_dbd_get supply fuel fuel' block_id s = some (outcome,s')) :
    outcome ≠ .crashed ∧ Counts (come_back t pools supply.dbd_grab fuel 0 (TableCount.search_mltt t block_id address c)) s' := by
  -- the tables of the position
  obtain ⟨s₁,made,counts₁,pool₁,outside₁⟩ : ∃ s₁, DbdGet.allocate_lv1 (calc_mltt_pos block_id) supply.lv1_memory { s with lock := true } = some s₁ ∧
      Counts (TableCount.allocate_lv1 (calc_mltt_pos block_id) address c) s₁ ∧
      (TableCount.allocate_lv1 (calc_mltt_pos block_id) address c).pool = pools 0 ∧
      (TableCount.allocate_lv1 (calc_mltt_pos block_id) address c).pc t = .outside := by
    have locked : Counts c { s with lock := true } := ⟨counts.lv2,counts.tables,counts.block_id⟩
    rw [DbdGet.allocate_lv1,TableCount.allocate_lv1,locked.word,memory]
    by_cases missing : pointer (c.lv2 (calc_mltt_pos block_id).lv2) = 0
    · rw [if_neg (not_not.mpr missing),if_pos missing]
      refine ⟨_,rfl,?_,pool,outside⟩
      have added : Counts { c with tables := Function.update c.tables address (some fun _ => 0) }
          (DbdGet.add_table address { s with lock := true }) := by
        refine ⟨counts.lv2,?_,counts.block_id⟩
        intro other
        show Function.update s.tables address _ other = (Function.update c.tables address _ other).map _
        by_cases here : other = address
        · rw [here,Function.update_self,Function.update_self]
          rfl
        · rw [Function.update_of_ne here,Function.update_of_ne here]
          exact counts.tables other
      exact added.set_word _ address
    · rw [if_pos missing,if_neg missing]
      exact ⟨_,rfl,locked,pool,outside⟩
  have there : DbdGet.allocate_lv2 supply.lv2_memory { s with lock := true } = some { s with lock := true } := by
    rw [DbdGet.allocate_lv2]
    dsimp only
    rw [counts.lv2]
  rw [DbdGet.fss_dbd_get,DbdGet.search_mltt] at done
  dsimp only at done
  rw [there] at done
  dsimp only at done
  rw [made] at done
  dsimp only at done
  rw [counts₁.entry_at,counts₁.word] at done
  rw [TableCount.search_mltt]
  generalize TableCount.allocate_lv1 (calc_mltt_pos block_id) address c = c₁ at *
  by_cases empty : TableCount.entry_at c₁ (pointer (c₁.lv2 (calc_mltt_pos block_id).lv2)) (calc_mltt_pos block_id).lv1 = 0
  · rw [entry,if_pos empty] at done
    rw [if_pos empty]
    dsimp only at done
    split at done
    · cases done
    · next s₂ filled =>
      cases done
      exact ⟨returned_ne _,fill_agrees served some_dbd _ block_id fuel 0 counts₁ pool₁ filled⟩
    · next who s₂ filled =>
      obtain ⟨returned,lv2,tables,blocks⟩ := hold_same done
      have agrees := fill_agrees served some_dbd _ block_id fuel 0 counts₁ pool₁ filled (t := t)
      exact ⟨returned,lv2.trans agrees.lv2,fun a => (congrFun tables a).trans (agrees.tables a),blocks.trans agrees.block_id⟩
  · rw [entry,if_neg empty] at done
    rw [if_neg empty,come_back_outside outside₁]
    obtain ⟨returned,lv2,tables,blocks⟩ := hold_same done
    exact ⟨returned,lv2.trans counts₁.lv2,fun a => (congrFun tables a).trans (counts₁.tables a),blocks.trans counts₁.block_id⟩

end Counts

end GridOS.MlttViews
