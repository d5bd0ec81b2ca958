import GridOS.TableCount

/-!
What a lookup in the block cache leaves behind when it fails: `fss_dbd_get` of `source/subsystem/fs/mltt.c` with
the reference counts, the lock of the table and the mark USING. What the allocators and the waits come to is
told from outside; while the call waits the tables of the file stay as they are.
-/
namespace GridOS.DbdGet
open GridOS.Mltt (fss_mltt_pos calc_mltt_pos MLTT_ENTRY_COUNT)
open GridOS.TableCount (MLTT_PAGE_SIZE MLTT_TABLE_USING pointer counter marked mark unmark)

/-- A file's tables, with the lock of its `struct fss_mltt`, and the descriptors by their addresses. -/
structure State where
  lock : Bool
  lv2 : Option (Nat → Nat)
  tables : Nat → Option (Nat → Option Nat)
  refcount : Nat → Nat
  buffer : Nat → Option Nat
  block_id : Nat → Nat
  dbd_lock : Nat → Bool

/-- What the requests of a call come to: the memory for the tables, what each `fss_dbd_malloc` and `fss_db_malloc` gives,
    and whether the `fss_grab_buffer` behind one that gives nothing succeeds. -/
structure Supply where
  lv2_memory : Bool
  lv1_memory : Option Nat
  dbd : Nat → Option Nat
  dbd_grab : Nat → Bool
  db : Nat → Option Nat
  db_grab : Nat → Bool

/-- How a call ends; it crashes when it counts a reference to the null pointer. -/
inductive Outcome
  | crashed
  | returned (who : Option Nat)
  deriving DecidableEq

/-! ### The code -/

/-- The word of the `lv2` table, 0 when there is no table. -/
def word (s : State) (k : Nat) : Nat := (s.lv2.map (fun words => words k)).getD 0

def set_word (k value : Nat) (s : State) : State :=
  { s with lv2 := s.lv2.map (fun words => Function.update words k value) }

def entry_at (s : State) (lv1 k : Nat) : Option Nat := (s.tables lv1).bind (fun table => table k)

def set_entry (lv1 k who : Nat) (s : State) : State :=
  { s with tables := Function.update s.tables lv1 ((s.tables lv1).map (fun table => Function.update table k (some who))) }

/-- The state with an `lv2` table, if there is one or memory for one. -/
def allocate_lv2 (memory : Bool) (s : State) : Option State :=
  match s.lv2 with
  | some _ => some s
  | none => if memory then some { s with lv2 := some (fun _ => 0) } else none

/-- A table without entries at the address. -/
def add_table (address : Nat) (s : State) : State :=
  { s with tables := Function.update s.tables address (some (fun _ => none)) }

/-- The state with an `lv1` table for the position, if there is one or memory for one. -/
def allocate_lv1 (pos : fss_mltt_pos) (memory : Option Nat) (s : State) : Option State :=
  if pointer (word s pos.lv2) ≠ 0 then some s else
  memory.map (fun address => set_word pos.lv2 address (add_table address s))

/-- The descriptor that `fss_dbd_malloc` gives is cleared. -/
def fresh_dbd (who : Nat) (s : State) : State :=
  { s with
    refcount := Function.update s.refcount who 0
    buffer := Function.update s.buffer who none
    block_id := Function.update s.block_id who 0
    dbd_lock := Function.update s.dbd_lock who false }

/-- The table is marked, and the lock is dropped for a wait. -/
def unlock_using (pos : fss_mltt_pos) (s : State) : State :=
  { set_word pos.lv2 (mark (word s pos.lv2)) s with lock := false }

/-- The lock is taken again, and the mark goes. -/
def lock_again (pos : fss_mltt_pos) (s : State) : State :=
  { set_word pos.lv2 (unmark (word s pos.lv2)) s with lock := true }

/-- The loop that allocates a descriptor; `none` when it has not ended within the fuel, and no descriptor when a wait failed. -/
def fill (supply : Supply) (lv1 : Nat) (pos : fss_mltt_pos) : Nat → Nat → State → Option (Option Nat × State)
  | 0, _, _ => none
  | fuel+1, i, s =>
    match supply.dbd i with
    | some who => some (some who,fresh_dbd who s)
    | none =>
      let s := unlock_using pos s
      if supply.dbd_grab i = false then some (none,s) else
      let s := lock_again pos s
      match entry_at s lv1 pos.lv1 with
      | some who => some (some who,s)
      | none => fill supply lv1 pos fuel (i+1) s

/-- The code behind that loop. -/
def settle (lv1 : Nat) (pos : fss_mltt_pos) (block_id who : Nat) (s : State) : State :=
  let s := set_entry lv1 pos.lv1 who s
  let s := set_word pos.lv2 (word s pos.lv2 + 1) s
  { s with block_id := Function.update s.block_id who block_id }

/-- The loop that allocates a buffer, and whether it has. -/
def give_buffer (supply : Supply) (who : Nat) : Nat → Nat → State → Option (Bool × State)
  | 0, _, _ => none
  | fuel+1, i, s =>
    match supply.db i with
    | some buffer => some (true,{ s with buffer := Function.update s.buffer who (some buffer) })
    | none => if supply.db_grab i = false then some (false,s) else give_buffer supply who fuel (i+1) s

/-- The code behind the label `end` for a descriptor that was found. -/
def hold (supply : Supply) (fuel who : Nat) (s : State) : Option (Outcome × State) :=
  let s := { s with refcount := Function.update s.refcount who (s.refcount who + 1), lock := false }
  match s.buffer who with
  | some _ => some (.returned (some who),s)
  | none =>
    (give_buffer supply who fuel 0 { s with dbd_lock := Function.update s.dbd_lock who true }).map (fun given =>
      (.returned (if given.1 then some who else none),
        { given.2 with dbd_lock := Function.update given.2.dbd_lock who false }))

/-- The two bounds are for the loop that allocates a descriptor and for the one that allocates a buffer. -/
def search_mltt (supply : Supply) (fuel fuel' : Nat) (pos : fss_mltt_pos) (block_id : Nat) (s : State) :
    Option (Outcome × State) :=
  let s := { s with lock := true }
  match allocate_lv2 supply.lv2_memory s with
  | none => some (.crashed,s)
  | some s =>
    match allocate_lv1 pos supply.lv1_memory s with
    | none => some (.crashed,s)
    | some s =>
      let lv1 := pointer (word s pos.lv2)
      match entry_at s lv1 pos.lv1 with
      | some who => hold supply fuel' who s
      | none =>
        match fill supply lv1 pos fuel 0 s with
        | none => none
        | some (none,s) => some (.returned none,s)
        | some (some who,s) => hold supply fuel' who (settle lv1 pos block_id who s)

def fss_dbd_get (supply : Supply) (fuel fuel' block_id : Nat) (s : State) : Option (Outcome × State) :=
  search_mltt supply fuel fuel' (calc_mltt_pos block_id) block_id s

/-! ### What is asked of a failure -/

/-- The table of an entry of the `lv2` table. -/
def table (s : State) (k : Nat) : Option (Nat → Option Nat) :=
  if pointer (word s k) = 0 then none else s.tables (pointer (word s k))

/-- A table has the contents and the counter that it had, or is a new one without entries. -/
def Kept (s s' : State) (k : Nat) : Prop :=
  (table s' k = table s k ∧ counter (word s' k) = counter (word s k)) ∨
    (table s k = none ∧ (∃ new, table s' k = some new ∧ ∀ j, new j = none) ∧ counter (word s' k) = 0)

/-- The lock is released, no reference is counted, no table is marked that was not, and the tables are as they were but for
    new ones without entries. -/
structure Clean (s s' : State) : Prop where
  lock : s'.lock = false
  refcount : ∀ who, s'.refcount who = s.refcount who
  marks : ∀ k, marked (word s' k) = true → marked (word s k) = true
  contents : ∀ k, Kept s s' k

/-- A call that does not return a descriptor returns null and is clean. -/
def FailsClean (supply : Supply) (block_id : Nat) (s : State) : Prop :=
  ∀ fuel fuel' outcome s', fss_dbd_get supply fuel fuel' block_id s = some (outcome,s') →
    (∃ who, outcome = .returned (some who)) ∨ (outcome = .returned none ∧ Clean s s')

/-- Every entry of the `lv2` table that points to a table points to memory of a table. -/
def Linked (s : State) : Prop := ∀ k, pointer (word s k) ≠ 0 → s.tables (pointer (word s k)) ≠ none

/-- The memory for a new table is aligned and not a table. -/
def FreeMemory (supply : Supply) (s : State) : Prop :=
  ∀ address, supply.lv1_memory = some address → address ≠ 0 ∧ MLTT_PAGE_SIZE ∣ address ∧ s.tables address = none

/-- There are tables for the position, or memory for them. -/
def HasTables (supply : Supply) (pos : fss_mltt_pos) (s : State) : Prop :=
  (s.lv2 = none → supply.lv2_memory = true) ∧ (pointer (word s pos.lv2) = 0 → supply.lv1_memory ≠ none)

/-- From the `i`-th request on a wait fails before there is anything. -/
inductive Refused (got : Nat → Option Nat) (grab : Nat → Bool) : Nat → Prop
  | here {i : Nat} (nothing : got i = none) (fails : grab i = false) : Refused got grab i
  | later {i : Nat} (nothing : got i = none) (again : grab i = true) (rest : Refused got grab (i+1)) : Refused got grab i

/-- From the `i`-th request on there is something before a wait fails. -/
inductive Served (got : Nat → Option Nat) (grab : Nat → Bool) : Nat → Prop
  | here {i who : Nat} (something : got i = some who) : Served got grab i
  | later {i : Nat} (nothing : got i = none) (again : grab i = true) (rest : Served got grab (i+1)) : Served got grab i

/-- The descriptor in the tables of the file. -/
def found (s : State) (pos : fss_mltt_pos) : Option Nat := (table s pos.lv2).bind (fun entries => entries pos.lv1)

/-- No request of the call fails; but a wait for a descriptor may when the table is marked already. -/
structure Supplied (supply : Supply) (pos : fss_mltt_pos) (s : State) : Prop where
  tables : HasTables supply pos s
  buffered : ∀ who, found s pos = some who → s.buffer who = none → ¬Refused supply.db supply.db_grab 0
  served : found s pos = none → Served supply.dbd supply.dbd_grab 0 → ¬Refused supply.db supply.db_grab 0
  refused : found s pos = none → Refused supply.dbd supply.dbd_grab 0 → marked (word s pos.lv2) = true

/-! ### Words and tables -/

theorem mark_kept (w : Nat) : pointer (mark w) = pointer w ∧ counter (mark w) = counter w ∧ marked (mark w) = true := by
  unfold mark
  by_cases set : marked w = true
  · simp [set]
  · rw [if_neg set]
    unfold marked pointer counter MLTT_PAGE_SIZE MLTT_TABLE_USING MLTT_ENTRY_COUNT at *
    simp only [beq_iff_eq] at *
    omega

theorem unmark_kept (w : Nat) : pointer (unmark w) = pointer w ∧ counter (unmark w) = counter w := by
  unfold unmark
  by_cases set : marked w = true
  · rw [if_pos set]
    unfold marked pointer counter MLTT_PAGE_SIZE MLTT_TABLE_USING MLTT_ENTRY_COUNT at *
    simp only [beq_iff_eq] at *
    omega
  · simp [set]

theorem word_address {address : Nat} (aligned : MLTT_PAGE_SIZE ∣ address) :
    pointer address = address ∧ counter address = 0 ∧ marked address = false := by
  obtain ⟨q,rfl⟩ := aligned
  unfold marked pointer counter MLTT_PAGE_SIZE MLTT_TABLE_USING MLTT_ENTRY_COUNT
  simp only [beq_eq_false_iff_ne]
  omega

section Tables
variable {s : State} {k value : Nat}

theorem word_set_word (there : s.lv2 ≠ none) (k' : Nat) :
    word (set_word k value s) k' = if k' = k then value else word s k' := by
  obtain ⟨words,made⟩ := Option.ne_none_iff_exists'.mp there
  simp [word,set_word,made,Function.update_apply]

theorem set_word_twice (w w' : Nat) : set_word k w' (set_word k w s) = set_word k w' s := by
  cases made : s.lv2 with
  | none => simp [set_word,made]
  | some words => simp [set_word,made]

/-- The state with another word of the `lv2` table, and the lock held or not. -/
def reworded (k w : Nat) (lock : Bool) (s : State) : State := { set_word k w s with lock }

theorem reworded_same (there : s.lv2 ≠ none) : reworded k (word s k) s.lock s = s := by
  obtain ⟨words,made⟩ := Option.ne_none_iff_exists'.mp there
  obtain ⟨lock,lv2,tables,refcount,buffer,block_id,dbd_lock⟩ := s
  obtain rfl : lv2 = some words := made
  simp [reworded,set_word,word]

theorem word_reworded (there : s.lv2 ≠ none) (w : Nat) (lock : Bool) (k' : Nat) :
    word (reworded k w lock s) k' = if k' = k then w else word s k' := word_set_word there k'

theorem unlock_using_reworded {pos : fss_mltt_pos} (there : s.lv2 ≠ none) (w : Nat) (lock : Bool) :
    unlock_using pos (reworded pos.lv2 w lock s) = reworded pos.lv2 (mark w) false s := by
  rw [unlock_using,word_reworded there,if_pos rfl]
  show { set_word pos.lv2 (mark w) (set_word pos.lv2 w s) with lock := false } = _
  rw [set_word_twice]
  rfl

theorem lock_again_reworded {pos : fss_mltt_pos} (there : s.lv2 ≠ none) (w : Nat) (lock : Bool) :
    lock_again pos (reworded pos.lv2 w lock s) = reworded pos.lv2 (unmark w) true s := by
  rw [lock_again,word_reworded there,if_pos rfl]
  show { set_word pos.lv2 (unmark w) (set_word pos.lv2 w s) with lock := true } = _
  rw [set_word_twice]
  rfl

end Tables

/-! ### The loops -/

/-- A word for the same table with the same counter. -/
def SameTable (w w' : Nat) : Prop := pointer w' = pointer w ∧ counter w' = counter w

/-- A supply that refuses does not serve. -/
theorem Refused.not_served {got : Nat → Option Nat} {grab : Nat → Bool} {i : Nat} (refused : Refused got grab i) :
    ¬Served got grab i := by
  induction refused with
  | here nothing fails =>
    intro served
    cases served with
    | here something => cases nothing.symm.trans something
    | later _ again => exact absurd (fails.symm.trans again) Bool.false_ne_true
  | later nothing again rest ih =>
    intro served
    cases served with
    | here something => cases nothing.symm.trans something
    | later _ _ served => exact ih served

section Loops
variable {supply : Supply} {lv1 fuel i : Nat} {pos : fss_mltt_pos} {s s' : State}

/-- The loop for a descriptor ends with a failed wait and the mark, or with a descriptor. -/
theorem fill_outcome (there : s.lv2 ≠ none) (empty : entry_at s lv1 pos.lv1 = none) {w : Nat} {lock : Bool}
    {got : Option Nat} (same : SameTable (word s pos.lv2) w)
    (done : fill supply lv1 pos fuel i (reworded pos.lv2 w lock s) = some (got,s')) :
    (got = none ∧ Refused supply.dbd supply.dbd_grab i ∧
      ∃ w', SameTable (word s pos.lv2) w' ∧ s' = reworded pos.lv2 (mark w') false s) ∨
    (∃ who, got = some who ∧ Served supply.dbd supply.dbd_grab i ∧
      ∃ w' lock', SameTable (word s pos.lv2) w' ∧ s' = fresh_dbd who (reworded pos.lv2 w' lock' s)) := by
  induction fuel generalizing i w lock with
  | zero => cases done
  | succ fuel ih =>
    rw [fill] at done
    cases something : supply.dbd i with
    | some who =>
      rw [something] at done
      obtain ⟨rfl,rfl⟩ := Prod.mk.inj (Option.some.inj done)
      exact .inr ⟨who,rfl,.here something,w,lock,same,rfl⟩
    | none =>
      rw [something] at done
      dsimp only at done
      rw [unlock_using_reworded there] at done
      by_cases fails : supply.dbd_grab i = false
      · rw [if_pos fails] at done
        obtain ⟨rfl,rfl⟩ := Prod.mk.inj (Option.some.inj done)
        exact .inl ⟨rfl,.here something fails,w,same,rfl⟩
      · have still : entry_at (reworded pos.lv2 (unmark (mark w)) true s) lv1 pos.lv1 = none := empty
        rw [if_neg fails,lock_again_reworded there,still] at done
        have again : supply.dbd_grab i = true := Bool.not_eq_false _ ▸ fails
        have kept : SameTable (word s pos.lv2) (unmark (mark w)) :=
          ⟨((unmark_kept _).1.trans (mark_kept w).1).trans same.1,((unmark_kept _).2.trans (mark_kept w).2.1).trans same.2⟩
        refine (ih kept done).imp ?_ ?_
        · rintro ⟨none_,refused,rest⟩
          exact ⟨none_,.later something again refused,rest⟩
        · rintro ⟨who,some_,served,rest⟩
          exact ⟨who,some_,.later something again served,rest⟩

theorem fill_again (nothing : supply.dbd i = none) (again : supply.dbd_grab i = true)
    (later : ∀ s, ∃ fuel r, fill supply lv1 pos fuel (i+1) s = some r) : ∃ fuel r, fill supply lv1 pos fuel i s = some r := by
  obtain ⟨fuel,r,done⟩ := later (lock_again pos (unlock_using pos s))
  refine ⟨fuel+1,?_⟩
  rw [fill,nothing]
  dsimp only
  rw [if_neg (by rw [again]; decide)]
  split
  · exact ⟨_,rfl⟩
  · exact ⟨r,done⟩

theorem fill_refused (lv1 : Nat) (pos : fss_mltt_pos) (refused : Refused supply.dbd supply.dbd_grab i) :
    ∀ s, ∃ fuel r, fill supply lv1 pos fuel i s = some r := by
  induction refused with
  | here nothing fails =>
    intro s
    refine ⟨1,(none,unlock_using pos s),?_⟩
    rw [fill,nothing]
    exact if_pos fails
  | later nothing again rest ih => exact fun s => fill_again nothing again ih

theorem fill_served (lv1 : Nat) (pos : fss_mltt_pos) (served : Served supply.dbd supply.dbd_grab i) :
    ∀ s, ∃ fuel r, fill supply lv1 pos fuel i s = some r := by
  induction served with
  | here something =>
    rename_i i who
    intro s
    refine ⟨1,(some who,fresh_dbd who s),?_⟩
    rw [fill,something]
  | later nothing again rest ih => exact fun s => fill_again nothing again ih

theorem give_buffer_outcome {who : Nat} {given : Bool} (done : give_buffer supply who fuel i s = some (given,s')) :
    (given = true ∧ Served supply.db supply.db_grab i) ∨
    (given = false ∧ Refused supply.db supply.db_grab i ∧ s' = s) := by
  induction fuel generalizing i with
  | zero => cases done
  | succ fuel ih =>
    rw [give_buffer] at done
    cases something : supply.db i with
    | some buffer =>
      rw [something] at done
      obtain ⟨rfl,_⟩ := Prod.mk.inj (Option.some.inj done)
      exact .inl ⟨rfl,.here something⟩
    | none =>
      rw [something] at done
      dsimp only at done
      by_cases fails : supply.db_grab i = false
      · rw [if_pos fails] at done
        obtain ⟨rfl,rfl⟩ := Prod.mk.inj (Option.some.inj done)
        exact .inr ⟨rfl,.here something fails,rfl⟩
      · rw [if_neg fails] at done
        have again : supply.db_grab i = true := Bool.not_eq_false _ ▸ fails
        refine (ih done).imp ?_ ?_
        · exact fun ⟨given,served⟩ => ⟨given,.later something again served⟩
        · exact fun ⟨given,refused,same⟩ => ⟨given,.later something again refused,same⟩

theorem give_buffer_refused (who : Nat) (s : State) (refused : Refused supply.db supply.db_grab i) :
    ∃ fuel, give_buffer supply who fuel i s = some (false,s) := by
  induction refused with
  | here nothing fails =>
    refine ⟨1,?_⟩
    rw [give_buffer,nothing]
    exact if_pos fails
  | later nothing again rest ih =>
    obtain ⟨fuel,done⟩ := ih
    refine ⟨fuel+1,?_⟩
    rw [give_buffer,nothing]
    dsimp only
    rw [if_neg (by rw [again]; decide),done]

end Loops

/-! ### The tables of the position -/

/-- The state behind the allocation of tables. -/
structure Made (pos : fss_mltt_pos) (s s' : State) : Prop where
  there : s'.lv2 ≠ none
  lock : s'.lock = true
  refcount : s'.refcount = s.refcount
  buffer : s'.buffer = s.buffer
  place : ∃ entries, table s' pos.lv2 = some entries
  entry : found s' pos = found s pos
  kept : ∀ k, Kept s s' k
  marks : ∀ k, marked (word s' k) = true → marked (word s k) = true

theorem table_some {s : State} {k : Nat} {entries : Nat → Option Nat} (place : table s k = some entries) :
    pointer (word s k) ≠ 0 ∧ s.tables (pointer (word s k)) = some entries := by
  unfold table at place
  split at place
  · cases place
  · next there => exact ⟨there,place⟩

/-- The entry that the search looks at is the one of the table. -/
theorem entry_found {s : State} {pos : fss_mltt_pos} {entries : Nat → Option Nat} (place : table s pos.lv2 = some entries) :
    entry_at s (pointer (word s pos.lv2)) pos.lv1 = found s pos := by
  rw [entry_at,found,place,(table_some place).2]

section Allocate
variable {supply : Supply} {pos : fss_mltt_pos} {s s₁ : State}

/-- The words are the same with an empty `lv2` table as without one. -/
theorem allocate_lv2_words {memory : Bool} (done : allocate_lv2 memory { s with lock := true } = some s₁) :
    s₁.lv2 ≠ none ∧ s₁.lock = true ∧ s₁.tables = s.tables ∧ s₁.refcount = s.refcount ∧ s₁.buffer = s.buffer ∧
      ∀ k, word s₁ k = word s k := by
  unfold allocate_lv2 at done
  split at done
  · next words there =>
    obtain rfl := Option.some.inj done
    exact ⟨fun none => Option.some_ne_none _ (there.symm.trans none),rfl,rfl,rfl,rfl,fun _ => rfl⟩
  · next missing =>
    split at done
    · obtain rfl := Option.some.inj done
      have missing : s.lv2 = none := missing
      exact ⟨Option.some_ne_none _,rfl,rfl,rfl,rfl,fun k => by simp [word,missing]⟩
    · cases done

theorem table_congr {s s' : State} {k : Nat} (tables : s'.tables = s.tables)
    (same : pointer (word s' k) = pointer (word s k)) : table s' k = table s k := by
  rw [table,table,same,tables]

/-- A new table comes to the entry that had none. -/
theorem table_added {address : Nat} (linked : Linked s) (made : s₁.lv2 ≠ none) (lock : s₁.lock = true)
    (tables : s₁.tables = s.tables) (refcount : s₁.refcount = s.refcount) (buffer : s₁.buffer = s.buffer)
    (words : ∀ k, word s₁ k = word s k) (missing : pointer (word s pos.lv2) = 0) (positive : address ≠ 0)
    (aligned : MLTT_PAGE_SIZE ∣ address) (unused : s.tables address = none) :
    Made pos s (set_word pos.lv2 address (add_table address s₁)) := by
  obtain ⟨at_address,no_entries,unmarked⟩ := word_address aligned
  have here : ∀ k, word (set_word pos.lv2 address (add_table address s₁)) k =
      if k = pos.lv2 then address else word s k := by
    intro k
    rw [word_set_word (s := add_table address s₁) made k,← words k]
    rfl
  have new : table (set_word pos.lv2 address (add_table address s₁)) pos.lv2 = some (fun _ => none) := by
    rw [table,here,if_pos rfl,at_address,if_neg positive]
    exact Function.update_self ..
  have before : table s pos.lv2 = none := if_pos missing
  refine ⟨?_,lock,refcount,buffer,⟨_,new⟩,?_,?_,?_⟩
  · obtain ⟨entries,made⟩ := Option.ne_none_iff_exists'.mp made
    simp [set_word,add_table,made]
  · rw [found,found,new,before]
    rfl
  · intro k
    by_cases at_k : k = pos.lv2
    · subst at_k
      exact .inr ⟨before,⟨_,new,fun _ => rfl⟩,by rw [here,if_pos rfl]; exact no_entries⟩
    · refine .inl ⟨?_,by rw [here,if_neg at_k]⟩
      rw [table,table,here,if_neg at_k]
      split
      · rfl
      · next there =>
        have other : pointer (word s k) ≠ address := fun eq => linked k there (eq ▸ unused)
        exact (Function.update_of_ne other ..).trans (congrFun tables _)
  · intro k set
    rw [here] at set
    by_cases at_k : k = pos.lv2
    · rw [if_pos at_k,unmarked] at set
      cases set
    · rwa [if_neg at_k] at set

theorem tables_made (linked : Linked s) (memory : FreeMemory supply s) (has : HasTables supply pos s) : ∃ s₁ s₂,
    allocate_lv2 supply.lv2_memory { s with lock := true } = some s₁ ∧ allocate_lv1 pos supply.lv1_memory s₁ = some s₂ ∧
      Made pos s s₂ := by
  obtain ⟨s₁,first⟩ : ∃ s₁, allocate_lv2 supply.lv2_memory { s with lock := true } = some s₁ := by
    unfold allocate_lv2
    cases there : s.lv2 with
    | some words => exact ⟨_,rfl⟩
    | none => exact ⟨_,if_pos (has.1 there)⟩
  obtain ⟨made,lock,tables,refcount,buffer,words⟩ := allocate_lv2_words first
  refine ⟨s₁,?_⟩
  unfold allocate_lv1
  by_cases there : pointer (word s₁ pos.lv2) ≠ 0
  · have same : ∀ k, table s₁ k = table s k := fun k => table_congr tables (by rw [words])
    rw [if_pos there]
    refine ⟨s₁,first,rfl,made,lock,refcount,buffer,?_,?_,?_,?_⟩
    · have some_table := linked pos.lv2 (words pos.lv2 ▸ there)
      rw [same,table,if_neg (words pos.lv2 ▸ there)]
      exact Option.ne_none_iff_exists'.mp some_table
    · rw [found,found,same]
    · exact fun k => .inl ⟨same k,by rw [words]⟩
    · exact fun k set => words k ▸ set
  · have missing : pointer (word s pos.lv2) = 0 := words pos.lv2 ▸ not_not.mp there
    obtain ⟨address,given⟩ := Option.ne_none_iff_exists'.mp (has.2 missing)
    obtain ⟨positive,aligned,unused⟩ := memory address given
    rw [if_neg there,given]
    exact ⟨_,first,rfl,table_added linked made lock tables refcount buffer words missing positive aligned unused⟩

end Allocate

/-! ### The call -/

section Call
variable {supply : Supply} {fuel fuel' block_id who : Nat} {pos : fss_mltt_pos} {s s₁ s₂ s' : State} {outcome : Outcome}

theorem hold_outcome (done : hold supply fuel who s = some (outcome,s')) : outcome = .returned (some who) ∨
    (s.buffer who = none ∧ Refused supply.db supply.db_grab 0) := by
  rw [hold] at done
  dsimp only at done
  cases buffer : s.buffer who with
  | some b =>
    rw [buffer] at done
    exact .inl (Prod.mk.inj (Option.some.inj done)).1.symm
  | none =>
    rw [buffer] at done
    obtain ⟨⟨given,after⟩,looped,same⟩ := Option.map_eq_some_iff.mp done
    rcases give_buffer_outcome looped with ⟨rfl,_⟩ | ⟨rfl,refused,_⟩
    · exact .inl (Prod.mk.inj same).1.symm
    · exact .inr ⟨rfl,refused⟩

/-- A call that gets no buffer keeps the reference. -/
theorem hold_refused (who : Nat) (s : State) (bare : s.buffer who = none) (refused : Refused supply.db supply.db_grab 0) : ∃ fuel s',
    hold supply fuel who s = some (.returned none,s') ∧ s'.refcount who = s.refcount who + 1 ∧ s'.lv2 = s.lv2 ∧
      s'.tables = s.tables := by
  obtain ⟨fuel,looped⟩ := give_buffer_refused who { s with
    refcount := Function.update s.refcount who (s.refcount who + 1), lock := false,
    dbd_lock := Function.update s.dbd_lock who true } refused
  refine ⟨fuel,?_⟩
  rw [hold]
  dsimp only
  rw [bare]
  dsimp only
  rw [looped]
  exact ⟨_,rfl,Function.update_self ..,rfl,rfl⟩

theorem search_crashes (fuel fuel' block_id : Nat) (lacking : ¬HasTables supply pos s) :
    ∃ s', search_mltt supply fuel fuel' pos block_id s = some (.crashed,s') := by
  rw [search_mltt]
  dsimp only
  cases first : allocate_lv2 supply.lv2_memory { s with lock := true } with
  | none => exact ⟨_,rfl⟩
  | some s₁ =>
    have words := (allocate_lv2_words first).2.2.2.2.2
    have memory : s.lv2 = none → supply.lv2_memory = true := by
      intro missing
      by_contra lacks
      rw [allocate_lv2,show ({ s with lock := true } : State).lv2 = none from missing] at first
      exact absurd (first.symm.trans (if_neg lacks)) (by simp)
    have lacks : pointer (word s pos.lv2) = 0 ∧ supply.lv1_memory = none := by
      by_contra other
      exact lacking ⟨memory,fun missing none_ => other ⟨missing,none_⟩⟩
    have second : allocate_lv1 pos supply.lv1_memory s₁ = none := by
      rw [allocate_lv1,if_neg (not_not.mpr (words pos.lv2 ▸ lacks.1)),lacks.2]
      rfl
    dsimp only
    rw [second]
    exact ⟨_,rfl⟩

/-- The search behind the allocation of tables. -/
theorem search_made (fuel fuel' block_id : Nat) (first : allocate_lv2 supply.lv2_memory { s with lock := true } = some s₁)
    (second : allocate_lv1 pos supply.lv1_memory s₁ = some s₂) (made : Made pos s s₂) :
    search_mltt supply fuel fuel' pos block_id s = match found s pos with
      | some who => hold supply fuel' who s₂
      | none => match fill supply (pointer (word s₂ pos.lv2)) pos fuel 0 s₂ with
        | none => none
        | some (none,s) => some (.returned none,s)
        | some (some who,s) => hold supply fuel' who (settle (pointer (word s₂ pos.lv2)) pos block_id who s) := by
  obtain ⟨entries,place⟩ := made.place
  rw [search_mltt]
  dsimp only
  rw [first]
  dsimp only
  rw [second]
  dsimp only
  rw [entry_found place,made.entry]

/-- The loop for a descriptor, from the state behind the allocation of tables. -/
theorem made_fill {got : Option Nat} (made : Made pos s s₂) (missing : found s pos = none)
    (done : fill supply (pointer (word s₂ pos.lv2)) pos fuel 0 s₂ = some (got,s')) :
    (got = none ∧ Refused supply.dbd supply.dbd_grab 0 ∧
      ∃ w, SameTable (word s₂ pos.lv2) w ∧ s' = reworded pos.lv2 (mark w) false s₂) ∨
    (∃ who, got = some who ∧ Served supply.dbd supply.dbd_grab 0 ∧
      ∃ w lock, SameTable (word s₂ pos.lv2) w ∧ s' = fresh_dbd who (reworded pos.lv2 w lock s₂)) := by
  obtain ⟨entries,place⟩ := made.place
  have empty : entry_at s₂ (pointer (word s₂ pos.lv2)) pos.lv1 = none := by
    rw [entry_found place,made.entry,missing]
  rw [← reworded_same (k := pos.lv2) made.there] at done
  have still : pointer (word (reworded pos.lv2 (word s₂ pos.lv2) s₂.lock s₂) pos.lv2) = pointer (word s₂ pos.lv2) := by
    rw [reworded_same made.there]
  rw [still] at done
  exact fill_outcome made.there empty ⟨rfl,rfl⟩ done

/-- What a failed wait for a descriptor leaves, when the table was marked before. -/
theorem refused_clean (made : Made pos s s₂) {w : Nat} (same : SameTable (word s₂ pos.lv2) w)
    (marked_ : marked (word s pos.lv2) = true) : Clean s (reworded pos.lv2 (mark w) false s₂) := by
  have words : ∀ k, pointer (word (reworded pos.lv2 (mark w) false s₂) k) = pointer (word s₂ k) ∧
      counter (word (reworded pos.lv2 (mark w) false s₂) k) = counter (word s₂ k) := by
    intro k
    rw [word_reworded made.there]
    split
    · next at_k => rw [at_k,(mark_kept w).1,(mark_kept w).2.1,same.1,same.2]; exact ⟨rfl,rfl⟩
    · exact ⟨rfl,rfl⟩
  refine ⟨rfl,fun who => congrFun made.refcount who,?_,?_⟩
  · intro k set
    rw [word_reworded made.there] at set
    split at set
    · next at_k => rwa [at_k]
    · exact made.marks k set
  · intro k
    have same_table : table (reworded pos.lv2 (mark w) false s₂) k = table s₂ k := table_congr rfl (words k).1
    rw [Kept,same_table,(words k).2]
    exact made.kept k

/-- An entry that was filled counts one pointer more. -/
theorem settle_not_kept (made : Made pos s s₂) {w : Nat} {lock : Bool} (same : SameTable (word s₂ pos.lv2) w)
    (lv2 : s'.lv2 = (settle (pointer (word s₂ pos.lv2)) pos block_id who (fresh_dbd who (reworded pos.lv2 w lock s₂))).lv2)
    (tables : s'.tables = (settle (pointer (word s₂ pos.lv2)) pos block_id who
      (fresh_dbd who (reworded pos.lv2 w lock s₂))).tables) : ¬Kept s s' pos.lv2 := by
  obtain ⟨entries,place⟩ := made.place
  obtain ⟨there,at_lv1⟩ := table_some place
  have counted : word s' pos.lv2 = w + 1 := by
    obtain ⟨words,lv2_there⟩ := Option.ne_none_iff_exists'.mp made.there
    rw [word,lv2]
    simp [settle,set_word,set_entry,fresh_dbd,reworded,word,lv2_there]
  have other : counter (w + 1) ≠ counter w := by
    unfold counter MLTT_ENTRY_COUNT
    omega
  rintro (⟨same_table,same_counter⟩ | ⟨none_,_,no_entries⟩)
  · rcases made.kept pos.lv2 with ⟨before,counter_before⟩ | ⟨before,_,empty⟩
    · rw [counted,← counter_before,← same.2] at same_counter
      exact other same_counter
    · -- the new table is still there
      have stays : pointer (word s' pos.lv2) = pointer (word s₂ pos.lv2) := by
        rw [counted,← same.1]
        have low := same.2.trans empty
        unfold counter MLTT_ENTRY_COUNT at low
        unfold pointer MLTT_PAGE_SIZE
        omega
      rw [before,table,stays,if_neg there,tables] at same_table
      have filled : (settle (pointer (word s₂ pos.lv2)) pos block_id who
          (fresh_dbd who (reworded pos.lv2 w lock s₂))).tables (pointer (word s₂ pos.lv2)) =
          some (Function.update entries pos.lv1 (some who)) := by
        simp [settle,set_word,set_entry,fresh_dbd,reworded,at_lv1]
      rw [filled] at same_table
      cases same_table
  · rcases made.kept pos.lv2 with ⟨before,_⟩ | ⟨_,_,empty⟩
    · rw [place,none_] at before
      cases before
    · rw [counted] at no_entries
      exact other (no_entries.trans (same.2.trans empty).symm)

theorem clean_supplied (linked : Linked s) (memory : FreeMemory supply s) (has : HasTables supply pos s)
    (clean : ∀ fuel fuel' outcome s', search_mltt supply fuel fuel' pos block_id s = some (outcome,s') →
      (∃ who, outcome = .returned (some who)) ∨ (outcome = .returned none ∧ Clean s s')) : Supplied supply pos s := by
  obtain ⟨s₁,s₂,first,second,made⟩ := tables_made linked memory has
  have search := fun fuel fuel' => search_made fuel fuel' block_id first second made
  -- what a call that returns null has left
  have left : ∀ fuel fuel' {s'}, search_mltt supply fuel fuel' pos block_id s = some (.returned none,s') → Clean s s' := by
    intro fuel fuel' s' done
    rcases clean fuel fuel' _ s' done with ⟨who,found⟩ | ⟨_,clean⟩
    · cases found
    · exact clean
  refine ⟨has,?_,?_,?_⟩
  · intro who there bare refused
    obtain ⟨fuel',s',done,counted,_⟩ := hold_refused who s₂ (made.buffer ▸ bare) refused
    have clean := left 0 fuel' (by rw [search,there]; exact done)
    rw [clean.refcount,made.refcount] at counted
    omega
  · intro missing served refused
    obtain ⟨fuel,⟨got,s₃⟩,looped⟩ := fill_served (pointer (word s₂ pos.lv2)) pos served s₂
    rcases made_fill made missing looped with ⟨_,starved,_⟩ | ⟨who,rfl,_,w,lock,same,rfl⟩
    · exact starved.not_served served
    · obtain ⟨fuel',s',done,_,lv2,tables⟩ := hold_refused who
        (settle (pointer (word s₂ pos.lv2)) pos block_id who (fresh_dbd who (reworded pos.lv2 w lock s₂)))
        (Function.update_self ..) refused
      have clean := left fuel fuel' (by rw [search,missing]; dsimp only; rw [looped]; exact done)
      exact settle_not_kept made same lv2 tables (clean.contents pos.lv2)
  · intro missing refused
    obtain ⟨fuel,⟨got,s₃⟩,looped⟩ := fill_refused (pointer (word s₂ pos.lv2)) pos refused s₂
    rcases made_fill made missing looped with ⟨rfl,_,w,same,rfl⟩ | ⟨who,_,served,_⟩
    · have clean := left fuel 0 (by rw [search,missing]; dsimp only; rw [looped])
      refine clean.marks pos.lv2 ?_
      rw [word_reworded made.there,if_pos rfl]
      exact (mark_kept w).2.2
    · exact absurd served refused.not_served

theorem supplied_clean (linked : Linked s) (memory : FreeMemory supply s) (supplied : Supplied supply pos s)
    (done : search_mltt supply fuel fuel' pos block_id s = some (outcome,s')) :
    (∃ who, outcome = .returned (some who)) ∨ (outcome = .returned none ∧ Clean s s') := by
  obtain ⟨s₁,s₂,first,second,made⟩ := tables_made linked memory supplied.tables
  rw [search_made fuel fuel' block_id first second made] at done
  cases there : found s pos with
  | some who =>
    rw [there] at done
    rcases hold_outcome done with returned | ⟨bare,refused⟩
    · exact .inl ⟨who,returned⟩
    · exact absurd refused (supplied.buffered who there (made.buffer ▸ bare))
  | none =>
    rw [there] at done
    dsimp only at done
    cases looped : fill supply (pointer (word s₂ pos.lv2)) pos fuel 0 s₂ with
    | none =>
      rw [looped] at done
      cases done
    | some result =>
      obtain ⟨got,s₃⟩ := result
      rw [looped] at done
      rcases made_fill made there looped with ⟨rfl,refused,w,same,rfl⟩ | ⟨who,rfl,served,_⟩
      · obtain ⟨rfl,rfl⟩ := Prod.mk.inj (Option.some.inj done)
        exact .inr ⟨rfl,refused_clean made same (supplied.refused there refused)⟩
      · rcases hold_outcome done with returned | ⟨_,refused⟩
        · exact .inl ⟨who,returned⟩
        · exact absurd refused (supplied.served there served)

end Call

/-- A lookup that fails is clean exactly when no request of it fails, or a wait for a descriptor does and the table was
    marked already. -/
theorem fails_clean_iff (supply : Supply) (block_id : Nat) (s : State) (linked : Linked s) (memory : FreeMemory supply s) :
    FailsClean supply block_id s ↔ Supplied supply (calc_mltt_pos block_id) s := by
  by_cases has : HasTables supply (calc_mltt_pos block_id) s
  · exact ⟨clean_supplied linked memory has,
      fun supplied fuel fuel' outcome s' done => supplied_clean linked memory supplied done⟩
  · refine iff_of_false ?_ (fun supplied => has supplied.tables)
    intro clean
    obtain ⟨s',done⟩ := search_crashes 0 0 block_id has
    rcases clean 0 0 _ s' done with ⟨who,found⟩ | ⟨found,_⟩ <;> cases found

/-- A file without tables. -/
def no_tables : State :=
  { lock := false, lv2 := none, tables := fun _ => none, refcount := fun _ => 0, buffer := fun _ => none,
    block_id := fun _ => 0, dbd_lock := fun _ => false }

/-- Memory for the tables, a descriptor at 64 and a buffer at 128. -/
def plenty : Supply :=
  { lv2_memory := true, lv1_memory := some 16384, dbd := fun _ => some 64, dbd_grab := fun _ => false,
    db := fun _ => some 128, db_grab := fun _ => false }

theorem no_tables_linked : Linked no_tables := fun _ there => absurd rfl there

theorem plenty_free : FreeMemory plenty no_tables := by
  intro address given
  obtain rfl : 16384 = address := Option.some.inj given
  decide

theorem fails_clean_iff_plenty : FailsClean plenty 5 no_tables := by
  refine (fails_clean_iff plenty 5 no_tables no_tables_linked plenty_free).mpr ⟨?_,?_,?_,?_⟩
  · exact ⟨fun _ => rfl,fun _ => Option.some_ne_none _⟩
  · intro who there
    cases there
  · intro _ _ refused
    exact refused.not_served (.here rfl)
  · intro _ refused
    exact absurd (.here rfl) refused.not_served

/-- Without memory for the `lv2` table the call counts a reference to the null pointer. -/
theorem no_memory_crashes : Linked no_tables ∧ FreeMemory { plenty with lv2_memory := false } no_tables ∧
    ((fss_dbd_get { plenty with lv2_memory := false } 0 0 5 no_tables).map Prod.fst) = some .crashed ∧
    ¬FailsClean { plenty with lv2_memory := false } 5 no_tables := by
  refine ⟨no_tables_linked,plenty_free,rfl,?_⟩
  intro clean
  rcases clean 0 0 _ _ rfl with ⟨who,found⟩ | ⟨found,_⟩ <;> cases found

end GridOS.DbdGet
