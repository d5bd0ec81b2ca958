import GridOS.TableCount
import Mathlib.Order.Interval.Finset.Nat
import Mathlib.Tactic

/-!
Runs that meet the conditions keep the counters right: a view of an entry of the `lv2` table names its
table, its counter and its mark, and every change of a table is one of the entry and of one of its
pointers together.
-/
namespace GridOS.TableCount
open GridOS.Mltt (fss_mltt_pos calc_mltt_pos MLTT_ENTRY_COUNT calc_mltt_pos_eq)

/-! ### Words -/

/-- The word of a table at `a` with `n` pointers. -/
def word (a n : Nat) (using_it : Bool) : Nat := a + n + if using_it then MLTT_TABLE_USING else 0

section Words
variable {a n : Nat} {u : Bool} (aligned : MLTT_PAGE_SIZE ∣ a) (small : n < MLTT_ENTRY_COUNT)
include aligned small

theorem pointer_word : pointer (word a n u) = a := by
  obtain ⟨q,rfl⟩ := aligned
  unfold MLTT_ENTRY_COUNT at small
  unfold pointer word MLTT_PAGE_SIZE MLTT_TABLE_USING
  cases u with
  | true => simp only [if_true]; omega
  | false => simp only [Bool.false_eq_true,if_false]; omega

theorem counter_word : counter (word a n u) = n := by
  obtain ⟨q,rfl⟩ := aligned
  unfold MLTT_ENTRY_COUNT at small
  unfold counter word MLTT_PAGE_SIZE MLTT_TABLE_USING MLTT_ENTRY_COUNT
  cases u with
  | true => simp only [if_true]; omega
  | false => simp only [Bool.false_eq_true,if_false]; omega

theorem marked_word : marked (word a n u) = u := by
  obtain ⟨q,rfl⟩ := aligned
  unfold MLTT_ENTRY_COUNT at small
  unfold marked word MLTT_PAGE_SIZE MLTT_TABLE_USING
  cases u with
  | true => simp only [if_true,beq_iff_eq]; omega
  | false => simp only [Bool.false_eq_true,if_false,beq_eq_false_iff_ne]; omega

theorem mark_word : mark (word a n u) = word a n true := by
  rw [mark,marked_word aligned small]
  cases u with
  | true => rfl
  | false => simp [word]

theorem unmark_word : unmark (word a n u) = word a n false := by
  rw [unmark,marked_word aligned small]
  cases u with
  | true => simp [word]
  | false => rfl

end Words

theorem word_succ (a n : Nat) (u : Bool) : word a n u + 1 = word a (n + 1) u := by
  unfold word
  omega

theorem word_pred {n : Nat} (a : Nat) (u : Bool) (some_entry : 0 < n) : word a n u - 1 = word a (n - 1) u := by
  unfold word
  omega

/-! ### Entries -/

section Entries
variable {table : Nat → Nat} {j d : Nat}

theorem occupied_zero : occupied (fun _ => 0) = 0 := by simp [occupied]

theorem occupied_fill (inside : j < MLTT_ENTRY_COUNT) (empty : table j = 0) (there : d ≠ 0) :
    occupied (Function.update table j d) = occupied table + 1 := by
  have grown : (Finset.range MLTT_ENTRY_COUNT).filter (fun i => Function.update table j d i ≠ 0) =
      insert j ((Finset.range MLTT_ENTRY_COUNT).filter (fun i => table i ≠ 0)) := by
    ext i
    by_cases same : i = j
    · subst same
      simp [there,inside]
    · simp [same]
  rw [occupied,occupied,grown,Finset.card_insert_of_notMem (by simp [empty])]

theorem occupied_clear (inside : j < MLTT_ENTRY_COUNT) (there : table j ≠ 0) :
    occupied (Function.update table j 0) + 1 = occupied table := by
  have again : Function.update (Function.update table j 0) j (table j) = table := by simp
  rw [← occupied_fill (d := table j) inside (by simp) there,again]

theorem occupied_pos (inside : j < MLTT_ENTRY_COUNT) (there : table j ≠ 0) : 0 < occupied table := by
  have := occupied_clear inside there
  omega

/-- Pointers to different descriptors are as many as these at most. -/
theorem occupied_le (known : ∀ i, table i ≠ 0 → table i ≤ dbd_count)
    (different : ∀ i i', table i ≠ 0 → table i = table i' → i = i') : occupied table ≤ dbd_count := by
  have into : ((Finset.range MLTT_ENTRY_COUNT).filter (fun i => table i ≠ 0)).card ≤ (Finset.Icc 1 dbd_count).card := by
    refine Finset.card_le_card_of_injOn table ?_ ?_
    · intro i member
      have there : table i ≠ 0 := (Finset.mem_filter.mp (Finset.mem_coe.mp member)).2
      have := known i there
      exact Finset.mem_coe.mpr (Finset.mem_Icc.mpr ⟨Nat.pos_of_ne_zero there,this⟩)
    · intro i member i' _ same
      exact different i i' (Finset.mem_filter.mp (Finset.mem_coe.mp member)).2 same
  rwa [Nat.card_Icc] at into

end Entries

/-! ### What is kept -/

section Kept
variable {τ : Type}

/-- The entry of the `lv2` table at `k` has this table, with this counter and mark. -/
structure View (s : State τ) (k a n : Nat) (u : Bool) (table : Nat → Nat) : Prop where
  is_word : s.lv2 k = word a n u
  aligned : MLTT_PAGE_SIZE ∣ a
  some_memory : 0 < a
  there : s.tables a = some table
  count : occupied table = n
  small : n < MLTT_ENTRY_COUNT

/-- The descriptor is the one of the entry, and not free. -/
structure Linked (s : State τ) (k j d : Nat) : Prop where
  known : d ≤ dbd_count
  taken : d ∉ s.pool ++ s.elsewhere
  block : calc_mltt_pos (s.block_id d) = ⟨j,k⟩

structure Sound (s : State τ) : Prop where
  null : s.tables 0 = none
  views : ∀ k, s.lv2 k = 0 ∨ ∃ a n u table, View s k a n u table
  apart : ∀ k k', s.lv2 k ≠ 0 → pointer (s.lv2 k) = pointer (s.lv2 k') → k = k'
  distinct : (s.pool ++ s.elsewhere).Nodup
  known : ∀ d ∈ s.pool ++ s.elsewhere, 0 < d ∧ d ≤ dbd_count
  linked : ∀ k a n u table, View s k a n u table → ∀ j, table j ≠ 0 → Linked s k j (table j)
  used : ∀ t lv1 pos block_id, s.pc t = .waiting lv1 pos block_id →
    pos = calc_mltt_pos block_id ∧ pointer (s.lv2 pos.lv2) = lv1 ∧ lv1 ≠ 0
  fresh : ∀ t, s.stale t = false

/-- An empty table is one that a thread waits for, but for the tables of the `other` entries. -/
def Freed (s : State τ) (other : Nat → Prop) : Prop :=
  ∀ k, ¬other k → pointer (s.lv2 k) ≠ 0 → counter (s.lv2 k) = 0 → ∃ t, Waits s t k

variable {s s' : State τ} {k a n : Nat} {u : Bool} {table : Nat → Nat}

theorem View.pointer (view : View s k a n u table) : pointer (s.lv2 k) = a := by
  rw [view.is_word,pointer_word view.aligned view.small]

theorem View.counter (view : View s k a n u table) : counter (s.lv2 k) = n := by
  rw [view.is_word,counter_word view.aligned view.small]

theorem View.ne_zero (view : View s k a n u table) : s.lv2 k ≠ 0 := by
  have := view.some_memory
  rw [view.is_word,word]
  omega

/-- A view sees only the word of its entry and its table. -/
theorem View.congr (view : View s k a n u table) (words : s'.lv2 k = s.lv2 k) (tables : s'.tables a = s.tables a) :
    View s' k a n u table :=
  ⟨words.trans view.is_word,view.aligned,view.some_memory,tables.trans view.there,view.count,view.small⟩

theorem View.address (view : View s k a n u table) {k' lv1 : Nat} (address : TableCount.pointer (s.lv2 k') = lv1) :
    (if k' = k then a else TableCount.pointer (s.lv2 k')) = lv1 := by
  split
  · next same => rw [← address,same,view.pointer]
  · exact address

theorem pointer_zero : pointer 0 = 0 := rfl

theorem Sound.view (sound : Sound s) (there : pointer (s.lv2 k) ≠ 0) :
    ∃ n u table, View s k (pointer (s.lv2 k)) n u table := by
  rcases sound.views k with none | ⟨a,n,u,table,view⟩
  · rw [none] at there
    exact absurd pointer_zero there
  · rw [view.pointer]
    exact ⟨n,u,table,view⟩

theorem View.entry_at (view : View s k a n u table) (j : Nat) : entry_at s a j = table j := by
  rw [TableCount.entry_at,view.there]
  rfl

/-- A change of one table and of its word. -/
theorem sound_change {table' : Nat → Nat} {n' : Nat} {u' : Bool} (sound : Sound s) (aligned : MLTT_PAGE_SIZE ∣ a)
    (some_memory : 0 < a) (owner : ∀ k', k' ≠ k → s.lv2 k' ≠ 0 → pointer (s.lv2 k') ≠ a)
    (words : s'.lv2 = Function.update s.lv2 k (word a n' u'))
    (tables : s'.tables = Function.update s.tables a (some table')) (count : occupied table' = n')
    (distinct : (s'.pool ++ s'.elsewhere).Nodup) (known : ∀ d ∈ s'.pool ++ s'.elsewhere, 0 < d ∧ d ≤ dbd_count)
    (entries : ∀ j, table' j ≠ 0 → Linked s' k j (table' j))
    (others : ∀ k' j d, k' ≠ k → d ≠ 0 → Linked s k' j d → Linked s' k' j d)
    (used : ∀ t lv1 pos block_id, s'.pc t = .waiting lv1 pos block_id →
      pos = calc_mltt_pos block_id ∧ (if pos.lv2 = k then a else pointer (s.lv2 pos.lv2)) = lv1 ∧ lv1 ≠ 0)
    (fresh : s'.stale = s.stale) : Sound s' ∧ View s' k a n' u' table' := by
  have small : n' < MLTT_ENTRY_COUNT := by
    have bound := occupied_le (fun i there => (entries i there).known) (fun i i' there same => ?_)
    · rw [count] at bound
      exact Nat.lt_of_le_of_lt bound (by decide)
    · have here := (entries i there).block
      rw [same,(entries i' (same ▸ there)).block] at here
      exact ((fss_mltt_pos.mk.inj here).1).symm
  have here : s'.lv2 k = word a n' u' := by rw [words,Function.update_self]
  have elsewhere : ∀ k', k' ≠ k → s'.lv2 k' = s.lv2 k' := fun k' other => by rw [words,Function.update_of_ne other]
  have view : View s' k a n' u' table' := ⟨here,aligned,some_memory,by rw [tables,Function.update_self],count,small⟩
  have kept : ∀ k' a' n₁ u₁ table₁, k' ≠ k → (View s' k' a' n₁ u₁ table₁ ↔ View s k' a' n₁ u₁ table₁) := by
    intro k' a' n₁ u₁ table₁ other
    have far : View s k' a' n₁ u₁ table₁ → a' ≠ a := fun view => by
      have := owner k' other view.ne_zero
      rwa [view.pointer] at this
    have far' : View s' k' a' n₁ u₁ table₁ → a' ≠ a := fun view => by
      have ne := view.ne_zero
      have pointer := view.pointer
      rw [elsewhere k' other] at ne pointer
      have := owner k' other ne
      rwa [pointer] at this
    constructor
    · intro view
      exact view.congr (elsewhere k' other).symm (by rw [tables,Function.update_of_ne (far' view)])
    · intro view
      exact view.congr (elsewhere k' other) (by rw [tables,Function.update_of_ne (far view)])
  refine ⟨⟨by rw [tables,Function.update_of_ne (by omega),sound.null],?_,?_,distinct,known,?_,?_,fun t => fresh ▸ sound.fresh t⟩,view⟩
  · intro k'
    by_cases same : k' = k
    · rw [same]
      exact .inr ⟨a,n',u',table',view⟩
    · rw [elsewhere k' same]
      rcases sound.views k' with none | ⟨a',n₁,u₁,table₁,view⟩
      · exact .inl none
      · exact .inr ⟨a',n₁,u₁,table₁,(kept _ _ _ _ _ same).mpr view⟩
  · intro k₁ k₂ first same
    by_cases is_first : k₁ = k
    · by_cases is_second : k₂ = k
      · rw [is_first,is_second]
      · rw [is_first,view.pointer,elsewhere k₂ is_second] at same
        by_cases none : s.lv2 k₂ = 0
        · rw [none,pointer_zero] at same
          omega
        · exact absurd same.symm (owner k₂ is_second none)
    · rw [elsewhere k₁ is_first] at first same
      by_cases is_second : k₂ = k
      · rw [is_second,view.pointer] at same
        exact absurd same (owner k₁ is_first first)
      · rw [elsewhere k₂ is_second] at same
        exact sound.apart k₁ k₂ first same
  · intro k' a' n₁ u₁ table₁ other j there
    by_cases same : k' = k
    · subst same
      have address : a' = a := other.pointer.symm.trans view.pointer
      have equal := other.there
      rw [address,view.there,Option.some.injEq] at equal
      rw [← equal] at there ⊢
      exact entries j there
    · exact others k' j _ same there (sound.linked k' a' n₁ u₁ table₁ ((kept _ _ _ _ _ same).mp other) j there)
  · intro t lv1 pos block_id waiting
    obtain ⟨position,address,rest⟩ := used t lv1 pos block_id waiting
    refine ⟨position,?_,rest⟩
    by_cases same : pos.lv2 = k
    · rw [if_pos same] at address
      rw [same,view.pointer,address]
    · rw [if_neg same] at address
      rw [elsewhere _ same,address]

/-- No other entry has the table of a view. -/
theorem View.owner (view : View s k a n u table) (sound : Sound s) :
    ∀ k', k' ≠ k → s.lv2 k' ≠ 0 → TableCount.pointer (s.lv2 k') ≠ a := by
  intro k' other there same
  exact other (sound.apart k' k there (same.trans view.pointer.symm))

/-- The descriptors that are not in the tables are only put in another order. -/
theorem sound_pool {pool elsewhere : List Nat} (sound : Sound s) (order : (pool ++ elsewhere).Perm (s.pool ++ s.elsewhere)) :
    Sound { s with pool, elsewhere } where
  null := sound.null
  views k := by
    rcases sound.views k with none | ⟨a,n,u,table,view⟩
    · exact .inl none
    · exact .inr ⟨a,n,u,table,view.congr rfl rfl⟩
  apart := sound.apart
  distinct := order.nodup_iff.mpr sound.distinct
  known d member := sound.known d (order.mem_iff.mp member)
  linked k a n u table view j there := by
    have linked := sound.linked k a n u table (view.congr rfl rfl) j there
    exact ⟨linked.known,fun member => linked.taken (order.mem_iff.mp member),linked.block⟩
  used := sound.used
  fresh := sound.fresh

/-- The table is freed, and nobody waits for it. -/
theorem sound_free (sound : Sound s) (view : View s k a n u table) (nobody : ∀ t, ¬Waits s t k) :
    Sound (deallocate_lv1 a (set_word k 0 s)) := by
  have elsewhere : ∀ k', k' ≠ k → (deallocate_lv1 a (set_word k 0 s)).lv2 k' = s.lv2 k' :=
    fun k' other => Function.update_of_ne other ..
  have here : (deallocate_lv1 a (set_word k 0 s)).lv2 k = 0 := Function.update_self ..
  have tables : ∀ a', a' ≠ a → (deallocate_lv1 a (set_word k 0 s)).tables a' = s.tables a' :=
    fun a' other => Function.update_of_ne other ..
  have gone : (deallocate_lv1 a (set_word k 0 s)).tables a = none := Function.update_self ..
  have back : ∀ k' a' n₁ u₁ table₁, View (deallocate_lv1 a (set_word k 0 s)) k' a' n₁ u₁ table₁ →
      k' ≠ k ∧ View s k' a' n₁ u₁ table₁ := by
    intro k' a' n₁ u₁ table₁ other
    have differ : k' ≠ k := by
      rintro rfl
      exact other.ne_zero here
    have far : a' ≠ a := by
      rintro rfl
      exact nomatch gone.symm.trans other.there
    exact ⟨differ,other.congr (elsewhere k' differ).symm (tables a' far).symm⟩
  have used : ∀ t lv1 pos block_id, s.pc t = .waiting lv1 pos block_id → pos.lv2 ≠ k ∧ lv1 ≠ a := by
    intro t lv1 pos block_id waiting
    obtain ⟨_,address,there⟩ := sound.used t lv1 pos block_id waiting
    have differ : pos.lv2 ≠ k := fun same => nobody t ⟨lv1,pos,block_id,waiting,same⟩
    have some_word : s.lv2 pos.lv2 ≠ 0 := by
      intro none
      rw [none,pointer_zero] at address
      exact there address.symm
    exact ⟨differ,fun same => view.owner sound pos.lv2 differ some_word (address.trans same)⟩
  constructor
  · rw [tables 0 (Nat.ne_of_lt view.some_memory)]
    exact sound.null
  · intro k'
    by_cases same : k' = k
    · exact .inl (same ▸ here)
    · rw [elsewhere k' same]
      rcases sound.views k' with none | ⟨a',n₁,u₁,table₁,other⟩
      · exact .inl none
      · have far : a' ≠ a := other.pointer ▸ view.owner sound k' same other.ne_zero
        exact .inr ⟨a',n₁,u₁,table₁,other.congr (elsewhere k' same) (tables a' far)⟩
  · intro k₁ k₂ first same
    have is_first : k₁ ≠ k := by
      rintro rfl
      exact first here
    rw [elsewhere k₁ is_first] at first same
    have some_table : TableCount.pointer (s.lv2 k₁) ≠ 0 := by
      rcases sound.views k₁ with none | ⟨a',n₁,u₁,table₁,other⟩
      · exact absurd none first
      · rw [other.pointer]
        exact Nat.ne_of_gt other.some_memory
    have is_second : k₂ ≠ k := by
      rintro rfl
      rw [here,pointer_zero] at same
      exact some_table same
    rw [elsewhere k₂ is_second] at same
    exact sound.apart k₁ k₂ first same
  · exact sound.distinct
  · exact sound.known
  · intro k' a' n₁ u₁ table₁ other j there
    obtain ⟨known,taken,block⟩ := sound.linked k' a' n₁ u₁ table₁ (back _ _ _ _ _ other).2 j there
    exact ⟨known,taken,block⟩
  · intro t lv1 pos block_id waiting
    obtain ⟨position,address,there⟩ := sound.used t lv1 pos block_id waiting
    exact ⟨position,by rw [elsewhere _ (used t lv1 pos block_id waiting).1,address],there⟩
  · intro t
    cases at_pc : s.pc t with
    | outside => simp [deallocate_lv1,set_word,sound.fresh t,at_pc]
    | waiting lv1 pos block_id =>
      have far := (used t lv1 pos block_id at_pc).2
      simp [deallocate_lv1,set_word,sound.fresh t,at_pc,far]

/-- The word of one table changes, and a thread other than those that wait for other tables moves. -/
theorem sound_mark {u' : Bool} (sound : Sound s) (view : View s k a n u table)
    (words : s'.lv2 = Function.update s.lv2 k (word a n u')) (tables : s'.tables = s.tables)
    (pool : s'.pool = s.pool) (elsewhere : s'.elsewhere = s.elsewhere) (blocks : s'.block_id = s.block_id)
    (used : ∀ t lv1 pos block_id, s'.pc t = .waiting lv1 pos block_id →
      pos = calc_mltt_pos block_id ∧ pointer (s.lv2 pos.lv2) = lv1 ∧ lv1 ≠ 0)
    (fresh : s'.stale = s.stale) : Sound s' ∧ View s' k a n u' table := by
  have linked : ∀ k j d, Linked s k j d → Linked s' k j d := by
    intro k j d linked
    exact ⟨linked.known,by rw [pool,elsewhere]; exact linked.taken,by rw [blocks]; exact linked.block⟩
  apply sound_change sound view.aligned view.some_memory (view.owner sound) words
  · rw [tables,← view.there,Function.update_eq_self]
  · exact view.count
  · rw [pool,elsewhere]
    exact sound.distinct
  · rw [pool,elsewhere]
    exact sound.known
  · intro j there
    exact linked _ _ _ (sound.linked _ _ _ _ _ view j there)
  · intro k' j d _ _ other
    exact linked _ _ _ other
  · intro t lv1 pos block_id waiting
    obtain ⟨position,address,there⟩ := used t lv1 pos block_id waiting
    exact ⟨position,view.address address,there⟩
  · exact fresh

/-- One word changes, and the threads that wait for other tables still do. -/
theorem freed_change (freed : Freed s (· = k)) (words : ∀ k', k' ≠ k → s'.lv2 k' = s.lv2 k')
    (waits : ∀ t k', k' ≠ k → Waits s t k' → Waits s' t k')
    (here : pointer (s'.lv2 k) ≠ 0 → counter (s'.lv2 k) = 0 → ∃ t, Waits s' t k) : Freed s' (fun _ => False) := by
  intro k' _ there empty
  by_cases same : k' = k
  · rw [same] at there empty ⊢
    exact here there empty
  · rw [words k' same] at there empty
    obtain ⟨t,waiting⟩ := freed k' same there empty
    exact ⟨t,waits t k' same waiting⟩

end Kept

/-! ### Steps -/

section Steps
variable {τ : Type} [DecidableEq τ] {s : State τ} {t : τ} {a n : Nat} {u : Bool} {table : Nat → Nat} {block_id : Nat}

/-- The thread is the one that is moved, or it stays where it is. -/
theorem moved {s' : State τ} {t' : τ} {pc at_pc : Pc} (pcs : s'.pc = Function.update s.pc t pc)
    (now : s'.pc t' = at_pc) : pc = at_pc ∨ s.pc t' = at_pc := by
  rw [pcs] at now
  by_cases same : t' = t
  · subst same
    rw [Function.update_self] at now
    exact .inl now
  · rw [Function.update_of_ne same] at now
    exact .inr now

/-- The threads that wait for other tables than the one of `t` do not move. -/
theorem waits_move {t' : τ} {k k' : Nat} {pc : Pc} {s' : State τ} (mine : ∀ k', Waits s t k' → k' = k)
    (pcs : s'.pc = Function.update s.pc t pc) (other : k' ≠ k) (waiting : Waits s t' k') : Waits s' t' k' := by
  have differ : t' ≠ t := by
    rintro rfl
    exact other (mine k' waiting)
  obtain ⟨lv1,pos,block_id,at_pc,position⟩ := waiting
  exact ⟨lv1,pos,block_id,by rw [pcs,Function.update_of_ne differ,at_pc],position⟩

theorem pos_inside (block_id : Nat) : (calc_mltt_pos block_id).lv1 < MLTT_ENTRY_COUNT := by
  rw [calc_mltt_pos_eq]
  exact Nat.mod_lt _ (by decide)

/-- The free descriptor goes into the empty entry. -/
theorem settle_sound {dbd : Nat} {pool : List Nat} (sound : Sound s) (view : View s (calc_mltt_pos block_id).lv2 a n u table)
    (freed : Freed s (· = (calc_mltt_pos block_id).lv2)) (mine : ∀ k', Waits s t k' → k' = (calc_mltt_pos block_id).lv2)
    (free : s.pool = dbd :: pool) (empty : table (calc_mltt_pos block_id).lv1 = 0) :
    Sound (settle t a (calc_mltt_pos block_id) block_id dbd { s with pool }) ∧
      Freed (settle t a (calc_mltt_pos block_id) block_id dbd { s with pool }) (fun _ => False) := by
  have distinct := sound.distinct
  rw [free,List.cons_append,List.nodup_cons] at distinct
  obtain ⟨loose,rest⟩ := distinct
  have known : ∀ d ∈ dbd :: (pool ++ s.elsewhere), 0 < d ∧ d ≤ dbd_count := by
    intro d member
    exact sound.known d (by rw [free]; exact member)
  obtain ⟨there,small⟩ := known dbd List.mem_cons_self
  generalize made : settle t a (calc_mltt_pos block_id) block_id dbd { s with pool } = s'
  have words : s'.lv2 = Function.update s.lv2 (calc_mltt_pos block_id).lv2 (word a (n + 1) u) := by
    rw [← made,← word_succ,← view.is_word]
    rfl
  have pcs : s'.pc = Function.update s.pc t .outside := by
    rw [← made]
    rfl
  have blocks : s'.block_id = Function.update s.block_id dbd block_id := by
    rw [← made]
    rfl
  have left : s'.pool ++ s'.elsewhere = pool ++ s.elsewhere := by
    rw [← made]
    rfl
  have others : ∀ k j d, d ≠ dbd → Linked s k j d → Linked s' k j d := by
    intro k j d differ linked
    refine ⟨linked.known,?_,by rw [blocks,Function.update_of_ne differ]; exact linked.block⟩
    rw [left]
    intro member
    exact linked.taken (by rw [free]; exact List.mem_cons_of_mem _ member)
  have not_dbd : ∀ k j d, Linked s k j d → d ≠ dbd := by
    rintro k j d linked rfl
    exact linked.taken (by rw [free]; exact List.mem_cons_self)
  have grown : occupied (Function.update table (calc_mltt_pos block_id).lv1 dbd) = n + 1 := by
    rw [occupied_fill (pos_inside block_id) empty (Nat.ne_of_gt there),view.count]
  have change : Sound s' ∧ View s' (calc_mltt_pos block_id).lv2 a (n + 1) u
      (Function.update table (calc_mltt_pos block_id).lv1 dbd) := by
    apply sound_change sound view.aligned view.some_memory (view.owner sound) words
    · rw [← made,settle,move,set_word,set_entry]
      dsimp only
      rw [view.there]
      rfl
    · exact grown
    · rw [left]
      exact rest
    · rw [left]
      exact fun d member => known d (List.mem_cons_of_mem _ member)
    · intro j some_entry
      by_cases same : j = (calc_mltt_pos block_id).lv1
      · rw [same,Function.update_self]
        refine ⟨small,by rw [left]; exact loose,?_⟩
        rw [blocks,Function.update_self]
      · rw [Function.update_of_ne same] at some_entry ⊢
        have linked := sound.linked _ _ _ _ _ view j some_entry
        exact others _ _ _ (not_dbd _ _ _ linked) linked
    · intro k' j d _ _ linked
      exact others _ _ _ (not_dbd _ _ _ linked) linked
    · intro t' lv1 pos block' waiting
      have stays : s.pc t' = .waiting lv1 pos block' := (moved pcs waiting).resolve_left (fun outside => nomatch outside)
      obtain ⟨position,address,some_table⟩ := sound.used t' lv1 pos block' stays
      exact ⟨position,view.address address,some_table⟩
    · rw [← made]
      rfl
  refine ⟨change.1,freed_change freed ?_ ?_ ?_⟩
  · intro k' other
    rw [words,Function.update_of_ne other]
  · intro t' k' other waiting
    exact waits_move mine pcs other waiting
  · intro _ none_left
    rw [change.2.counter] at none_left
    exact absurd none_left (Nat.succ_ne_zero n)

/-- The thread waits, and the table is marked. -/
theorem wait_sound (sound : Sound s) (view : View s (calc_mltt_pos block_id).lv2 a n u table)
    (freed : Freed s (· = (calc_mltt_pos block_id).lv2)) (mine : ∀ k', Waits s t k' → k' = (calc_mltt_pos block_id).lv2) :
    Sound (move t (.waiting a (calc_mltt_pos block_id) block_id)
        (set_word (calc_mltt_pos block_id).lv2 (mark (s.lv2 (calc_mltt_pos block_id).lv2)) s)) ∧
      Freed (move t (.waiting a (calc_mltt_pos block_id) block_id)
        (set_word (calc_mltt_pos block_id).lv2 (mark (s.lv2 (calc_mltt_pos block_id).lv2)) s)) (fun _ => False) := by
  rw [view.is_word,mark_word view.aligned view.small]
  generalize made : move t (.waiting a (calc_mltt_pos block_id) block_id)
    (set_word (calc_mltt_pos block_id).lv2 (word a n true) s) = s'
  have words : s'.lv2 = Function.update s.lv2 (calc_mltt_pos block_id).lv2 (word a n true) := by
    rw [← made]
    rfl
  have pcs : s'.pc = Function.update s.pc t (.waiting a (calc_mltt_pos block_id) block_id) := by
    rw [← made]
    rfl
  constructor
  · refine (sound_mark sound view words (made ▸ rfl) (made ▸ rfl) (made ▸ rfl) (made ▸ rfl) ?_ (made ▸ rfl)).1
    intro t' lv1 pos block' waiting
    rcases moved pcs waiting with mine | stays
    · obtain ⟨rfl,rfl,rfl⟩ := Pc.waiting.inj mine
      exact ⟨rfl,view.pointer,Nat.ne_of_gt view.some_memory⟩
    · exact sound.used t' lv1 pos block' stays
  · apply freed_change freed
    · intro k' other
      rw [words,Function.update_of_ne other]
    · intro t' k' other waiting
      exact waits_move mine pcs other waiting
    · intro _ _
      exact ⟨t,a,calc_mltt_pos block_id,block_id,by rw [pcs,Function.update_self],rfl⟩

theorem fill_sound (sound : Sound s) (view : View s (calc_mltt_pos block_id).lv2 a n u table)
    (freed : Freed s (· = (calc_mltt_pos block_id).lv2)) (mine : ∀ k', Waits s t k' → k' = (calc_mltt_pos block_id).lv2)
    (empty : table (calc_mltt_pos block_id).lv1 = 0) :
    Sound (fill t a (calc_mltt_pos block_id) block_id s) ∧
      Freed (fill t a (calc_mltt_pos block_id) block_id s) (fun _ => False) := by
  rw [fill]
  split
  · next free => exact settle_sound sound view freed mine free empty
  · exact wait_sound sound view freed mine

omit [DecidableEq τ] in
/-- The table that a thread came for is there, and it is the only one that may be empty. -/
theorem allocate_sound {address : Nat} (pos : fss_mltt_pos) (sound : Sound s) (freed : Freed s (fun _ => False))
    (aligned : MLTT_PAGE_SIZE ∣ address) (some_memory : 0 < address) (free : s.tables address = none) :
    Sound (allocate_lv1 pos address s) ∧ Freed (allocate_lv1 pos address s) (· = pos.lv2) ∧
      pointer ((allocate_lv1 pos address s).lv2 pos.lv2) ≠ 0 := by
  rw [allocate_lv1]
  split
  case isFalse there => exact ⟨sound,fun k _ => freed k id,there⟩
  case isTrue missing =>
    have change : Sound (set_word pos.lv2 address { s with tables := Function.update s.tables address (some fun _ => 0) }) ∧
        View (set_word pos.lv2 address { s with tables := Function.update s.tables address (some fun _ => 0) }) pos.lv2
          address 0 false (fun _ => 0) := by
      apply sound_change sound aligned some_memory
      · intro k' _ there same
        rcases sound.views k' with none | ⟨a,n,u,table,view⟩
        · exact there none
        · rw [view.pointer] at same
          rw [← same,view.there] at free
          exact nomatch free
      · rfl
      · rfl
      · exact occupied_zero
      · exact sound.distinct
      · exact sound.known
      · intro j there
        exact absurd rfl there
      · intro k' j d _ _ linked
        exact ⟨linked.known,linked.taken,linked.block⟩
      · intro t lv1 pos' block' waiting
        obtain ⟨position,there,some_table⟩ := sound.used t lv1 pos' block' waiting
        refine ⟨position,?_,some_table⟩
        split
        · next same =>
          rw [same,missing] at there
          exact absurd there.symm some_table
        · exact there
      · rfl
    refine ⟨change.1,?_,?_⟩
    · intro k other there empty
      have kept : Function.update s.lv2 pos.lv2 address k = s.lv2 k := Function.update_of_ne other ..
      exact freed k id (by rwa [← kept]) (by rwa [← kept])
    · rw [change.2.pointer]
      exact Nat.ne_of_gt some_memory

theorem search_mltt_sound {address : Nat} (sound : Sound s) (freed : Freed s (fun _ => False)) (outside : s.pc t = .outside)
    (aligned : MLTT_PAGE_SIZE ∣ address) (some_memory : 0 < address) (free : s.tables address = none) :
    Sound (search_mltt t block_id address s) ∧ Freed (search_mltt t block_id address s) (fun _ => False) := by
  obtain ⟨sound',freed',there⟩ := allocate_sound (calc_mltt_pos block_id) sound freed aligned some_memory free
  have still : (allocate_lv1 (calc_mltt_pos block_id) address s).pc = s.pc := by
    rw [allocate_lv1]
    split <;> rfl
  rw [search_mltt]
  generalize allocate_lv1 (calc_mltt_pos block_id) address s = s' at sound' freed' there still ⊢
  obtain ⟨n,u,table,view⟩ := sound'.view there
  have mine : ∀ k', Waits s' t k' → k' = (calc_mltt_pos block_id).lv2 := by
    rintro k' ⟨lv1,pos,block',waiting,_⟩
    rw [still,outside] at waiting
    exact nomatch waiting
  rw [view.entry_at]
  split
  case isTrue empty => exact fill_sound sound' view freed' mine empty
  case isFalse found =>
    refine ⟨sound',?_⟩
    have some_entry : 0 < n := by
      have := occupied_pos (pos_inside block_id) found
      rwa [view.count] at this
    apply freed_change freed' (fun _ _ => rfl) (fun _ _ _ waiting => waiting)
    intro _ none_left
    rw [view.counter] at none_left
    omega

theorem grabbed_sound {ok : Bool} (sound : Sound s) (freed : Freed s (fun _ => False)) (condition : Alone s t ok) :
    Sound (grabbed t ok s) ∧ Freed (grabbed t ok s) (fun _ => False) := by
  rw [grabbed]
  split
  case h_1 => exact ⟨sound,freed⟩
  case h_2 lv1 pos block_id waiting =>
    have mine : ∀ k', Waits s t k' → k' = pos.lv2 := by
      rintro k' ⟨lv1',pos',block',again,position⟩
      obtain ⟨_,rfl,_⟩ := Pc.waiting.inj (waiting.symm.trans again)
      exact position.symm
    have condition := condition lv1 pos block_id waiting
    obtain ⟨rfl,address,some_table⟩ := sound.used t lv1 pos block_id waiting
    rw [← address] at some_table
    obtain ⟨n,u,table,view⟩ := sound.view some_table
    rw [address] at view
    cases ok with
    | true =>
      have empty : entry_at s lv1 (calc_mltt_pos block_id).lv1 = 0 := condition
      rw [if_pos rfl]
      dsimp only
      rw [if_pos empty]
      rw [view.entry_at] at empty
      rw [view.is_word,unmark_word view.aligned view.small]
      obtain ⟨sound',view'⟩ : Sound (set_word (calc_mltt_pos block_id).lv2 (word lv1 n false) s) ∧
          View (set_word (calc_mltt_pos block_id).lv2 (word lv1 n false) s) (calc_mltt_pos block_id).lv2 lv1 n false table :=
        sound_mark sound view rfl rfl rfl rfl rfl sound.used rfl
      apply fill_sound sound' view' ?_ mine empty
      intro k' other there none_left
      have kept : (set_word (calc_mltt_pos block_id).lv2 (word lv1 n false) s).lv2 k' = s.lv2 k' := Function.update_of_ne other ..
      rw [kept] at there none_left
      exact freed k' id there none_left
    | false =>
      have left_over : counter (s.lv2 (calc_mltt_pos block_id).lv2) ≠ 0 ∨
          ∃ other, other ≠ t ∧ Waits s other (calc_mltt_pos block_id).lv2 := condition
      rw [if_neg (by decide)]
      constructor
      · have change : Sound (move t .outside s) ∧ View (move t .outside s) (calc_mltt_pos block_id).lv2 lv1 n u table := by
          apply sound_mark sound view
          · rw [← view.is_word,Function.update_eq_self]
            rfl
          · rfl
          · rfl
          · rfl
          · rfl
          · intro t' lv1' pos' block' later
            have stays := (moved rfl later).resolve_left (fun outside => nomatch outside)
            exact sound.used t' lv1' pos' block' stays
          · rfl
        exact change.1
      · have rest : Freed s (· = (calc_mltt_pos block_id).lv2) := fun k _ => freed k id
        apply freed_change rest
        · intro k' _
          rfl
        · intro t' k' other later
          exact waits_move mine rfl other later
        · intro _ none_left
          obtain ⟨t',differ,lv1',pos',block',later,position⟩ := left_over.resolve_left (fun some_entry => some_entry none_left)
          exact ⟨t',lv1',pos',block',(Function.update_of_ne differ ..).trans later,position⟩

omit [DecidableEq τ] in
/-- The entry of a descriptor is cleared, and the descriptor is free. -/
theorem clear_entry_sound {j k : Nat} (sound : Sound s) (view : View s k a n u table) (inside : j < MLTT_ENTRY_COUNT)
    (there : table j ≠ 0) {s' : State τ}
    (made : set_word k ((set_entry a j 0 s).lv2 k - 1) { set_entry a j 0 s with elsewhere := table j :: s.elsewhere } = s') :
    0 < n ∧ s'.lv2 = Function.update s.lv2 k (word a (n - 1) u) ∧ Sound s' ∧
      View s' k a (n - 1) u (Function.update table j 0) := by
  have entry := sound.linked _ _ _ _ _ view j there
  have one_less := occupied_clear inside there
  rw [view.count] at one_less
  have only : ∀ k' j' d, (k' ≠ k ∨ j' ≠ j) → Linked s k' j' d → d ≠ table j := by
    rintro k' j' d differ other rfl
    have same := other.block.symm.trans entry.block
    obtain ⟨same_j,same_k⟩ := fss_mltt_pos.mk.inj same
    exact differ.elim (fun h => h same_k) (fun h => h same_j)
  have words : s'.lv2 = Function.update s.lv2 k (word a (n - 1) u) := by
    rw [← made,← word_pred a u (by omega),← view.is_word]
    rfl
  have left : s'.pool ++ s'.elsewhere = s.pool ++ table j :: s.elsewhere := by
    rw [← made]
    rfl
  have order : (s.pool ++ table j :: s.elsewhere).Perm (table j :: (s.pool ++ s.elsewhere)) := List.perm_middle
  have others : ∀ k' j' d, (k' ≠ k ∨ j' ≠ j) → Linked s k' j' d → Linked s' k' j' d := by
    intro k' j' d differ other
    refine ⟨other.known,?_,by rw [← made]; exact other.block⟩
    rw [left,order.mem_iff]
    exact List.not_mem_cons_of_ne_of_not_mem (only k' j' d differ other) other.taken
  refine ⟨by omega,words,?_⟩
  apply sound_change sound view.aligned view.some_memory (view.owner sound) words
  · rw [← made,set_word,set_entry]
    dsimp only
    rw [view.there]
    rfl
  · omega
  · rw [left,order.nodup_iff,List.nodup_cons]
    exact ⟨entry.taken,sound.distinct⟩
  · rw [left]
    intro d member
    rcases List.mem_cons.mp (order.mem_iff.mp member) with rfl | member
    · exact ⟨Nat.pos_of_ne_zero there,entry.known⟩
    · exact sound.known d member
  · intro j' some_entry
    by_cases same : j' = j
    · rw [same,Function.update_self] at some_entry
      exact absurd rfl some_entry
    · rw [Function.update_of_ne same] at some_entry ⊢
      exact others _ _ _ (.inr same) (sound.linked _ _ _ _ _ view j' some_entry)
  · intro k' j' d other _ linked
    exact others _ _ _ (.inl other) linked
  · intro t lv1 pos block' waiting
    rw [← made] at waiting
    obtain ⟨position,address,some_table⟩ := sound.used t lv1 pos block' waiting
    exact ⟨position,view.address address,some_table⟩
  · rw [← made]
    rfl

omit [DecidableEq τ] in
theorem clean_sound {dbd : Nat} (sound : Sound s) (freed : Freed s (fun _ => False)) (there : dbd ≠ 0)
    (linked : entry_at s (pointer (s.lv2 (calc_mltt_pos (s.block_id dbd)).lv2)) (calc_mltt_pos (s.block_id dbd)).lv1 = dbd)
    (condition : Guarded s dbd) : Sound (fss_mltt_entry_clean_nolock dbd s) ∧
      Freed (fss_mltt_entry_clean_nolock dbd s) (fun _ => False) := by
  rw [fss_mltt_entry_clean_nolock]
  rw [Guarded] at condition
  have inside := pos_inside (s.block_id dbd)
  generalize calc_mltt_pos (s.block_id dbd) = pos at linked condition inside
  obtain ⟨j,k⟩ := pos
  dsimp only at linked condition inside ⊢
  have some_table : pointer (s.lv2 k) ≠ 0 := by
    intro none
    rw [none,entry_at,sound.null] at linked
    exact there linked.symm
  obtain ⟨n,u,table,view⟩ := sound.view some_table
  generalize pointer (s.lv2 k) = a at view linked some_table ⊢
  rw [view.entry_at] at linked
  subst linked
  generalize made : set_word k ((set_entry a j 0 s).lv2 k - 1) { set_entry a j 0 s with elsewhere := table j :: s.elsewhere } = s'
  obtain ⟨some_entry,words,sound',view'⟩ := clear_entry_sound sound view inside there made
  have rest : Freed s (· = k) := fun k' _ => freed k' id
  have same_waits : ∀ t k', Waits s' t k' ↔ Waits s t k' := by
    intro t k'
    rw [← made]
    rfl
  rw [view.counter,view.is_word,marked_word view.aligned view.small] at condition
  rw [view'.counter,view'.is_word,marked_word view'.aligned view'.small]
  split
  case isTrue last =>
    have nobody : ∀ t, ¬Waits s' t k := by
      intro t waiting
      have := (condition (by omega)).mpr ⟨t,(same_waits t k).mp waiting⟩
      rw [last.2] at this
      exact nomatch this
    refine ⟨sound_free sound' view' nobody,freed_change rest ?_ ?_ ?_⟩
    · intro k' other
      exact (Function.update_of_ne other ..).trans (by rw [words,Function.update_of_ne other])
    · intro t k' _ waiting
      exact (same_waits t k').mpr waiting
    · intro some_pointer
      have gone : (deallocate_lv1 a (set_word k 0 s')).lv2 k = 0 := Function.update_self ..
      rw [gone] at some_pointer
      exact absurd pointer_zero some_pointer
  case isFalse more =>
    refine ⟨sound',freed_change rest ?_ ?_ ?_⟩
    · intro k' other
      rw [words,Function.update_of_ne other]
    · intro t k' _ waiting
      exact (same_waits t k').mpr waiting
    · intro _ none_left
      rw [view'.counter] at none_left
      have is_marked : u = true := by
        cases u with
        | true => rfl
        | false => exact absurd ⟨none_left,rfl⟩ more
      obtain ⟨t,waiting⟩ := (condition (by omega)).mp is_marked
      exact ⟨t,(same_waits t k).mpr waiting⟩

omit [DecidableEq τ] in
theorem initial_sound {pool elsewhere : List Nat} (known : (pool ++ elsewhere).Perm (List.range' 1 dbd_count)) :
    Sound (initial pool elsewhere : State τ) where
  null := rfl
  views _ := .inl rfl
  apart _ _ there := absurd rfl there
  distinct := known.nodup_iff.mpr List.nodup_range'
  known d member := by
    have inside := List.mem_range'_1.mp (known.mem_iff.mp member)
    omega
  linked _ _ _ _ _ view := absurd rfl view.ne_zero
  used _ _ _ _ waiting := nomatch waiting
  fresh _ := rfl

end Steps

/-! ### Runs -/

section Runs
variable {τ : Type} [DecidableEq τ] {s : State τ}

theorem run_sound (run : Run Alone Guarded s) : Sound s ∧ Freed s (fun _ => False) := by
  induction run with
  | init known => exact ⟨initial_sound known,fun _ _ there => absurd pointer_zero there⟩
  | search block_id _ outside aligned some_memory free ih =>
    exact search_mltt_sound ih.1 ih.2 outside aligned some_memory free
  | grabbed _ condition ih => exact grabbed_sound ih.1 ih.2 condition
  | clean _ there linked condition ih => exact clean_sound ih.1 ih.2 there linked condition
  | @free s dbd _ loose ih =>
    refine ⟨sound_pool ih.1 ?_,ih.2⟩
    have order : (dbd :: (s.pool ++ s.elsewhere.erase dbd)).Perm (s.pool ++ dbd :: s.elsewhere.erase dbd) :=
      List.perm_middle.symm
    exact order.trans ((List.perm_cons_erase loose).symm.append_left _)
  | @taken s _ ih =>
    refine ⟨sound_pool ih.1 ?_,ih.2⟩
    cases s.pool with
    | nil => exact List.Perm.refl _
    | cons dbd pool => exact List.perm_middle

/-- When every waiter comes back to an empty entry, and the last entry of a table is only cleaned with the mark set
    exactly for the tables that a thread waits for, then the counters are right and tables are freed exactly when they
    are empty and not waited for. -/
theorem tables_counted (run : Run Alone Guarded s) : Counted s := by
  obtain ⟨sound,freed⟩ := run_sound run
  constructor
  · intro k there
    obtain ⟨n,u,table,view⟩ := sound.view there
    exact ⟨table,view.there,by rw [view.counter,view.count]⟩
  · intro k there empty
    exact freed k id there empty
  · intro t lv1 pos block_id waiting
    obtain ⟨_,address,there⟩ := sound.used t lv1 pos block_id waiting
    exact ⟨address,there,sound.fresh t⟩

/-- One thread takes the last descriptor, and the next one waits for another block of the same table. -/
theorem tables_counted_waiter : ∃ s : State Nat, Waits s 1 0 ∧ Counted s := by
  have init : Run Alone Guarded (initial [1] (List.range' 2 31) : State Nat) := .init (.refl _)
  have filled := Run.search (t := 0) 0 init rfl (Nat.dvd_refl MLTT_PAGE_SIZE) (by decide) rfl
  have waiting := Run.search (t := 1) 1 filled (by decide +kernel) (Nat.dvd_mul_left MLTT_PAGE_SIZE 2) (by decide) rfl
  exact ⟨_,⟨MLTT_PAGE_SIZE,⟨1,0⟩,1,by decide +kernel,rfl⟩,tables_counted waiting⟩

/-- Two threads wait for the same block one after the other. The second one fills the entry, and the first one counts
    it again. -/
theorem entry_counted_twice : ¬∀ s : State Nat, Run (fun _ _ _ => True) (fun _ _ => True) s → Counted s := by
  intro all
  have init : Run (fun _ _ _ => True) (fun _ _ => True) (initial [] (List.range' 1 32) : State Nat) := .init (.refl _)
  have waiting := Run.search (t := 0) 0 init rfl (Nat.dvd_refl MLTT_PAGE_SIZE) (by decide) rfl
  have freed := Run.free waiting (show 1 ∈ _ by decide +kernel)
  have filled := Run.search (t := 1) 0 freed (by decide +kernel) (Nat.dvd_mul_left MLTT_PAGE_SIZE 2) (by decide) rfl
  have counted : Counted (grabbed 0 true _) := all _ (.grabbed filled trivial)
  obtain ⟨table,there,count⟩ := counted.counters 0 (by decide +kernel)
  have entries : table = Function.update (Function.update (fun _ => 0) 0 1) 0 1 := Option.some.inj (there.symm.trans rfl)
  rw [entries,Function.update_idem,occupied_fill (by decide) rfl (by decide),occupied_zero] at count
  exact absurd count (by decide +kernel)

end Runs

end GridOS.TableCount
