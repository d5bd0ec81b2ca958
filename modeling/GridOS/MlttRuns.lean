import GridOS.Mltt
import Mathlib.Data.List.Nodup

/-!
Runs of the block cache. A file's tables have one entry for every block number modulo
2^24: as long as no two block numbers that a run uses on a file share an entry, every
descriptor is that of its block, and reads return what was written.
-/
namespace GridOS.Mltt

section Positions

theorem calc_mltt_pos_eq (block_id : Nat) :
    calc_mltt_pos block_id = { lv1 := block_id % 4096, lv2 := block_id / 4096 % 4096 } := by
  have bits : lv_bits = 12 := by decide
  rw [calc_mltt_pos,bits,show (1 <<< 12 : Nat) - 1 = 2 ^ 12 - 1 by decide,Nat.and_two_pow_sub_one_eq_mod,
    Nat.and_two_pow_sub_one_eq_mod,Nat.shiftRight_eq_div_pow]

/-- Two block numbers share an entry if they agree modulo 2^24. -/
theorem calc_mltt_pos_eq_iff {a b : Nat} : calc_mltt_pos a = calc_mltt_pos b ↔ a % 16777216 = b % 16777216 := by
  rw [calc_mltt_pos_eq,calc_mltt_pos_eq,fss_mltt_pos.mk.injEq]
  omega

end Positions

section Cached
variable {φ β : Type} [DecidableEq φ]

/-! ### Tables -/

/-- A new table has no entries, and nothing else changes. -/
structure SameEntries (cache cache' : Cache φ β) : Prop where
  entries : ∀ file pos, lv1_entry cache' file pos = lv1_entry cache file pos
  dbds : cache'.dbds = cache.dbds
  buffers : cache'.buffers = cache.buffers
  dbd_stack : cache'.dbd_stack = cache.dbd_stack
  db_stack : cache'.db_stack = cache.db_stack

omit [DecidableEq φ] in
theorem SameEntries.trans {cache cache' cache'' : Cache φ β} (first : SameEntries cache cache')
    (second : SameEntries cache' cache'') : SameEntries cache cache'' where
  entries file pos := (second.entries file pos).trans (first.entries file pos)
  dbds := second.dbds.trans first.dbds
  buffers := second.buffers.trans first.buffers
  dbd_stack := second.dbd_stack.trans first.dbd_stack
  db_stack := second.db_stack.trans first.db_stack

theorem allocate_lv2_spec {cache cache' : Cache φ β} {file : φ} {memory : Bool}
    (made : allocate_lv2 cache file memory = some cache') :
    SameEntries cache cache' ∧ (cache'.lv2 file).isSome = true := by
  rw [allocate_lv2] at made
  split at made
  · rename_i lv2 there
    obtain rfl := Option.some.inj made
    refine ⟨⟨fun _ _ => rfl,rfl,rfl,rfl,rfl⟩,?_⟩
    rw [there]
    rfl
  · rename_i missing
    split at made
    · obtain rfl := Option.some.inj made
      refine ⟨⟨?_,rfl,rfl,rfl,rfl⟩,?_⟩
      · intro other pos
        show Option.bind (Function.update cache.lv2 file _ other) _ = Option.bind (cache.lv2 other) _
        by_cases same : other = file
        · rw [same,Function.update_self,missing]
          rfl
        · rw [Function.update_of_ne same]
      · show (Function.update cache.lv2 file _ file).isSome = true
        rw [Function.update_self]
        rfl
    · cases made

theorem allocate_lv1_spec {cache cache' : Cache φ β} {file : φ} {pos : fss_mltt_pos} {memory : Bool}
    (there : (cache.lv2 file).isSome = true) (made : allocate_lv1 cache file pos memory = some cache') :
    SameEntries cache cache' ∧ ∃ lv2 lv1, cache'.lv2 file = some lv2 ∧ lv2 pos.lv2 = some lv1 := by
  obtain ⟨lv2,root⟩ := Option.isSome_iff_exists.1 there
  rw [allocate_lv1,root] at made
  split at made
  · rename_i lv1 found
    obtain rfl := Option.some.inj made
    exact ⟨⟨fun _ _ => rfl,rfl,rfl,rfl,rfl⟩,lv2,lv1,root,found⟩
  · rename_i missing
    change lv2 pos.lv2 = none at missing
    split at made
    · obtain rfl := Option.some.inj made
      refine ⟨⟨?_,rfl,rfl,rfl,rfl⟩,Function.update lv2 pos.lv2 (some (fun _ => none)),fun _ => none,?_,?_⟩
      · intro other where_to
        show Option.bind (Function.update cache.lv2 file _ other) _ = Option.bind (cache.lv2 other) _
        by_cases same : other = file
        · rw [same,Function.update_self,root]
          show Option.bind (Function.update lv2 pos.lv2 _ where_to.lv2) _ = Option.bind (lv2 where_to.lv2) _
          by_cases table : where_to.lv2 = pos.lv2
          · rw [table,Function.update_self,missing]
            rfl
          · rw [Function.update_of_ne table]
        · rw [Function.update_of_ne same]
      · show Function.update cache.lv2 file _ file = _
        rw [Function.update_self]
        rfl
      · rw [Function.update_self]
    · cases made

theorem lv1_entry_set_entry {cache : Cache φ β} {file other : φ} {pos pos' : fss_mltt_pos} {entry : Nat}
    {lv2 : Nat → Option (Nat → Option Nat)} {lv1 : Nat → Option Nat} (root : cache.lv2 file = some lv2)
    (table : lv2 pos.lv2 = some lv1) : lv1_entry (set_entry cache file pos entry) other pos' =
      if other = file ∧ pos' = pos then some entry else lv1_entry cache other pos' := by
  show Option.bind (Function.update cache.lv2 file _ other) _ = _
  by_cases same : other = file
  · rw [same,Function.update_self,root,lv1_entry,root]
    show Option.bind (Function.update lv2 pos.lv2 _ pos'.lv2) _ = if _ then _ else Option.bind (lv2 pos'.lv2) _
    by_cases same2 : pos'.lv2 = pos.lv2
    · rw [same2,Function.update_self,table]
      show Function.update lv1 pos.lv1 _ pos'.lv1 = if _ then _ else lv1 pos'.lv1
      by_cases same1 : pos'.lv1 = pos.lv1
      · have whole : pos' = pos := by
          cases pos
          cases pos'
          simp_all
        rw [same1,Function.update_self,if_pos ⟨rfl,whole⟩]
      · rw [Function.update_of_ne same1,if_neg]
        rintro ⟨_,rfl⟩
        exact same1 rfl
    · rw [Function.update_of_ne same2,if_neg]
      rintro ⟨_,rfl⟩
      exact same2 rfl
  · rw [Function.update_of_ne same,if_neg (fun both => same both.1)]
    rfl

/-! ### The invariant -/

/-- The cache holds `disk`: every entry is a descriptor of the file and of a block number
    `used` on it that belongs there, no buffer serves two descriptors, a valid descriptor has
    the contents of its block, and a block that is not cached is as the driver has it. -/
structure Inv (driver : Driver φ β) (cache : Cache φ β) (disk : φ → Nat → β) (used : φ → Nat → Prop) : Prop where
  owned : ∀ file pos d, lv1_entry cache file pos = some d → (cache.dbds d).who = some file ∧
    calc_mltt_pos (cache.dbds d).block_id = pos ∧ used file (cache.dbds d).block_id ∧ d ∉ cache.dbd_stack
  filled : ∀ file pos d buffer, lv1_entry cache file pos = some d → (cache.dbds d).buffer = some buffer →
    buffer ∉ cache.db_stack
  apart : ∀ file pos d file' pos' d' buffer, lv1_entry cache file pos = some d → lv1_entry cache file' pos' = some d' →
    (cache.dbds d).buffer = some buffer → (cache.dbds d').buffer = some buffer → d = d'
  valid : ∀ file pos d, lv1_entry cache file pos = some d → (cache.dbds d).valid = true →
    ∃ buffer, (cache.dbds d).buffer = some buffer ∧ cache.buffers buffer = disk file (cache.dbds d).block_id
  uncached : ∀ file block, (∀ d, lv1_entry cache file (calc_mltt_pos block) = some d →
    (cache.dbds d).block_id = block → (cache.dbds d).valid = false) → disk file block = (driver.fRead file block).1
  dbds_once : cache.dbd_stack.Nodup
  buffers_once : cache.db_stack.Nodup

variable {driver : Driver φ β} {cache cache' : Cache φ β} {disk : φ → Nat → β} {used : φ → Nat → Prop}

omit [DecidableEq φ] in
theorem Inv.same_entries (inv : Inv driver cache disk used) (same : SameEntries cache cache') :
    Inv driver cache' disk used := by
  obtain ⟨entries,dbds,buffers,dbd_stack,db_stack⟩ := same
  refine ⟨?_,?_,?_,?_,?_,?_,?_⟩
  · intro file pos d at_pos
    rw [entries] at at_pos
    rw [dbds,dbd_stack]
    exact inv.owned file pos d at_pos
  · intro file pos d buffer at_pos
    rw [entries] at at_pos
    rw [dbds,db_stack]
    exact inv.filled file pos d buffer at_pos
  · intro file pos d file' pos' d' buffer at_pos at_pos'
    rw [entries] at at_pos at_pos'
    rw [dbds]
    exact inv.apart file pos d file' pos' d' buffer at_pos at_pos'
  · intro file pos d at_pos
    rw [entries] at at_pos
    rw [dbds,buffers]
    exact inv.valid file pos d at_pos
  · intro file block no_valid
    apply inv.uncached
    intro d at_pos
    rw [← entries] at at_pos
    rw [← dbds]
    exact no_valid d at_pos
  · rw [dbd_stack]
    exact inv.dbds_once
  · rw [db_stack]
    exact inv.buffers_once

omit [DecidableEq φ] in
/-- A descriptor is in one entry only. -/
theorem Inv.entry_unique (inv : Inv driver cache disk used) {file file' : φ} {pos pos' : fss_mltt_pos} {d : Nat}
    (at_pos : lv1_entry cache file pos = some d) (at_pos' : lv1_entry cache file' pos' = some d) :
    file = file' ∧ pos = pos' := by
  obtain ⟨who,place,_⟩ := inv.owned file pos d at_pos
  obtain ⟨who',place',_⟩ := inv.owned file' pos' d at_pos'
  exact ⟨Option.some.inj (who.symm.trans who'),place.symm.trans place'⟩

/-! ### Getting a descriptor -/

/-- What `give_buffer` leaves alone. -/
structure Kept (cache cache' : Cache φ β) : Prop where
  entries : ∀ file pos d, lv1_entry cache file pos = some d → lv1_entry cache' file pos = some d
  dbds : ∀ file pos d, lv1_entry cache file pos = some d →
    (cache'.dbds d).block_id = (cache.dbds d).block_id ∧ (cache'.dbds d).who = (cache.dbds d).who

omit [DecidableEq φ] in
/-- The next descriptor to be taken is not in use. -/
theorem Inv.not_next (inv : Inv driver cache disk used) {file : φ} {pos : fss_mltt_pos} {d who : Nat} {rest : List Nat}
    (at_pos : lv1_entry cache file pos = some d) (stack : cache.dbd_stack = who :: rest) : d ≠ who := by
  rintro rfl
  have free := (inv.owned file pos d at_pos).2.2.2
  rw [stack] at free
  exact free List.mem_cons_self

omit [DecidableEq φ] in
/-- Nor is the next buffer. -/
theorem Inv.buffer_not_next (inv : Inv driver cache disk used) {file : φ} {pos : fss_mltt_pos} {d b buffer : Nat}
    {rest : List Nat} (at_pos : lv1_entry cache file pos = some d) (has : (cache.dbds d).buffer = some b)
    (stack : cache.db_stack = buffer :: rest) : b ≠ buffer ∧ b ∉ rest := by
  have free := inv.filled file pos d b at_pos has
  rw [stack] at free
  exact ⟨fun same => free (same ▸ List.mem_cons_self),fun later => free (List.mem_cons_of_mem _ later)⟩

/-- The cache when `who` has got the next buffer. -/
def buffered (cache : Cache φ β) (who buffer : Nat) (rest : List Nat) : Cache φ β :=
  { cache with
    db_stack := rest
    dbds := Function.update cache.dbds who { cache.dbds who with buffer := some buffer } }

omit [DecidableEq φ] in
theorem buffered_this (cache : Cache φ β) (who buffer : Nat) (rest : List Nat) :
    (buffered cache who buffer rest).dbds who = { cache.dbds who with buffer := some buffer } := Function.update_self _ _ _

omit [DecidableEq φ] in
theorem buffered_other {who d : Nat} (differ : d ≠ who) (cache : Cache φ β) (buffer : Nat) (rest : List Nat) :
    (buffered cache who buffer rest).dbds d = cache.dbds d := Function.update_of_ne differ _ _

omit [DecidableEq φ] in
theorem give_buffer_cases (cache : Cache φ β) (who : Nat) :
    (∃ buffer, (cache.dbds who).buffer = some buffer ∧ give_buffer cache who = (cache,some who)) ∨
    give_buffer cache who = (cache,none) ∨
    ∃ buffer rest, (cache.dbds who).buffer = none ∧ cache.db_stack = buffer :: rest ∧
      give_buffer cache who = (buffered cache who buffer rest,some who) := by
  rw [give_buffer]
  cases has : (cache.dbds who).buffer with
  | some buffer => exact .inl ⟨buffer,rfl,rfl⟩
  | none =>
    rw [fss_db_malloc]
    cases stack : cache.db_stack with
    | nil => exact .inr (.inl rfl)
    | cons buffer rest => exact .inr (.inr ⟨buffer,rest,rfl,rfl,rfl⟩)

omit [DecidableEq φ] in
/-- A descriptor that gets a buffer stays that of its block. -/
theorem buffered_fields (cache : Cache φ β) (who buffer : Nat) (rest : List Nat) (d : Nat) :
    ((buffered cache who buffer rest).dbds d).block_id = (cache.dbds d).block_id ∧
    ((buffered cache who buffer rest).dbds d).who = (cache.dbds d).who ∧
    ((buffered cache who buffer rest).dbds d).valid = (cache.dbds d).valid ∧
    ((buffered cache who buffer rest).dbds d).valid_size = (cache.dbds d).valid_size := by
  by_cases same : d = who
  · rw [same,buffered_this]
    exact ⟨rfl,rfl,rfl,rfl⟩
  · rw [buffered_other same]
    exact ⟨rfl,rfl,rfl,rfl⟩

omit [DecidableEq φ] in
theorem buffered_buffer {who buffer d b : Nat} {rest : List Nat}
    (has : ((buffered cache who buffer rest).dbds d).buffer = some b) :
    d = who ∧ b = buffer ∨ d ≠ who ∧ (cache.dbds d).buffer = some b := by
  by_cases same : d = who
  · rw [same,buffered_this] at has
    exact .inl ⟨same,(Option.some.inj has).symm⟩
  · rw [buffered_other same] at has
    exact .inr ⟨same,has⟩

omit [DecidableEq φ] in
theorem buffered_inv {who buffer : Nat} {rest : List Nat} (inv : Inv driver cache disk used)
    (lacks : (cache.dbds who).buffer = none) (stack : cache.db_stack = buffer :: rest) :
    Inv driver (buffered cache who buffer rest) disk used := by
  have once := inv.buffers_once
  rw [stack,List.nodup_cons] at once
  have fields := buffered_fields cache who buffer rest
  refine ⟨?_,?_,?_,?_,?_,inv.dbds_once,once.2⟩
  · intro file pos d at_pos
    rw [(fields d).1,(fields d).2.1]
    exact inv.owned file pos d at_pos
  · intro file pos d b at_pos has
    rcases buffered_buffer has with ⟨rfl,rfl⟩ | ⟨_,old⟩
    · exact once.1
    · exact (inv.buffer_not_next at_pos old stack).2
  · intro f₁ p₁ d₁ f₂ p₂ d₂ b at₁ at₂ has₁ has₂
    rcases buffered_buffer has₁ with ⟨rfl,rfl⟩ | ⟨_,old₁⟩
    · rcases buffered_buffer has₂ with ⟨rfl,_⟩ | ⟨_,old₂⟩
      · rfl
      · exact absurd rfl (inv.buffer_not_next at₂ old₂ stack).1
    · rcases buffered_buffer has₂ with ⟨rfl,rfl⟩ | ⟨_,old₂⟩
      · exact absurd rfl (inv.buffer_not_next at₁ old₁ stack).1
      · exact inv.apart f₁ p₁ d₁ f₂ p₂ d₂ b at₁ at₂ old₁ old₂
  · intro file pos d at_pos is_valid
    rw [(fields d).2.2.1] at is_valid
    obtain ⟨b,has,contents⟩ := inv.valid file pos d at_pos is_valid
    have differ : d ≠ who := by
      rintro rfl
      rw [lacks] at has
      cases has
    rw [(fields d).1]
    refine ⟨b,?_,contents⟩
    rw [buffered_other differ]
    exact has
  · intro file block no_valid
    apply inv.uncached
    intro d at_pos same
    have this := no_valid d at_pos
    rw [(fields d).1,(fields d).2.2.1] at this
    exact this same

omit [DecidableEq φ] in
theorem give_buffer_spec {who : Nat} (inv : Inv driver cache disk used) :
    Inv driver (give_buffer cache who).1 disk used ∧ Kept cache (give_buffer cache who).1 ∧
    ∀ d, (give_buffer cache who).2 = some d → d = who ∧ ∃ buffer, ((give_buffer cache who).1.dbds who).buffer = some buffer := by
  have same : Kept cache cache := ⟨fun _ _ _ at_pos => at_pos,fun _ _ _ _ => ⟨rfl,rfl⟩⟩
  rcases give_buffer_cases cache who with ⟨buffer,has,result⟩ | result | ⟨buffer,rest,lacks,stack,result⟩
  · rw [result]
    refine ⟨inv,same,?_⟩
    intro d got
    exact ⟨(Option.some.inj got).symm,buffer,has⟩
  · rw [result]
    refine ⟨inv,same,?_⟩
    intro d got
    cases got
  · rw [result]
    refine ⟨buffered_inv inv lacks stack,⟨fun _ _ _ at_pos => at_pos,?_⟩,?_⟩
    · intro _ _ d _
      have fields := buffered_fields cache who buffer rest d
      exact ⟨fields.1,fields.2.1⟩
    · intro d got
      refine ⟨(Option.some.inj got).symm,buffer,?_⟩
      rw [buffered_this]

/-- The cache when `who` has become the descriptor of a block. -/
def inserted (cache : Cache φ β) (file : φ) (block who : Nat) (rest : List Nat) : Cache φ β :=
  { set_entry cache file (calc_mltt_pos block) who with
    dbd_stack := rest
    dbds := Function.update cache.dbds who { fresh_dbd file with block_id := block } }

section Inserted
variable {file : φ} {block who : Nat} {rest : List Nat} {lv2 : Nat → Option (Nat → Option Nat)} {lv1 : Nat → Option Nat}

theorem inserted_new : (inserted cache file block who rest).dbds who = { fresh_dbd file with block_id := block } :=
  Function.update_self _ _ _

theorem inserted_old {d : Nat} (differ : d ≠ who) : (inserted cache file block who rest).dbds d = cache.dbds d :=
  Function.update_of_ne differ _ _

theorem inserted_entry (root : cache.lv2 file = some lv2) (table : lv2 (calc_mltt_pos block).lv2 = some lv1) (other : φ)
    (pos : fss_mltt_pos) : lv1_entry (inserted cache file block who rest) other pos =
      if other = file ∧ pos = calc_mltt_pos block then some who else lv1_entry cache other pos :=
  lv1_entry_set_entry root table

variable (inv : Inv driver cache disk used) (root : cache.lv2 file = some lv2)
  (table : lv2 (calc_mltt_pos block).lv2 = some lv1) (vacant : lv1_entry cache file (calc_mltt_pos block) = none)
  (stack : cache.dbd_stack = who :: rest)

include root table vacant in
/-- An entry that was there stays. -/
theorem inserted_at {other : φ} {pos : fss_mltt_pos} {d : Nat} (at_pos : lv1_entry cache other pos = some d) :
    lv1_entry (inserted cache file block who rest) other pos = some d := by
  rw [inserted_entry root table,if_neg]
  · exact at_pos
  · rintro ⟨rfl,rfl⟩
    rw [vacant] at at_pos
    cases at_pos

include inv root table stack in
/-- An entry is the new one or was there. -/
theorem inserted_cases {other : φ} {pos : fss_mltt_pos} {d : Nat}
    (at_pos : lv1_entry (inserted cache file block who rest) other pos = some d) :
    other = file ∧ pos = calc_mltt_pos block ∧ d = who ∨ lv1_entry cache other pos = some d ∧ d ≠ who := by
  rw [inserted_entry root table] at at_pos
  split at at_pos
  · rename_i here
    exact Or.inl ⟨here.1,here.2,(Option.some.inj at_pos).symm⟩
  · exact Or.inr ⟨at_pos,inv.not_next at_pos stack⟩

include inv root table vacant stack in
theorem inserted_inv (is_used : used file block) : Inv driver (inserted cache file block who rest) disk used := by
  have once := inv.dbds_once
  rw [stack,List.nodup_cons] at once
  refine ⟨?_,?_,?_,?_,?_,once.2,inv.buffers_once⟩
  · intro other pos d at_pos
    rcases inserted_cases inv root table stack at_pos with ⟨rfl,rfl,rfl⟩ | ⟨old,differ⟩
    · rw [inserted_new]
      exact ⟨rfl,rfl,is_used,once.1⟩
    · rw [inserted_old differ]
      obtain ⟨who',place,block',free⟩ := inv.owned other pos d old
      refine ⟨who',place,block',?_⟩
      rw [stack] at free
      exact fun later => free (List.mem_cons_of_mem _ later)
  · intro other pos d buffer at_pos has
    rcases inserted_cases inv root table stack at_pos with ⟨rfl,rfl,rfl⟩ | ⟨old,differ⟩
    · rw [inserted_new] at has
      cases has
    · rw [inserted_old differ] at has
      exact inv.filled other pos d buffer old has
  · intro f₁ p₁ d₁ f₂ p₂ d₂ buffer at₁ at₂ has₁ has₂
    rcases inserted_cases inv root table stack at₁ with ⟨rfl,rfl,rfl⟩ | ⟨old₁,differ₁⟩
    · rw [inserted_new] at has₁
      cases has₁
    · rcases inserted_cases inv root table stack at₂ with ⟨rfl,rfl,rfl⟩ | ⟨old₂,differ₂⟩
      · rw [inserted_new] at has₂
        cases has₂
      · rw [inserted_old differ₁] at has₁
        rw [inserted_old differ₂] at has₂
        exact inv.apart f₁ p₁ d₁ f₂ p₂ d₂ buffer old₁ old₂ has₁ has₂
  · intro other pos d at_pos is_valid
    rcases inserted_cases inv root table stack at_pos with ⟨rfl,rfl,rfl⟩ | ⟨old,differ⟩
    · rw [inserted_new] at is_valid
      cases is_valid
    · rw [inserted_old differ] at is_valid ⊢
      exact inv.valid other pos d old is_valid
  · intro other b no_valid
    apply inv.uncached
    intro d at_pos same
    have this := no_valid d (inserted_at root table vacant at_pos)
    rw [inserted_old (inv.not_next at_pos stack)] at this
    exact this same

include inv root table vacant stack in
theorem inserted_spec (is_used : used file block) :
    Inv driver (inserted cache file block who rest) disk used ∧ Kept cache (inserted cache file block who rest) ∧
    lv1_entry (inserted cache file block who rest) file (calc_mltt_pos block) = some who ∧
    ((inserted cache file block who rest).dbds who).block_id = block := by
  refine ⟨inserted_inv inv root table vacant stack is_used,⟨?_,?_⟩,?_,?_⟩
  · intro other pos d at_pos
    exact inserted_at root table vacant at_pos
  · intro other pos d at_pos
    rw [inserted_old (inv.not_next at_pos stack)]
    exact ⟨rfl,rfl⟩
  · rw [inserted_entry root table,if_pos ⟨rfl,rfl⟩]
  · rw [inserted_new]

end Inserted

omit [DecidableEq φ] in
theorem SameEntries.kept (same : SameEntries cache cache') : Kept cache cache' where
  entries file pos d at_pos := by rw [same.entries]; exact at_pos
  dbds file pos d _ := by rw [same.dbds]; exact ⟨rfl,rfl⟩

omit [DecidableEq φ] in
theorem Kept.trans {cache'' : Cache φ β} (first : Kept cache cache') (second : Kept cache' cache'') : Kept cache cache'' where
  entries file pos d at_pos := second.entries file pos d (first.entries file pos d at_pos)
  dbds file pos d at_pos := by
    obtain ⟨block,who⟩ := first.dbds file pos d at_pos
    obtain ⟨block',who'⟩ := second.dbds file pos d (first.entries file pos d at_pos)
    exact ⟨block'.trans block,who'.trans who⟩

/-- With its tables in place, `fss_dbd_get` finds a descriptor in the entry of the block, or has none left to put there, or
    puts a new one there; and a descriptor gets a buffer. -/
theorem fss_dbd_get_cases {file : φ} {block : Nat} {memory2 memory1 : Bool} {got : Option Nat}
    (ran : fss_dbd_get cache file block memory2 memory1 = some (cache',got)) :
    ∃ tables, SameEntries cache tables ∧
      ((∃ who, lv1_entry tables file (calc_mltt_pos block) = some who ∧ give_buffer tables who = (cache',got)) ∨
      (cache' = tables ∧ got = none ∧ lv1_entry tables file (calc_mltt_pos block) = none ∧ tables.dbd_stack = []) ∨
      ∃ who rest lv2 lv1, tables.lv2 file = some lv2 ∧ lv2 (calc_mltt_pos block).lv2 = some lv1 ∧
        lv1_entry tables file (calc_mltt_pos block) = none ∧ tables.dbd_stack = who :: rest ∧
        give_buffer (inserted tables file block who rest) who = (cache',got)) := by
  rw [fss_dbd_get,search_mltt] at ran
  split at ran
  · cases ran
  rename_i with2 made2
  obtain ⟨same2,there⟩ := allocate_lv2_spec made2
  split at ran
  · cases ran
  rename_i with1 made1
  obtain ⟨same1,lv2,lv1,root,table⟩ := allocate_lv1_spec there made1
  refine ⟨with1,same2.trans same1,?_⟩
  split at ran
  · rename_i who entry
    exact Or.inl ⟨who,entry,Option.some.inj ran⟩
  · rename_i vacant
    rw [fss_dbd_malloc] at ran
    split at ran
    · rename_i malloced
      obtain ⟨rfl,rfl⟩ := Prod.mk.inj (Option.some.inj ran)
      refine Or.inr (Or.inl ⟨rfl,rfl,vacant,?_⟩)
      split at malloced
      · assumption
      · cases malloced
    · rename_i who popped malloced
      split at malloced
      · cases malloced
      rename_i rest stack
      cases malloced
      have made : ({ set_entry { with1 with dbd_stack := rest, dbds := Function.update with1.dbds who (fresh_dbd file) } file
          (calc_mltt_pos block) who with
          dbds := Function.update (Function.update with1.dbds who (fresh_dbd file)) who
            { Function.update with1.dbds who (fresh_dbd file) who with block_id := block } } : Cache φ β) =
          inserted with1 file block who rest := by
        rw [inserted,Function.update_self,Function.update_idem]
        rfl
      refine Or.inr (Or.inr ⟨who,rest,lv2,lv1,root,table,vacant,stack,?_⟩)
      rw [← made]
      exact Option.some.inj ran

/-- `fss_dbd_get` returns the descriptor of the block, if the entry of the block does not
    belong to another one. -/
theorem fss_dbd_get_spec {file : φ} {block : Nat} {memory2 memory1 : Bool} {got : Option Nat}
    (inv : Inv driver cache disk used) (is_used : used file block)
    (alone : ∀ b, used file b → b % 16777216 = block % 16777216 → b = block)
    (ran : fss_dbd_get cache file block memory2 memory1 = some (cache',got)) :
    Inv driver cache' disk used ∧ Kept cache cache' ∧ ∀ d, got = some d →
      lv1_entry cache' file (calc_mltt_pos block) = some d ∧ (cache'.dbds d).block_id = block ∧
      (cache'.dbds d).who = some file ∧ ∃ buffer, (cache'.dbds d).buffer = some buffer := by
  obtain ⟨tables,same,ways⟩ := fss_dbd_get_cases ran
  have inv1 := inv.same_entries same
  rcases ways with ⟨who,entry,result⟩ | ⟨rfl,rfl,_⟩ | ⟨who,rest,lv2,lv1,root,table,vacant,stack,result⟩
  · obtain ⟨inv',kept',gave⟩ := give_buffer_spec inv1
    obtain ⟨is_who,place,was_used,_⟩ := inv1.owned file _ who entry
    have own := alone _ was_used (calc_mltt_pos_eq_iff.1 place)
    rw [result] at inv' kept' gave
    refine ⟨inv',same.kept.trans kept',?_⟩
    intro d found
    obtain ⟨rfl,buffer,has⟩ := gave d found
    obtain ⟨block',who'⟩ := kept'.dbds file _ d entry
    exact ⟨kept'.entries file _ d entry,block'.trans own,who'.trans is_who,buffer,has⟩
  · refine ⟨inv1,same.kept,?_⟩
    intro d found
    cases found
  · obtain ⟨inv2,kept2,at_pos,own⟩ := inserted_spec inv1 root table vacant stack is_used
    obtain ⟨inv',kept',gave⟩ := give_buffer_spec inv2
    have is_who := (inv2.owned file _ who at_pos).1
    rw [result] at inv' kept' gave
    refine ⟨inv',(same.kept.trans kept2).trans kept',?_⟩
    intro d found
    obtain ⟨rfl,buffer,has⟩ := gave d found
    obtain ⟨block',who'⟩ := kept'.dbds file _ d at_pos
    exact ⟨kept'.entries file _ d at_pos,block'.trans own,who'.trans is_who,buffer,has⟩

/-! ### Reading and writing a block -/

/-- `disk` with new contents of one block. -/
def setBlock (disk : φ → Nat → β) (file : φ) (block : Nat) (data : β) : φ → Nat → β :=
  fun f b => if f = file ∧ b = block then data else disk f b

theorem setBlock_same {file : φ} {block : Nat} {data : β} (same : disk file block = data) :
    setBlock disk file block data = disk := by
  funext f b
  rw [setBlock]
  split
  · rename_i here
    rw [here.1,here.2,same]
  · rfl

/-- A descriptor's buffer gets the contents of its block. -/
theorem Inv.fill {file : φ} {block d buffer : Nat} {data : β} {dbd : Dbd φ} (inv : Inv driver cache disk used)
    (at_pos : lv1_entry cache file (calc_mltt_pos block) = some d) (own : (cache.dbds d).block_id = block)
    (has : (cache.dbds d).buffer = some buffer) (same_who : dbd.who = (cache.dbds d).who) (same_block : dbd.block_id = block)
    (same_buffer : dbd.buffer = some buffer) (is_valid : dbd.valid = true) :
    Inv driver { cache with
      buffers := Function.update cache.buffers buffer data
      dbds := Function.update cache.dbds d dbd } (setBlock disk file block data) used := by
  have place (e : Nat) : (Function.update cache.dbds d dbd e).block_id = (cache.dbds e).block_id ∧
      (Function.update cache.dbds d dbd e).who = (cache.dbds e).who ∧
      (Function.update cache.dbds d dbd e).buffer = (cache.dbds e).buffer := by
    by_cases same : e = d
    · rw [same,Function.update_self,own,has]
      exact ⟨same_block,same_who,same_buffer⟩
    · rw [Function.update_of_ne same]
      exact ⟨rfl,rfl,rfl⟩
  refine ⟨?_,?_,?_,?_,?_,inv.dbds_once,inv.buffers_once⟩
  · intro other pos e at_e
    show (Function.update cache.dbds d dbd e).who = _ ∧ calc_mltt_pos (Function.update cache.dbds d dbd e).block_id = _ ∧
      used other (Function.update cache.dbds d dbd e).block_id ∧ _
    rw [(place e).1,(place e).2.1]
    exact inv.owned other pos e at_e
  · intro other pos e b at_e has_e
    change (Function.update cache.dbds d dbd e).buffer = some b at has_e
    rw [(place e).2.2] at has_e
    exact inv.filled other pos e b at_e has_e
  · intro f₁ p₁ d₁ f₂ p₂ d₂ b at₁ at₂ has₁ has₂
    change (Function.update cache.dbds d dbd d₁).buffer = some b at has₁
    change (Function.update cache.dbds d dbd d₂).buffer = some b at has₂
    rw [(place d₁).2.2] at has₁
    rw [(place d₂).2.2] at has₂
    exact inv.apart f₁ p₁ d₁ f₂ p₂ d₂ b at₁ at₂ has₁ has₂
  · intro other pos e at_e valid_e
    change (Function.update cache.dbds d dbd e).valid = true at valid_e
    show ∃ b, (Function.update cache.dbds d dbd e).buffer = some b ∧ Function.update cache.buffers buffer data b =
      setBlock disk file block data other (Function.update cache.dbds d dbd e).block_id
    rw [(place e).1,(place e).2.2]
    by_cases same : e = d
    · obtain ⟨rfl,_⟩ := inv.entry_unique (by rw [← same] at at_pos; exact at_pos) at_e
      refine ⟨buffer,by rw [same]; exact has,?_⟩
      rw [Function.update_self,same,own,setBlock,if_pos ⟨rfl,rfl⟩]
    · rw [Function.update_of_ne same] at valid_e
      obtain ⟨b,has_e,contents⟩ := inv.valid other pos e at_e valid_e
      refine ⟨b,has_e,?_⟩
      have other_buffer : b ≠ buffer := by
        rintro rfl
        exact same (inv.apart other pos e file _ d b at_e at_pos has_e has)
      rw [Function.update_of_ne other_buffer,setBlock,if_neg]
      · exact contents
      · rintro ⟨rfl,same_id⟩
        obtain ⟨_,at_place,_⟩ := inv.owned other pos e at_e
        change lv1_entry cache other pos = some e at at_e
        rw [same_id] at at_place
        rw [← at_place,at_pos] at at_e
        exact same (Option.some.inj at_e).symm
  · intro other b no_valid
    have elsewhere : ¬(other = file ∧ b = block) := by
      rintro ⟨rfl,rfl⟩
      have this := no_valid d at_pos
      change (Function.update cache.dbds d dbd d).block_id = b → (Function.update cache.dbds d dbd d).valid = false at this
      rw [Function.update_self,is_valid] at this
      exact absurd (this same_block) (by decide)
    rw [setBlock,if_neg elsewhere]
    apply inv.uncached
    intro e at_e same_id
    have this := no_valid e at_e
    change (Function.update cache.dbds d dbd e).block_id = b → (Function.update cache.dbds d dbd e).valid = false at this
    have differ : e ≠ d := by
      rintro rfl
      exact elsewhere ⟨(inv.entry_unique at_e at_pos).1,same_id.symm.trans own⟩
    rw [Function.update_of_ne differ] at this
    exact this same_id

theorem fss_dbd_make_valid_spec {file : φ} {block d buffer : Nat} (inv : Inv driver cache disk used)
    (at_pos : lv1_entry cache file (calc_mltt_pos block) = some d) (own : (cache.dbds d).block_id = block)
    (has : (cache.dbds d).buffer = some buffer) :
    Inv driver (fss_dbd_make_valid driver cache file d).1 disk used ∧
    ((fss_dbd_make_valid driver cache file d).2 = true →
      lv1_entry (fss_dbd_make_valid driver cache file d).1 file (calc_mltt_pos block) = some d ∧
      ((fss_dbd_make_valid driver cache file d).1.dbds d).block_id = block ∧
      ((fss_dbd_make_valid driver cache file d).1.dbds d).buffer = some buffer ∧
      ((fss_dbd_make_valid driver cache file d).1.dbds d).valid = true ∧
      (fss_dbd_make_valid driver cache file d).1.buffers buffer = disk file block) := by
  rw [fss_dbd_make_valid]
  dsimp only
  split
  · rename_i is_valid
    refine ⟨inv,fun _ => ⟨at_pos,own,has,is_valid,?_⟩⟩
    obtain ⟨b,has_b,contents⟩ := inv.valid file _ d at_pos is_valid
    rw [has] at has_b
    obtain rfl := Option.some.inj has_b
    rw [contents,own]
  · rename_i invalid
    rw [Bool.not_eq_true] at invalid
    split
    · exact ⟨inv,fun ok => by cases ok⟩
    · rw [has]
      dsimp only
      have driver_block : disk file block = (driver.fRead file block).1 := by
        apply inv.uncached
        intro e at_e _
        rw [at_pos] at at_e
        obtain rfl := Option.some.inj at_e
        exact invalid
      rw [own]
      constructor
      · rw [← setBlock_same driver_block]
        exact inv.fill at_pos own has rfl rfl rfl rfl
      · intro _
        refine ⟨at_pos,?_,?_,?_,?_⟩
        · rw [Function.update_self]
        · rw [Function.update_self]
        · rw [Function.update_self]
        · rw [Function.update_self,driver_block]

/-- The contents of the files after a call. -/
def after (disk : φ → Nat → β) (call : Call φ β) : Reply β → φ → Nat → β
  | .failed => disk
  | .read _ _ => disk
  | .written _ => match call.data with
    | some data => setBlock disk call.who call.block data
    | none => disk

theorem fss_block_io_spec {call : Call φ β} {reply : Reply β} (inv : Inv driver cache disk used)
    (is_used : used call.who call.block)
    (alone : ∀ b, used call.who b → b % 16777216 = call.block % 16777216 → b = call.block)
    (ran : fss_block_io driver cache call = some (cache',reply)) :
    Inv driver cache' (after disk call reply) used ∧
    ∀ buffer size, reply = .read buffer size → buffer = disk call.who call.block := by
  rw [fss_block_io] at ran
  split at ran
  · cases ran
  · rename_i cache₁ got
    obtain ⟨inv₁,_,_⟩ := fss_dbd_get_spec inv is_used alone got
    obtain ⟨rfl,rfl⟩ := Prod.mk.inj (Option.some.inj ran)
    exact ⟨inv₁,fun _ _ h => by cases h⟩
  · rename_i cache₁ which got
    obtain ⟨inv₁,_,found⟩ := fss_dbd_get_spec inv is_used alone got
    obtain ⟨at_pos,own,_,buffer,has⟩ := found which rfl
    obtain ⟨inv₂,made⟩ := fss_dbd_make_valid_spec inv₁ at_pos own has
    dsimp only at ran
    split at ran
    · obtain ⟨rfl,rfl⟩ := Prod.mk.inj (Option.some.inj ran)
      exact ⟨inv₂,fun _ _ h => by cases h⟩
    rename_i ok
    rw [Bool.not_eq_false] at ok
    obtain ⟨at_pos₂,own₂,has₂,valid₂,contents⟩ := made ok
    rw [has₂] at ran
    cases data : call.data with
    | none =>
      rw [data] at ran
      obtain ⟨rfl,rfl⟩ := Prod.mk.inj (Option.some.inj ran)
      refine ⟨inv₂,?_⟩
      intro b size same
      injection same with same
      rw [← same,contents]
    | some new =>
      rw [data] at ran
      obtain ⟨rfl,rfl⟩ := Prod.mk.inj (Option.some.inj ran)
      refine ⟨?_,fun _ _ h => by cases h⟩
      rw [after,data]
      dsimp only
      exact inv₂.fill at_pos₂ own₂ has₂ rfl own₂ rfl valid₂

/-! ### Runs -/

/-- The contents of the files after the calls of a run: what was last written, or what the
    driver has. -/
def contents (driver : Driver φ β) (history : List (Call φ β × Reply β)) : φ → Nat → β :=
  history.foldl (fun disk call => after disk call.1 call.2) (fun file block => (driver.fRead file block).1)

omit [DecidableEq φ] in
theorem init_inv (driver : Driver φ β) (dbds : Nat → Dbd φ) (buffers : Nat → β) (used : φ → Nat → Prop) :
    Inv driver (fss_db_init dbds buffers) (fun file block => (driver.fRead file block).1) used where
  owned _ _ _ at_pos := by cases at_pos
  filled _ _ _ _ at_pos := by cases at_pos
  apart _ _ _ _ _ _ _ at_pos := by cases at_pos
  valid _ _ _ at_pos := by cases at_pos
  uncached _ _ _ := rfl
  dbds_once := List.nodup_reverse.2 List.nodup_range
  buffers_once := List.nodup_reverse.2 List.nodup_range

/-- No two block numbers of one file that the calls use share an entry of its tables. -/
def Tame (calls : List (Call φ β)) : Prop :=
  ∀ c ∈ calls, ∀ c' ∈ calls, c.who = c'.who → c.block % 16777216 = c'.block % 16777216 → c.block = c'.block

/-- The block numbers that calls use. -/
def usedBy (calls : List (Call φ β)) (file : φ) (block : Nat) : Prop := ∃ c ∈ calls, c.who = file ∧ c.block = block

omit [DecidableEq φ] in
theorem usedBy_alone {all : List (Call φ β)} (tame : Tame all) {file : φ} {block : Nat} (is_used : usedBy all file block) :
    ∀ b, usedBy all file b → b % 16777216 = block % 16777216 → b = block := by
  rintro b ⟨c,hc,who,rfl⟩ congruent
  obtain ⟨c',hc',who',rfl⟩ := is_used
  exact tame c hc c' hc' (who.trans who'.symm) congruent

end Cached
end GridOS.Mltt
