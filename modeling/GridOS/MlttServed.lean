import GridOS.MlttRuns
import Mathlib.Data.List.Dedup
import Mathlib.Data.List.Perm.Subperm

/-!
Runs of the block cache that it serves. With memory for the tables, open files and no more blocks in use than the pools
have descriptors and buffers, no call fails: every read returns the contents and `fss_dbd_get` always has a descriptor. What
carries this is a count: each entry has one descriptor and one buffer out of the pools.
-/
namespace GridOS.Mltt

section Served
variable {φ β : Type} [DecidableEq φ]

/-- The calls are on open files, have memory for tables, use no two block numbers of a file that share an entry, and no
    more blocks than there are descriptors. -/
structure Served (driver : Driver φ β) (calls : List (Call φ β)) : Prop where
  apart : Tame calls
  opened : ∀ c ∈ calls, driver.opened c.who = true
  memory : ∀ c ∈ calls, c.memory2 = true ∧ c.memory1 = true
  few : (calls.map (fun c => (c.who,c.block))).dedup.length ≤ db_count

/-- The reply to a call that does not fail, where its block has these contents. -/
def Call.served (call : Call φ β) (contents : β) (size : Nat) : Reply β :=
  match call.data with
  | none => .read contents size
  | some _ => .written size

/-- No call of the run has failed, and every read has returned the last contents written to its block, or the driver's. -/
def ReadsCoherent (driver : Driver φ β) (calls : List (Call φ β)) (replies : List (Reply β)) : Prop :=
  ∀ (i : Nat) (call : Call φ β), calls[i]? = some call → ∃ size,
    replies[i]? = some (call.served (contents driver ((calls.zip replies).take i) call.who call.block) size)

/-- `fss_dbd_get` always returns a descriptor, of the block it is asked for, and no descriptor is that of two blocks. -/
structure OwnDescriptors (cache : Cache φ β) (allowed : φ → Nat → Prop) : Prop where
  found : ∀ file block, allowed file block → ∃ cache' d, fss_dbd_get cache file block true true = some (cache',some d)
  block_id : ∀ file block memory2 memory1 cache' d, allowed file block →
    fss_dbd_get cache file block memory2 memory1 = some (cache',some d) →
    (cache'.dbds d).block_id = block ∧ (cache'.dbds d).who = some file
  distinct : ∀ file block file' block' m₂ m₁ m₂' m₁' cache' cache'' d, allowed file block → allowed file' block' →
    fss_dbd_get cache file block m₂ m₁ = some (cache',some d) →
    fss_dbd_get cache' file' block' m₂' m₁' = some (cache'',some d) → file = file' ∧ block = block'

/-! ### The pools -/

/-- The blocks `held` in the cache have a descriptor and a buffer each, and the others are in the pools. -/
structure Stocked (cache : Cache φ β) (used : φ → Nat → Prop) (held : List (φ × Nat)) : Prop where
  once : held.Nodup
  in_use : ∀ p ∈ held, used p.1 p.2
  entries : ∀ file block, used file block → ((file,block) ∈ held ↔ (lv1_entry cache file (calc_mltt_pos block)).isSome = true)
  filled : ∀ file pos d, lv1_entry cache file pos = some d → (cache.dbds d).buffer.isSome = true
  dbds : cache.dbd_stack.length + held.length = db_count
  buffers : cache.db_stack.length + held.length = db_count

/-- At most so many blocks are used. -/
def Few (used : φ → Nat → Prop) : Prop := ∀ held : List (φ × Nat), held.Nodup → (∀ p ∈ held, used p.1 p.2) → held.length ≤ db_count

variable {driver : Driver φ β} {cache cache' : Cache φ β} {disk : φ → Nat → β} {used : φ → Nat → Prop} {held : List (φ × Nat)}

omit [DecidableEq φ] in
theorem init_stocked (dbds : Nat → Dbd φ) (buffers : Nat → β) (used : φ → Nat → Prop) :
    Stocked (fss_db_init dbds buffers) used [] where
  once := .nil
  in_use := nofun
  entries _ _ _ := ⟨nofun,nofun⟩
  filled _ _ _ := nofun
  dbds := by simp [fss_db_init]
  buffers := by simp [fss_db_init]

omit [DecidableEq φ] in
/-- Entries, buffers and pools are as before. -/
theorem Stocked.same (stocked : Stocked cache used held) (entries : ∀ file pos, lv1_entry cache' file pos = lv1_entry cache file pos)
    (filled : ∀ d, (cache'.dbds d).buffer = (cache.dbds d).buffer) (dbd_stack : cache'.dbd_stack = cache.dbd_stack)
    (db_stack : cache'.db_stack = cache.db_stack) : Stocked cache' used held where
  once := stocked.once
  in_use := stocked.in_use
  entries file block is_used := by
    rw [entries]
    exact stocked.entries file block is_used
  filled file pos d at_pos := by
    rw [entries] at at_pos
    rw [filled]
    exact stocked.filled file pos d at_pos
  dbds := by
    rw [dbd_stack]
    exact stocked.dbds
  buffers := by
    rw [db_stack]
    exact stocked.buffers

omit [DecidableEq φ] in
/-- A used block that is not held finds both pools filled. -/
theorem Stocked.room (stocked : Stocked cache used held) (few : Few used) {file : φ} {block : Nat} (is_used : used file block)
    (absent : (file,block) ∉ held) : 0 < cache.dbd_stack.length ∧ 0 < cache.db_stack.length := by
  have count := few ((file,block) :: held) (List.nodup_cons.mpr ⟨absent,stocked.once⟩) (by
    intro p member
    rcases List.mem_cons.mp member with rfl | old
    · exact is_used
    · exact stocked.in_use p old)
  have dbds := stocked.dbds
  have buffers := stocked.buffers
  rw [List.length_cons] at count
  omega

/-- With memory the tables are made. -/
theorem fss_dbd_get_returns (cache : Cache φ β) (file : φ) (block : Nat) :
    ∃ cache' got, fss_dbd_get cache file block true true = some (cache',got) := by
  rw [fss_dbd_get,search_mltt]
  obtain ⟨with2,made2⟩ : ∃ with2, allocate_lv2 cache file true = some with2 := by
    rw [allocate_lv2]
    split <;> exact ⟨_,rfl⟩
  obtain ⟨with1,made1⟩ : ∃ with1, allocate_lv1 with2 file (calc_mltt_pos block) true = some with1 := by
    rw [allocate_lv1]
    split <;> exact ⟨_,rfl⟩
  rw [made2]
  dsimp only
  rw [made1]
  dsimp only
  cases lv1_entry with1 file (calc_mltt_pos block) with
  | some who => exact ⟨_,_,rfl⟩
  | none =>
    dsimp only
    cases fss_dbd_malloc with1 file with
    | none => exact ⟨_,_,rfl⟩
    | some pair => exact ⟨_,_,rfl⟩

/-- A block that gets a descriptor and a buffer out of the pools is held. -/
theorem Stocked.insert {file : φ} {block who buffer : Nat} {rest free : List Nat} {lv2 : Nat → Option (Nat → Option Nat)}
    {lv1 : Nat → Option Nat} (stocked : Stocked cache used held) (root : cache.lv2 file = some lv2)
    (table : lv2 (calc_mltt_pos block).lv2 = some lv1) (stack : cache.dbd_stack = who :: rest)
    (db_stack : cache.db_stack = buffer :: free) (is_used : used file block) (absent : (file,block) ∉ held)
    (alone : ∀ b, used file b → b % 16777216 = block % 16777216 → b = block) :
    Stocked (buffered (inserted cache file block who rest) who buffer free) used ((file,block) :: held) := by
  have entry (other : φ) (pos : fss_mltt_pos) :
      lv1_entry (buffered (inserted cache file block who rest) who buffer free) other pos =
        if other = file ∧ pos = calc_mltt_pos block then some who else lv1_entry cache other pos := by
    show lv1_entry (inserted cache file block who rest) other pos = _
    exact inserted_entry root table other pos
  refine ⟨List.nodup_cons.mpr ⟨absent,stocked.once⟩,?_,?_,?_,?_,?_⟩
  · intro p member
    rcases List.mem_cons.mp member with rfl | old
    · exact is_used
    · exact stocked.in_use p old
  · intro other b b_used
    rw [entry,List.mem_cons,Prod.mk.injEq,stocked.entries other b b_used]
    by_cases here : other = file ∧ calc_mltt_pos b = calc_mltt_pos block
    · obtain ⟨rfl,place⟩ := here
      have same := alone b b_used (calc_mltt_pos_eq_iff.mp place)
      rw [if_pos ⟨rfl,place⟩]
      exact iff_of_true (.inl ⟨rfl,same⟩) rfl
    · rw [if_neg here]
      have differ : ¬(other = file ∧ b = block) := fun same => here ⟨same.1,same.2 ▸ rfl⟩
      exact or_iff_right differ
  · intro other pos d at_pos
    by_cases same : d = who
    · rw [same,buffered_this]
      rfl
    · rw [buffered_other same,inserted_old same]
      rw [entry] at at_pos
      split at at_pos
      · exact absurd (Option.some.inj at_pos).symm same
      · exact stocked.filled other pos d at_pos
  · have dbds := stocked.dbds
    rw [stack,List.length_cons] at dbds
    rw [List.length_cons,← dbds]
    show rest.length + (held.length + 1) = _
    omega
  · have buffers := stocked.buffers
    rw [db_stack,List.length_cons] at buffers
    rw [List.length_cons,← buffers]
    show free.length + (held.length + 1) = _
    omega

/-- `fss_dbd_get` of a used block has a descriptor, and the pools are as the entries say. -/
theorem fss_dbd_get_served {file : φ} {block : Nat} (inv : Inv driver cache disk used) (stocked : Stocked cache used held)
    (few : Few used) (is_used : used file block)
    (alone : ∀ b, used file b → b % 16777216 = block % 16777216 → b = block) :
    ∃ cache' d held', fss_dbd_get cache file block true true = some (cache',some d) ∧ Stocked cache' used held' := by
  obtain ⟨cache',got,ran⟩ := fss_dbd_get_returns cache file block
  obtain ⟨tables,same,ways⟩ := fss_dbd_get_cases ran
  have inv' := inv.same_entries same
  have stocked' : Stocked tables used held :=
    stocked.same same.entries (fun d => by rw [same.dbds]) same.dbd_stack same.db_stack
  rw [ran]
  rcases ways with ⟨who,entry,result⟩ | ⟨rfl,rfl,vacant,empty⟩ | ⟨who,rest,lv2,lv1,root,table,vacant,stack,result⟩
  · obtain ⟨buffer,has⟩ := Option.isSome_iff_exists.mp (stocked'.filled file _ who entry)
    rw [give_buffer,has] at result
    obtain ⟨rfl,rfl⟩ := Prod.mk.inj result
    exact ⟨_,who,held,rfl,stocked'⟩
  · have absent : (file,block) ∉ held := by
      rw [stocked'.entries file block is_used,vacant]
      intro wrong
      cases wrong
    have room := (stocked'.room few is_used absent).1
    rw [empty] at room
    cases room
  · have absent : (file,block) ∉ held := by
      rw [stocked'.entries file block is_used,vacant]
      intro wrong
      cases wrong
    obtain ⟨buffer,free,db_stack⟩ := List.exists_cons_of_length_pos (stocked'.room few is_used absent).2
    have lacks : ((inserted tables file block who rest).dbds who).buffer = none := by
      rw [inserted_new]
      rfl
    have next : (inserted tables file block who rest).db_stack = buffer :: free := db_stack
    have gave : give_buffer (inserted tables file block who rest) who =
        (buffered (inserted tables file block who rest) who buffer free,some who) := by
      rw [give_buffer,lacks,fss_db_malloc,next]
      rfl
    rw [gave] at result
    obtain ⟨rfl,rfl⟩ := Prod.mk.inj result
    exact ⟨_,who,_,rfl,stocked'.insert root table stack db_stack is_used absent alone⟩

/-- A call on an open file with memory is served. -/
theorem fss_block_io_served {call : Call φ β} (inv : Inv driver cache disk used) (stocked : Stocked cache used held)
    (few : Few used) (is_used : used call.who call.block)
    (alone : ∀ b, used call.who b → b % 16777216 = call.block % 16777216 → b = call.block)
    (opened : driver.opened call.who = true) (memory2 : call.memory2 = true) (memory1 : call.memory1 = true) :
    ∃ cache' size held', fss_block_io driver cache call = some (cache',call.served (disk call.who call.block) size) ∧
      Stocked cache' used held' := by
  obtain ⟨cache₁,which,held',got,stocked₁⟩ := fss_dbd_get_served inv stocked few is_used alone
  obtain ⟨inv₁,_,found⟩ := fss_dbd_get_spec inv is_used alone got
  obtain ⟨at_pos,own,_,buffer,has⟩ := found which rfl
  obtain ⟨inv₂,made⟩ := fss_dbd_make_valid_spec inv₁ at_pos own has
  have ok : (fss_dbd_make_valid driver cache₁ call.who which).2 = true := by
    rw [fss_dbd_make_valid]
    dsimp only
    split
    · rfl
    · rw [if_neg (by rw [opened]; decide)]
  have stocked₂ : Stocked (fss_dbd_make_valid driver cache₁ call.who which).1 used held' := by
    rw [fss_dbd_make_valid]
    dsimp only
    split
    · exact stocked₁
    · rw [if_neg (by rw [opened]; decide)]
      refine stocked₁.same (fun _ _ => rfl) (fun d => ?_) rfl rfl
      by_cases same : d = which
      · dsimp only
        rw [same,Function.update_self]
      · exact congrArg Dbd.buffer (Function.update_of_ne same ..)
  obtain ⟨_,_,has₂,_,contents⟩ := made ok
  rw [fss_block_io,memory2,memory1,got]
  dsimp only
  rw [if_neg (by rw [ok]; decide),has₂]
  unfold Call.served
  cases call.data with
  | none =>
    dsimp only
    rw [contents]
    exact ⟨_,_,held',rfl,stocked₂⟩
  | some data =>
    refine ⟨_,_,held',rfl,stocked₂.same (fun _ _ => rfl) (fun d => ?_) rfl rfl⟩
    by_cases same : d = which
    · dsimp only
      rw [same,Function.update_self]
      exact has₂.symm
    · exact congrArg Dbd.buffer (Function.update_of_ne same ..)

theorem Few.of_calls {all : List (Call φ β)} (few : (all.map (fun c => (c.who,c.block))).dedup.length ≤ db_count) :
    Few (usedBy all) := by
  intro held once within
  have subset : held ⊆ (all.map (fun c => (c.who,c.block))).dedup := by
    intro p member
    obtain ⟨c,hc,who,block⟩ := within p member
    exact List.mem_dedup.mpr (List.mem_map.mpr ⟨c,hc,Prod.ext who block⟩)
  exact Nat.le_trans (once.subperm subset).length_le few

/-- A descriptor that is returned is that of the block. -/
theorem Inv.own_block {all : List (Call φ β)} (tame : Tame all) (inv : Inv driver cache disk (usedBy all)) {file : φ}
    {block d : Nat} {memory2 memory1 : Bool} (is_used : usedBy all file block)
    (got : fss_dbd_get cache file block memory2 memory1 = some (cache',some d)) :
    (cache'.dbds d).block_id = block ∧ (cache'.dbds d).who = some file := by
  obtain ⟨_,_,found⟩ := fss_dbd_get_spec inv is_used (usedBy_alone tame is_used) got
  obtain ⟨_,own,who,_⟩ := found d rfl
  exact ⟨own,who⟩

/-- And of no other. -/
theorem Inv.own_distinct {all : List (Call φ β)} (tame : Tame all) (inv : Inv driver cache disk (usedBy all))
    {cache'' : Cache φ β} {file file' : φ} {block block' d : Nat} {m₂ m₁ m₂' m₁' : Bool} (is_used : usedBy all file block)
    (is_used' : usedBy all file' block') (got : fss_dbd_get cache file block m₂ m₁ = some (cache',some d))
    (got' : fss_dbd_get cache' file' block' m₂' m₁' = some (cache'',some d)) : file = file' ∧ block = block' := by
  obtain ⟨inv',_,found⟩ := fss_dbd_get_spec inv is_used (usedBy_alone tame is_used) got
  obtain ⟨at_pos,own,who,_⟩ := found d rfl
  obtain ⟨_,kept,found'⟩ := fss_dbd_get_spec inv' is_used' (usedBy_alone tame is_used') got'
  obtain ⟨_,own',who',_⟩ := found' d rfl
  obtain ⟨same_id,same_who⟩ := kept.dbds file _ d at_pos
  exact ⟨Option.some.inj (who.symm.trans (same_who.symm.trans who')),own.symm.trans (same_id.symm.trans own')⟩

/-! ### Runs -/

theorem run_served {all : List (Call φ β)} (tame : Served driver all) (few : Few (usedBy all)) :
    ∀ {calls : List (Call φ β)} {cache : Cache φ β} {disk : φ → Nat → β} {held : List (φ × Nat)}, (∀ c ∈ calls, c ∈ all) →
      Inv driver cache disk (usedBy all) → Stocked cache (usedBy all) held →
      ∃ cache' replies disk' held', run driver cache calls = some (cache',replies) ∧
        Inv driver cache' disk' (usedBy all) ∧ Stocked cache' (usedBy all) held' ∧
        ∀ (i : Nat) (call : Call φ β), calls[i]? = some call → ∃ size, replies[i]? = some (call.served
          (((calls.zip replies).take i).foldl (fun disk call => after disk call.1 call.2) disk call.who call.block) size) := by
  intro calls
  induction calls with
  | nil =>
    intro cache disk held _ inv stocked
    exact ⟨cache,[],disk,held,rfl,inv,stocked,nofun⟩
  | cons call calls ih =>
    intro cache disk held within inv stocked
    have here := within call List.mem_cons_self
    have is_used : usedBy all call.who call.block := ⟨call,here,rfl,rfl⟩
    have alone := usedBy_alone tame.apart is_used
    obtain ⟨next,size,held₁,io,stocked₁⟩ := fss_block_io_served inv stocked few is_used alone (tame.opened call here)
      (tame.memory call here).1 (tame.memory call here).2
    obtain ⟨inv₁,_⟩ := fss_block_io_spec inv is_used alone io
    obtain ⟨last,replies,disk',held',ran,inv',stocked',served⟩ :=
      ih (fun c hc => within c (List.mem_cons_of_mem _ hc)) inv₁ stocked₁
    refine ⟨last,call.served (disk call.who call.block) size :: replies,disk',held',?_,inv',stocked',?_⟩
    · rw [run,io]
      dsimp only
      rw [ran]
      rfl
    · intro i c at_i
      rcases i with _ | i
      · obtain rfl := Option.some.inj at_i
        exact ⟨size,rfl⟩
      · exact served i c at_i

/-- In every state of a run that the cache serves no call has failed and the cache is coherent: for the calls before the
    state and for those after it. -/
theorem served_run_coherent (driver : Driver φ β) (dbds : Nat → Dbd φ) (buffers : Nat → β) (calls later : List (Call φ β))
    (tame : Served driver (calls ++ later)) : ∃ cache replies,
      run driver (fss_db_init dbds buffers) calls = some (cache,replies) ∧ ReadsCoherent driver calls replies ∧
        OwnDescriptors cache (usedBy (calls ++ later)) := by
  have few := Few.of_calls tame.few
  obtain ⟨cache,replies,_,held,ran,inv,stocked,served⟩ := run_served tame few (fun _ hc => List.mem_append_left _ hc)
    (init_inv driver dbds buffers _) (init_stocked dbds buffers _)
  refine ⟨cache,replies,ran,served,fun file block is_used => ?_,?_,?_⟩
  · obtain ⟨cache',d,_,got,_⟩ := fss_dbd_get_served inv stocked few is_used (usedBy_alone tame.apart is_used)
    exact ⟨cache',d,got⟩
  · exact fun _ _ _ _ _ _ is_used got => inv.own_block tame.apart is_used got
  · exact fun _ _ _ _ _ _ _ _ _ _ _ is_used is_used' got got' => inv.own_distinct tame.apart is_used is_used' got got'

end Served

/-- A driver whose blocks hold their own numbers. -/
def numbers : Driver Unit Nat := { opened := fun _ => true, fRead := fun _ block => (block,0) }

/-- Two blocks of one file, the first written and read back. -/
theorem served_run_coherent_two_blocks : ∃ cache replies,
    run numbers (fss_db_init (fun _ => fresh_dbd ()) (fun _ => 0))
      [⟨(),3,some 7,true,true⟩,⟨(),4,none,true,true⟩,⟨(),3,none,true,true⟩] = some (cache,replies) ∧
    ReadsCoherent numbers [⟨(),3,some 7,true,true⟩,⟨(),4,none,true,true⟩,⟨(),3,none,true,true⟩] replies ∧
    OwnDescriptors cache (usedBy ([⟨(),3,some 7,true,true⟩,⟨(),4,none,true,true⟩,⟨(),3,none,true,true⟩] ++
      [⟨(),5,none,true,true⟩])) := by
  refine served_run_coherent numbers _ _ _ _ ⟨?_,fun _ _ => rfl,?_,by decide⟩
  · simp [Tame]
  · simp

/-- Block 0 is written, and block 2^24 of the same file reads as block 0. -/
theorem aliased_block_read : ∃ cache replies,
    run numbers (fss_db_init (fun _ => fresh_dbd ()) (fun _ => 0))
      [⟨(),0,some 7,true,true⟩,⟨(),16777216,none,true,true⟩] = some (cache,replies) ∧
    replies = [.written 0,.read 7 0] ∧
    ¬ReadsCoherent numbers [⟨(),0,some 7,true,true⟩,⟨(),16777216,none,true,true⟩] replies := by
  refine ⟨_,_,rfl,rfl,?_⟩
  intro coherent
  obtain ⟨size,reply⟩ := coherent 1 _ rfl
  have wrong : (Reply.read 7 0 : Reply Nat) = .read 16777216 size := Option.some.inj reply
  injection wrong with wrong
  exact absurd wrong (by decide)

end GridOS.Mltt
