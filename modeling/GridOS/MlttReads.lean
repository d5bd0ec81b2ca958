import GridOS.MlttRuns
import Mathlib.Data.List.Pairwise

/-!
Reads of the block cache that the driver fails: `fss_dbd_make_valid` and `fss_block_io` of `source/subsystem/fs/main.c` with
what `fRead` returns. A block is marked as valid whatever that is. As long as the driver fails no read, what a read returns
is the last contents that were read or written.
-/
namespace GridOS.MlttReads
open GridOS.Mltt (Cache Dbd fss_dbd_get lv1_entry calc_mltt_pos Inv Tame usedBy setBlock SameEntries give_buffer inserted)

def EBADF : Int := 9
def ENOMEM : Int := 12

/-- A size as an `ssize_t`. -/
def ssize (size : Nat) : Int := (BitVec.ofNat 32 size).toInt

/-- What a call of `fRead` returns, and what it leaves in the buffer and in the size. -/
structure Answer (β : Type) where
  ret : Int
  data : β
  size : Nat

/-- A call of `fss_block_io`: whether the driver has opened the file by then, and its answer if it is asked for a block. -/
structure Call (φ β : Type) extends Mltt.Call φ β where
  opened : Bool
  answer : Answer β

inductive Reply (β : Type) where
  | failed (error : Int)
  | read (buffer : β) (size : Int)
  | written (size : Int)

/-- What happens: the driver is asked for a block, and a call returns. -/
inductive Event (φ β : Type) where
  | fRead (who : φ) (block_id : Nat) (answer : Answer β)
  | returned (call : Call φ β) (reply : Reply β)

section Operations
variable {φ β : Type} [DecidableEq φ]

/-- `fss_dbd_make_valid`: its result, and the `fRead` that it makes. -/
def fss_dbd_make_valid (cache : Cache φ β) (call : Call φ β) (which : Nat) : Cache φ β × Int × List (Event φ β) :=
  let dbd := cache.dbds which
  if dbd.valid then (cache,ssize dbd.valid_size,[]) else
  if call.opened = false then (cache,-EBADF,[]) else
  ({ cache with
    buffers := match dbd.buffer with
      | some buffer => Function.update cache.buffers buffer call.answer.data
      | none => cache.buffers
    -- whatever `fRead` returns
    dbds := Function.update cache.dbds which { dbd with valid_size := call.answer.size, valid := true } },
    call.answer.ret,[.fRead call.who dbd.block_id call.answer])

/-- `fss_block_io`, and what happens meanwhile; `none` when it follows a null pointer. -/
def fss_block_io (cache : Cache φ β) (call : Call φ β) : Option (Cache φ β × List (Event φ β)) :=
  match fss_dbd_get cache call.who call.block call.memory2 call.memory1 with
  | none => none
  | some (cache,none) => some (cache,[.returned call (.failed (-ENOMEM))])
  | some (cache,some which) =>
    match fss_dbd_make_valid cache call which with
    | (cache,ret,asked) =>
      if ret < 0 then some (cache,asked ++ [.returned call (.failed ret)]) else
      let size := ssize (cache.dbds which).valid_size
      match (cache.dbds which).buffer, call.data with
      | none, _ => none
      | some buffer, none => some (cache,asked ++ [.returned call (.read (cache.buffers buffer) size)])
      | some buffer, some data => some ({ cache with
          buffers := Function.update cache.buffers buffer data
          dbds := Function.update cache.dbds which { cache.dbds which with dirty := true } },
          asked ++ [.returned call (.written size)])

/-- A sequence of calls, and all that happens; `none` when one of them crashes. -/
def run : Cache φ β → List (Call φ β) → Option (Cache φ β × List (Event φ β))
  | cache, [] => some (cache,[])
  | cache, call :: calls =>
    match fss_block_io cache call with
    | none => none
    | some (cache,events) => (run cache calls).map (fun rest => (rest.1,events ++ rest.2))

/-! ### What the driver gave -/

/-- The driver was asked for the block. -/
def Event.Asks (file : φ) (block : Nat) : Event φ β → Prop
  | .fRead who block_id _ => who = file ∧ block_id = block
  | .returned _ _ => False

/-- A successful `fRead` of the block. -/
def Event.Gives (file : φ) (block : Nat) : Event φ β → Prop
  | .fRead who block_id answer => who = file ∧ block_id = block ∧ 0 ≤ answer.ret
  | .returned _ _ => False

/-- The contents that a successful `fRead` or a successful write gives the block. -/
def Event.supplied (file : φ) (block : Nat) : Event φ β → Option β
  | .fRead who block_id answer => if who = file ∧ block_id = block ∧ 0 ≤ answer.ret then some answer.data else none
  | .returned call (.written size) => if call.who = file ∧ call.block = block ∧ 0 ≤ size then call.data else none
  | .returned _ _ => none

/-- What a successful `fRead` or a successful write of the block gave it last. -/
def origin (history : List (Event φ β)) (file : φ) (block : Nat) : Option β :=
  history.reverse.findSome? (Event.supplied file block)

/-- The call took its block for valid. -/
def Reply.Served : Reply β → Prop
  | .failed _ => False
  | .read _ _ => True
  | .written _ => True

/-- A descriptor is valid only after a successful `fRead` of its block, and a call takes its block for valid only after one;
    a read that returns a size copies what a successful `fRead` or a successful write gave the block last. -/
structure OnlyGood (cache : Cache φ β) (history : List (Event φ β)) : Prop where
  valid : ∀ file pos d, lv1_entry cache file pos = some d → (cache.dbds d).valid = true →
    ∃ e ∈ history, e.Gives file (cache.dbds d).block_id
  served : ∀ before call reply after, history = before ++ .returned call reply :: after → reply.Served →
    ∃ e ∈ before, e.Gives call.who call.block
  read : ∀ before call buffer size after, history = before ++ .returned call (.read buffer size) :: after → 0 ≤ size →
    origin before call.who call.block = some buffer

/-- Every `fRead` that is made succeeds. -/
def NoneFails (history : List (Event φ β)) : Prop :=
  ∀ who block_id answer, Event.fRead who block_id answer ∈ history → 0 ≤ answer.ret

end Operations

section Valid
variable {φ β : Type} [DecidableEq φ] {driver : Mltt.Driver φ β} {cache cache' cache'' : Cache φ β} {disk : φ → Nat → β}
  {used : φ → Nat → Prop}

/-! ### Getting a descriptor -/

/-- The descriptors in the tables stay as they are up to their buffers, and the new ones are not valid. -/
structure SameValid (cache cache' : Cache φ β) : Prop where
  old : ∀ file pos d, lv1_entry cache file pos = some d → lv1_entry cache' file pos = some d ∧
    (cache'.dbds d).block_id = (cache.dbds d).block_id ∧ (cache'.dbds d).valid = (cache.dbds d).valid ∧
    (cache'.dbds d).valid_size = (cache.dbds d).valid_size
  new : ∀ file pos d, lv1_entry cache' file pos = some d → (cache'.dbds d).valid = true → lv1_entry cache file pos = some d

omit [DecidableEq φ] in
theorem SameValid.refl (cache : Cache φ β) : SameValid cache cache where
  old _ _ _ at_pos := ⟨at_pos,rfl,rfl,rfl⟩
  new _ _ _ at_pos _ := at_pos

omit [DecidableEq φ] in
theorem SameValid.trans (first : SameValid cache cache') (second : SameValid cache' cache'') : SameValid cache cache'' where
  old file pos d at_pos := by
    obtain ⟨at_pos',block,valid,size⟩ := first.old file pos d at_pos
    obtain ⟨at_pos'',block',valid',size'⟩ := second.old file pos d at_pos'
    exact ⟨at_pos'',block'.trans block,valid'.trans valid,size'.trans size⟩
  new file pos d at_pos valid := by
    have at_pos' := second.new file pos d at_pos valid
    exact first.new file pos d at_pos' ((second.old file pos d at_pos').2.2.1.symm.trans valid)

omit [DecidableEq φ] in
theorem same_entries_valid (same : SameEntries cache cache') : SameValid cache cache' where
  old file pos d at_pos := by
    rw [same.entries,same.dbds]
    exact ⟨at_pos,rfl,rfl,rfl⟩
  new file pos d at_pos _ := by
    rw [same.entries] at at_pos
    exact at_pos

omit [DecidableEq φ] in
/-- Descriptors that agree up to their buffers. -/
theorem same_tables_valid (tables : cache'.lv2 = cache.lv2) (dbds : ∀ d, (cache'.dbds d).block_id = (cache.dbds d).block_id ∧
    (cache'.dbds d).valid = (cache.dbds d).valid ∧ (cache'.dbds d).valid_size = (cache.dbds d).valid_size) :
    SameValid cache cache' := by
  have entries (file : φ) (pos : Mltt.fss_mltt_pos) : lv1_entry cache' file pos = lv1_entry cache file pos := by
    rw [lv1_entry,lv1_entry,tables]
  constructor
  · intro file pos d at_pos
    exact ⟨(entries file pos).trans at_pos,dbds d⟩
  · intro file pos d at_pos _
    exact (entries file pos).symm.trans at_pos

omit [DecidableEq φ] in
theorem give_buffer_valid (cache : Cache φ β) (who : Nat) : SameValid cache (give_buffer cache who).1 := by
  rcases Mltt.give_buffer_cases cache who with ⟨_,_,result⟩ | result | ⟨buffer,rest,_,_,result⟩
  · rw [result]
    exact SameValid.refl cache
  · rw [result]
    exact SameValid.refl cache
  · rw [result]
    refine same_tables_valid rfl ?_
    intro d
    obtain ⟨own,_,valid,size⟩ := Mltt.buffered_fields cache who buffer rest d
    exact ⟨own,valid,size⟩

theorem inserted_valid {file : φ} {block who : Nat} {rest : List Nat} {lv2 : Nat → Option (Nat → Option Nat)}
    {lv1 : Nat → Option Nat} (inv : Inv driver cache disk used) (root : cache.lv2 file = some lv2)
    (table : lv2 (calc_mltt_pos block).lv2 = some lv1) (vacant : lv1_entry cache file (calc_mltt_pos block) = none)
    (stack : cache.dbd_stack = who :: rest) : SameValid cache (inserted cache file block who rest) := by
  constructor
  · intro other pos d at_pos
    rw [Mltt.inserted_old (inv.not_next at_pos stack)]
    exact ⟨Mltt.inserted_at root table vacant at_pos,rfl,rfl,rfl⟩
  · intro other pos d at_pos valid
    rcases Mltt.inserted_cases inv root table stack at_pos with ⟨rfl,rfl,rfl⟩ | ⟨old,_⟩
    · rw [Mltt.inserted_new] at valid
      cases valid
    · exact old

theorem fss_dbd_get_valid {file : φ} {block : Nat} {memory2 memory1 : Bool} {got : Option Nat}
    (inv : Inv driver cache disk used) (ran : fss_dbd_get cache file block memory2 memory1 = some (cache',got)) :
    SameValid cache cache' := by
  obtain ⟨tables,same,ways⟩ := Mltt.fss_dbd_get_cases ran
  rcases ways with ⟨who,_,result⟩ | ⟨rfl,_⟩ | ⟨who,rest,lv2,lv1,root,table,vacant,stack,result⟩
  · have gave := give_buffer_valid tables who
    rw [result] at gave
    exact (same_entries_valid same).trans gave
  · exact same_entries_valid same
  · have gave := give_buffer_valid (inserted tables file block who rest) who
    rw [result] at gave
    exact ((same_entries_valid same).trans (inserted_valid (inv.same_entries same) root table vacant stack)).trans gave

end Valid

section Events
variable {φ β : Type} [DecidableEq φ] {history : List (Event φ β)} {e : Event φ β} {file : φ} {block : Nat}

/-! ### Events -/

omit [DecidableEq φ] in
theorem Event.Gives.asks (gives : e.Gives file block) : e.Asks file block := by
  cases e with
  | fRead who block_id answer => exact ⟨gives.1,gives.2.1⟩
  | returned call reply => exact gives.elim

theorem origin_snoc (history : List (Event φ β)) (e : Event φ β) (file : φ) (block : Nat) :
    origin (history ++ [e]) file block = (e.supplied file block).or (origin history file block) := by
  rw [origin,List.reverse_append,List.reverse_singleton,List.singleton_append,List.findSome?_cons]
  cases e.supplied file block <;> rfl

omit [DecidableEq φ] in
theorem exists_snoc_iff {Q : Event φ β → Prop} : (∃ x ∈ history ++ [e], Q x) ↔ (∃ x ∈ history, Q x) ∨ Q e := by
  simp only [List.mem_append,List.mem_singleton,or_and_right,exists_or,exists_eq_left]

omit [DecidableEq φ] in
theorem exists_snoc {Q : Event φ β → Prop} (not_last : ¬Q e) : (∃ x ∈ history ++ [e], Q x) ↔ ∃ x ∈ history, Q x :=
  exists_snoc_iff.trans (or_iff_left not_last)

/-- The driver is asked for no block twice. -/
def Once (history : List (Event φ β)) : Prop :=
  history.Pairwise (fun e e' => ∀ file block, e.Asks file block → ¬e'.Asks file block)

omit [DecidableEq φ] in
theorem Once.snoc (once : Once history) (new : ∀ file block, e.Asks file block → ¬∃ x ∈ history, x.Asks file block) :
    Once (history ++ [e]) := by
  refine List.pairwise_append.mpr ⟨once,List.pairwise_singleton ..,?_⟩
  intro x member last is_last file block asks asks'
  obtain rfl := List.mem_singleton.mp is_last
  exact new file block asks' ⟨x,member,asks⟩

omit [DecidableEq φ] in
theorem Once.unique {e' : Event φ β} (once : Once history) (member : e ∈ history) (member' : e' ∈ history)
    (asks : e.Asks file block) (asks' : e'.Asks file block) : e = e' := by
  have symm : Std.Symm (fun e e' : Event φ β => ∀ file block, e.Asks file block → ¬e'.Asks file block) :=
    ⟨fun _ _ apart file block asks' asks => apart file block asks asks'⟩
  by_contra other
  exact once.forall member member' other file block asks asks'

/-- What is owed to a call that returns after the history: a block that is taken for valid was asked for, and when that
    succeeded, a read has what the block was given last. -/
def Owed (history : List (Event φ β)) (call : Call φ β) (reply : Reply β) : Prop :=
  (reply.Served → ∃ e ∈ history, e.Asks call.who call.block) ∧
  ∀ buffer size, reply = .read buffer size → 0 ≤ size → (∃ e ∈ history, e.Gives call.who call.block) →
    origin history call.who call.block = some buffer

/-- Every call that returned had what it was owed. -/
def Paid (history : List (Event φ β)) : Prop :=
  ∀ before call reply after, history = before ++ .returned call reply :: after → Owed before call reply

theorem Paid.snoc (paid : Paid history) (owed : ∀ call reply, e = .returned call reply → Owed history call reply) :
    Paid (history ++ [e]) := by
  intro before call reply after split
  rcases List.eq_nil_or_concat after with rfl | ⟨after',last,rfl⟩
  · obtain ⟨rfl,same⟩ := List.append_inj' split rfl
    exact owed call reply (List.head_eq_of_cons_eq same)
  · have shape : history ++ [e] = (before ++ .returned call reply :: after') ++ [last] := by simpa using split
    exact paid before call reply after' (List.append_inj' shape rfl).1

theorem owed_failed (history : List (Event φ β)) (call : Call φ β) (error : Int) : Owed history call (.failed error) :=
  ⟨fun served => served.elim,fun _ _ same => by cases same⟩

end Events

section Sound
variable {φ β : Type} [DecidableEq φ] {driver : Mltt.Driver φ β} {cache cache' : Cache φ β} {disk : φ → Nat → β}
  {used : φ → Nat → Prop} {history : List (Event φ β)} {file : φ} {block d buffer : Nat}

/-! ### The invariant -/

/-- The cache after the history: the blocks that the driver was asked for are valid, each was asked for once, and what was
    given last to a block that was read is what its buffer has. -/
structure Sound (driver : Mltt.Driver φ β) (disk : φ → Nat → β) (used : φ → Nat → Prop) (cache : Cache φ β)
    (history : List (Event φ β)) : Prop where
  inv : Inv driver cache disk used
  asked : ∀ file block, (∃ e ∈ history, e.Asks file block) → ∃ d, lv1_entry cache file (calc_mltt_pos block) = some d ∧
    (cache.dbds d).block_id = block ∧ (cache.dbds d).valid = true
  once : Once history
  valid : ∀ file pos d, lv1_entry cache file pos = some d → (cache.dbds d).valid = true →
    ∃ e ∈ history, e.Asks file (cache.dbds d).block_id
  last : ∀ file pos d, lv1_entry cache file pos = some d → (cache.dbds d).valid = true →
    (∃ e ∈ history, e.Gives file (cache.dbds d).block_id) → 0 ≤ ssize (cache.dbds d).valid_size →
    origin history file (cache.dbds d).block_id = some (disk file (cache.dbds d).block_id)
  paid : Paid history

theorem Sound.same_valid (sound : Sound driver disk used cache history) (inv : Inv driver cache' disk used)
    (same : SameValid cache cache') : Sound driver disk used cache' history := by
  refine ⟨inv,?_,sound.once,?_,?_,sound.paid⟩
  · intro file block asks
    obtain ⟨d,at_pos,own,valid⟩ := sound.asked file block asks
    obtain ⟨at_pos',own',valid',_⟩ := same.old _ _ d at_pos
    exact ⟨d,at_pos',own'.trans own,valid'.trans valid⟩
  · intro file pos d at_pos valid
    have at_pos' := same.new _ _ d at_pos valid
    obtain ⟨_,own,valid',_⟩ := same.old _ _ d at_pos'
    rw [own]
    exact sound.valid file pos d at_pos' (valid'.symm.trans valid)
  · intro file pos d at_pos valid
    have at_pos' := same.new _ _ d at_pos valid
    obtain ⟨_,own,valid',size⟩ := same.old _ _ d at_pos'
    rw [own,size]
    exact sound.last file pos d at_pos' (valid'.symm.trans valid)

/-- A call returns without giving its block contents. -/
theorem Sound.returned {call : Call φ β} {reply : Reply β} (sound : Sound driver disk used cache history)
    (owed : Owed history call reply) (nothing : ∀ size, reply ≠ .written size) :
    Sound driver disk used cache (history ++ [.returned call reply]) := by
  have supplied (file : φ) (block : Nat) : (Event.returned call reply).supplied file block = none := by
    cases reply with
    | failed error => rfl
    | read buffer size => rfl
    | written size => exact absurd rfl (nothing size)
  refine ⟨sound.inv,?_,sound.once.snoc (fun _ _ asks => asks.elim),?_,?_,sound.paid.snoc ?_⟩
  · intro file block asks
    exact sound.asked file block ((exists_snoc id).mp asks)
  · intro file pos d at_pos valid
    exact (exists_snoc id).mpr (sound.valid file pos d at_pos valid)
  · intro file pos d at_pos valid gives
    rw [origin_snoc,supplied,Option.none_or]
    exact sound.last file pos d at_pos valid ((exists_snoc id).mp gives)
  · intro call' reply' is
    cases is
    exact owed

omit [DecidableEq φ] in
/-- The descriptors of other blocks are other ones. -/
theorem Inv.elsewhere {file' : φ} {pos : Mltt.fss_mltt_pos} {d' : Nat} (inv : Inv driver cache disk used)
    (at_pos : lv1_entry cache file (calc_mltt_pos block) = some d) (at_pos' : lv1_entry cache file' pos = some d')
    (other : d' ≠ d) : ¬(file = file' ∧ block = (cache.dbds d').block_id) := by
  rintro ⟨rfl,same⟩
  obtain ⟨_,place,_⟩ := inv.owned file pos d' at_pos'
  rw [← same] at place
  rw [← place,at_pos] at at_pos'
  exact other (Option.some.inj at_pos').symm

/-- Up to the contents of the buffers, nothing changes but the descriptor `d`, which becomes `dbd`. -/
structure Filled (cache cache' : Cache φ β) (d : Nat) (dbd : Dbd φ) : Prop where
  entries : ∀ file pos, lv1_entry cache' file pos = lv1_entry cache file pos
  this : cache'.dbds d = dbd
  others : ∀ d', d' ≠ d → cache'.dbds d' = cache.dbds d'

omit [DecidableEq φ] in
/-- An entry is that of the changed descriptor, or has another one with another block. -/
theorem Filled.entry {file' : φ} {pos : Mltt.fss_mltt_pos} {d' : Nat} {dbd : Dbd φ} (filled : Filled cache cache' d dbd)
    (inv : Inv driver cache disk used) (at_pos : lv1_entry cache file (calc_mltt_pos block) = some d)
    (at_pos' : lv1_entry cache' file' pos = some d') :
    (d' = d ∧ file' = file ∧ cache'.dbds d' = dbd) ∨
    (d' ≠ d ∧ lv1_entry cache file' pos = some d' ∧ cache'.dbds d' = cache.dbds d' ∧
      ¬(file = file' ∧ block = (cache.dbds d').block_id)) := by
  rw [filled.entries] at at_pos'
  by_cases other : d' = d
  · subst other
    exact .inl ⟨rfl,(inv.entry_unique at_pos at_pos').1.symm,filled.this⟩
  · exact .inr ⟨other,at_pos',filled.others d' other,Inv.elsewhere inv at_pos at_pos' other⟩

/-- A block that is not valid is read, and the driver succeeds or fails. -/
theorem Sound.fetch {answer : Answer β} {dbd : Dbd φ} (sound : Sound driver disk used cache history)
    (at_pos : lv1_entry cache file (calc_mltt_pos block) = some d) (invalid : (cache.dbds d).valid = false)
    (inv : Inv driver cache' (setBlock disk file block answer.data) used) (filled : Filled cache cache' d dbd)
    (own : dbd.block_id = block) (valid : dbd.valid = true) :
    Sound driver (setBlock disk file block answer.data) used cache' (history ++ [.fRead file block answer]) := by
  have first : ¬∃ e ∈ history, e.Asks file block := by
    intro asks
    obtain ⟨d',at_pos',_,valid'⟩ := sound.asked file block asks
    rw [at_pos] at at_pos'
    obtain rfl := Option.some.inj at_pos'
    rw [invalid] at valid'
    cases valid'
  have new : Once (history ++ [.fRead file block answer]) := sound.once.snoc (by
    rintro file' block' ⟨rfl,rfl⟩
    exact first)
  refine ⟨inv,?_,new,?_,?_,sound.paid.snoc (fun _ _ same => by cases same)⟩
  · intro file' block' asked
    rcases exists_snoc_iff.mp asked with old | ⟨rfl,rfl⟩
    · obtain ⟨d',at_pos',own',valid'⟩ := sound.asked file' block' old
      have other : d' ≠ d := by
        rintro rfl
        rw [invalid] at valid'
        cases valid'
      refine ⟨d',(filled.entries _ _).trans at_pos',?_⟩
      rw [filled.others d' other]
      exact ⟨own',valid'⟩
    · refine ⟨d,(filled.entries _ _).trans at_pos,?_⟩
      rw [filled.this]
      exact ⟨own,valid⟩
  · intro file' pos d' at_pos' valid'
    rcases filled.entry sound.inv at_pos at_pos' with ⟨rfl,rfl,this⟩ | ⟨_,before,same,_⟩
    · rw [this]
      exact exists_snoc_iff.mpr (.inr ⟨rfl,own.symm⟩)
    · rw [same] at valid' ⊢
      exact exists_snoc_iff.mpr (.inl (sound.valid file' pos d' before valid'))
  · intro file' pos d' at_pos' valid'
    rcases filled.entry sound.inv at_pos at_pos' with ⟨rfl,rfl,this⟩ | ⟨_,before,same,apart⟩
    · rw [this,own]
      intro given _
      rcases exists_snoc_iff.mp given with ⟨e,old,gives⟩ | ⟨_,_,good⟩
      · exact absurd ⟨e,old,gives.asks⟩ first
      · rw [origin_snoc,Event.supplied,if_pos ⟨rfl,rfl,good⟩,setBlock,if_pos ⟨rfl,rfl⟩]
        rfl
    · rw [same] at valid' ⊢
      intro given size
      have old := (exists_snoc (fun gives => apart ⟨gives.1,gives.2.1⟩)).mp given
      rw [origin_snoc,Event.supplied,if_neg (fun here => apart ⟨here.1,here.2.1⟩),setBlock,
        if_neg (fun here => apart ⟨here.1.symm,here.2.symm⟩),Option.none_or]
      exact sound.last file' pos d' before valid' old size

/-- A valid block is written as a whole. -/
theorem Sound.write {call : Call φ β} {data : β} {dbd : Dbd φ} (sound : Sound driver disk used cache history)
    (at_pos : lv1_entry cache call.who (calc_mltt_pos call.block) = some d) (own : (cache.dbds d).block_id = call.block)
    (is_data : call.data = some data) (owed : Owed history call (.written (ssize (cache.dbds d).valid_size)))
    (inv : Inv driver cache' (setBlock disk call.who call.block data) used) (filled : Filled cache cache' d dbd)
    (same_block : dbd.block_id = (cache.dbds d).block_id) (same_valid : dbd.valid = (cache.dbds d).valid)
    (same_size : dbd.valid_size = (cache.dbds d).valid_size) :
    Sound driver (setBlock disk call.who call.block data) used cache'
      (history ++ [.returned call (.written (ssize (cache.dbds d).valid_size))]) := by
  have block_valid (d' : Nat) : (cache'.dbds d').block_id = (cache.dbds d').block_id ∧
      (cache'.dbds d').valid = (cache.dbds d').valid := by
    by_cases other : d' = d
    · rw [other,filled.this]
      exact ⟨same_block,same_valid⟩
    · rw [filled.others d' other]
      exact ⟨rfl,rfl⟩
  refine ⟨inv,?_,sound.once.snoc (fun _ _ asks => asks.elim),?_,?_,sound.paid.snoc ?_⟩
  · intro file' block' asks
    obtain ⟨d',at_pos',own',valid'⟩ := sound.asked file' block' ((exists_snoc id).mp asks)
    obtain ⟨block,valid⟩ := block_valid d'
    exact ⟨d',(filled.entries _ _).trans at_pos',block.trans own',valid.trans valid'⟩
  · intro file' pos d' at_pos' valid'
    rw [filled.entries] at at_pos'
    obtain ⟨block,valid⟩ := block_valid d'
    rw [block]
    exact (exists_snoc id).mpr (sound.valid file' pos d' at_pos' (valid.symm.trans valid'))
  · intro file' pos d' at_pos' valid' gives size
    obtain ⟨block,valid⟩ := block_valid d'
    rw [block] at gives ⊢
    rcases filled.entry sound.inv at_pos at_pos' with ⟨rfl,rfl,this⟩ | ⟨_,before,same,apart⟩
    · rw [this,same_size] at size
      rw [own,origin_snoc,Event.supplied,if_pos ⟨rfl,rfl,size⟩,is_data,setBlock,if_pos ⟨rfl,rfl⟩]
      rfl
    · rw [same] at size
      rw [origin_snoc,Event.supplied,if_neg (fun here => apart ⟨here.1,here.2.1⟩),setBlock,
        if_neg (fun here => apart ⟨here.1.symm,here.2.symm⟩),Option.none_or]
      exact sound.last file' pos d' before (valid.symm.trans valid') ((exists_snoc id).mp gives) size
  · intro call' reply' is
    cases is
    exact owed

/-! ### Calls -/

theorem fss_dbd_make_valid_sound {call : Call φ β} {ret : Int} {asked : List (Event φ β)}
    (sound : Sound driver disk used cache history)
    (at_pos : lv1_entry cache call.who (calc_mltt_pos call.block) = some d) (own : (cache.dbds d).block_id = call.block)
    (has : (cache.dbds d).buffer = some buffer) (made : fss_dbd_make_valid cache call d = (cache',ret,asked)) :
    ∃ disk', Sound driver disk' used cache' (history ++ asked) ∧ (0 ≤ ret →
      lv1_entry cache' call.who (calc_mltt_pos call.block) = some d ∧ (cache'.dbds d).block_id = call.block ∧
      (cache'.dbds d).buffer = some buffer ∧ (cache'.dbds d).valid = true) := by
  rw [fss_dbd_make_valid] at made
  split at made
  · rename_i valid
    cases made
    rw [List.append_nil]
    exact ⟨disk,sound,fun _ => ⟨at_pos,own,has,valid⟩⟩
  · rename_i invalid
    rw [Bool.not_eq_true] at invalid
    split at made
    · cases made
      rw [List.append_nil]
      exact ⟨disk,sound,fun good => absurd good (by decide)⟩
    · rw [has,own] at made
      cases made
      have this := Function.update_self d { cache.dbds d with
        block_id := call.block, buffer := some buffer, valid_size := call.answer.size, valid := true } cache.dbds
      refine ⟨_,sound.fetch at_pos invalid (sound.inv.fill at_pos own has rfl rfl rfl rfl)
        ⟨fun _ _ => rfl,this,fun d' other => Function.update_of_ne other _ _⟩ rfl rfl,fun _ => ⟨at_pos,?_,?_,?_⟩⟩
      · exact congrArg Dbd.block_id this
      · exact congrArg Dbd.buffer this
      · exact congrArg Dbd.valid this

theorem fss_block_io_sound {call : Call φ β} {events : List (Event φ β)} (sound : Sound driver disk used cache history)
    (is_used : used call.who call.block)
    (alone : ∀ b, used call.who b → b % 16777216 = call.block % 16777216 → b = call.block)
    (ran : fss_block_io cache call = some (cache',events)) :
    ∃ disk', Sound driver disk' used cache' (history ++ events) := by
  rw [fss_block_io] at ran
  split at ran
  · cases ran
  · rename_i cache₁ got
    cases ran
    obtain ⟨inv,_,_⟩ := Mltt.fss_dbd_get_spec sound.inv is_used alone got
    have sound₁ := sound.same_valid inv (fss_dbd_get_valid sound.inv got)
    exact ⟨disk,sound₁.returned (owed_failed ..) (fun _ same => by cases same)⟩
  · rename_i cache₁ d got
    obtain ⟨inv,_,found⟩ := Mltt.fss_dbd_get_spec sound.inv is_used alone got
    obtain ⟨at_pos₁,own₁,_,buffer,has₁⟩ := found d rfl
    have sound₁ := sound.same_valid inv (fss_dbd_get_valid sound.inv got)
    split at ran
    rename_i cache₂ ret asked made
    obtain ⟨disk₂,sound₂,good⟩ := fss_dbd_make_valid_sound sound₁ at_pos₁ own₁ has₁ made
    split at ran
    · cases ran
      rw [← List.append_assoc]
      exact ⟨disk₂,sound₂.returned (owed_failed ..) (fun _ same => by cases same)⟩
    · rename_i positive
      obtain ⟨at_pos,own,has,valid⟩ := good (Int.not_lt.mp positive)
      have asked_for : ∃ e ∈ history ++ asked, e.Asks call.who call.block := by
        have there := sound₂.valid _ _ d at_pos valid
        rw [own] at there
        exact there
      rw [has] at ran
      cases is_data : call.data with
      | none =>
        rw [is_data] at ran
        cases ran
        rw [← List.append_assoc]
        refine ⟨disk₂,sound₂.returned ⟨fun _ => asked_for,?_⟩ (fun _ same => by cases same)⟩
        intro copied size same positive' gives
        cases same
        obtain ⟨b,has',contents⟩ := sound₂.inv.valid _ _ d at_pos valid
        rw [has] at has'
        obtain rfl := Option.some.inj has'
        have last := sound₂.last _ _ d at_pos valid (by rw [own]; exact gives) positive'
        rw [own] at last contents
        rw [last,contents]
      | some data =>
        rw [is_data] at ran
        cases ran
        rw [← List.append_assoc]
        have this := Function.update_self d { cache₂.dbds d with dirty := true } cache₂.dbds
        refine ⟨_,sound₂.write at_pos own is_data ⟨fun _ => asked_for,fun _ _ same => by cases same⟩ ?_
          ⟨fun _ _ => rfl,this,fun d' other => Function.update_of_ne other _ _⟩ rfl rfl rfl⟩
        exact sound₂.inv.fill at_pos own has rfl own has valid

/-! ### Runs -/

theorem init_sound (driver : Mltt.Driver φ β) (dbds : Nat → Dbd φ) (buffers : Nat → β) (used : φ → Nat → Prop) :
    Sound driver (fun file block => (driver.fRead file block).1) used (Mltt.fss_db_init dbds buffers) [] where
  inv := Mltt.init_inv driver dbds buffers used
  asked _ _ asks := by simp at asks
  once := List.Pairwise.nil
  valid _ _ _ at_pos := by cases at_pos
  last _ _ _ at_pos := by cases at_pos
  paid before _ _ _ split := by simp at split

theorem run_sound {all : List (Mltt.Call φ β)} (tame : Tame all) : ∀ {calls : List (Call φ β)} {cache : Cache φ β}
    {disk : φ → Nat → β} {history events : List (Event φ β)}, (∀ call ∈ calls, call.toCall ∈ all) →
    Sound driver disk (usedBy all) cache history → run cache calls = some (cache',events) →
    ∃ disk', Sound driver disk' (usedBy all) cache' (history ++ events) := by
  intro calls
  induction calls with
  | nil =>
    intro cache disk history events _ sound ran
    cases ran
    rw [List.append_nil]
    exact ⟨disk,sound⟩
  | cons call calls ih =>
    intro cache disk history events within sound ran
    rw [run] at ran
    split at ran
    · cases ran
    rename_i next made io
    obtain ⟨⟨last,rest⟩,ran_rest,pair⟩ := Option.map_eq_some_iff.mp ran
    cases pair
    have is_used : usedBy all call.who call.block := ⟨call.toCall,within call List.mem_cons_self,rfl,rfl⟩
    obtain ⟨disk',sound'⟩ := fss_block_io_sound sound is_used (Mltt.usedBy_alone tame is_used) io
    rw [← List.append_assoc]
    exact ih (fun c member => within c (List.mem_cons_of_mem _ member)) sound' ran_rest

omit [DecidableEq φ] in
/-- While the driver fails no read, what is asked for is given. -/
theorem NoneFails.gives {e : Event φ β} (none_fails : NoneFails history) (member : e ∈ history) (asks : e.Asks file block) :
    e.Gives file block := by
  cases e with
  | fRead who block_id answer => exact ⟨asks.1,asks.2,none_fails who block_id answer member⟩
  | returned call reply => exact asks.elim

theorem Sound.only_good (sound : Sound driver disk used cache history) : OnlyGood cache history ↔ NoneFails history := by
  constructor
  · intro good who block_id answer member
    -- the block is valid now, and was asked for only once
    obtain ⟨d,at_pos,own,valid⟩ := sound.asked who block_id ⟨_,member,rfl,rfl⟩
    obtain ⟨e,member',gives⟩ := good.valid who _ d at_pos valid
    rw [own] at gives
    rw [sound.once.unique member' member gives.asks ⟨rfl,rfl⟩] at gives
    exact gives.2.2
  · intro none_fails
    refine ⟨?_,?_,?_⟩
    · intro file pos d at_pos valid
      obtain ⟨e,member,asks⟩ := sound.valid file pos d at_pos valid
      exact ⟨e,member,none_fails.gives member asks⟩
    · rintro before call reply after rfl served
      obtain ⟨e,member,asks⟩ := (sound.paid before call reply after rfl).1 served
      exact ⟨e,member,none_fails.gives (List.mem_append_left _ member) asks⟩
    · rintro before call buffer size after rfl positive
      have owed := sound.paid before call _ after rfl
      obtain ⟨e,member,asks⟩ := owed.1 trivial
      exact owed.2 buffer size rfl positive ⟨e,member,none_fails.gives (List.mem_append_left _ member) asks⟩

/-- In every state of a run whose calls use no two block numbers of a file that agree modulo 2^24, only what was read or
    written with success is taken for valid exactly when the driver has failed no read. -/
theorem only_good_iff (dbds : Nat → Dbd φ) (buffers : Nat → β) (calls : List (Call φ β)) (cache : Cache φ β)
    (history : List (Event φ β)) (tame : Tame (calls.map Call.toCall))
    (ran : run (Mltt.fss_db_init dbds buffers) calls = some (cache,history)) :
    OnlyGood cache history ↔ NoneFails history := by
  have sound := init_sound ⟨fun _ => true,fun _ _ => (buffers 0,0)⟩ dbds buffers (usedBy (calls.map Call.toCall))
  obtain ⟨disk,sound'⟩ := run_sound tame (fun call member => List.mem_map_of_mem member) sound ran
  exact sound'.only_good

end Sound

/-- A call for block 3 of the only file, which is open; `fRead` returns `ret` and leaves `data` in the buffer. -/
def for_block (written : Option Nat) (ret : Int) (data : Nat) : Call Unit Nat where
  who := ()
  block := 3
  data := written
  memory2 := true
  memory1 := true
  opened := true
  answer := ⟨ret,data,512⟩

/-- The block is written and read back. -/
theorem only_good_iff_read_back : ∃ cache history,
    run (Mltt.fss_db_init (fun _ => Mltt.fresh_dbd ()) (fun _ => 0)) [for_block (some 7) 0 1,for_block none 0 2] =
      some (cache,history) ∧
    history = [.fRead () 3 ⟨0,1,512⟩,.returned (for_block (some 7) 0 1) (.written 512),
      .returned (for_block none 0 2) (.read 7 512)] ∧ (OnlyGood cache history ↔ NoneFails history) := by
  obtain ⟨cache,history,ran,events⟩ : ∃ cache history,
      run (Mltt.fss_db_init (fun _ => Mltt.fresh_dbd ()) (fun _ => 0)) [for_block (some 7) 0 1,for_block none 0 2] =
        some (cache,history) ∧
      history = [.fRead () 3 ⟨0,1,512⟩,.returned (for_block (some 7) 0 1) (.written 512),
        .returned (for_block none 0 2) (.read 7 512)] := ⟨_,_,rfl,rfl⟩
  refine ⟨cache,history,ran,events,only_good_iff _ _ _ cache history ?_ ran⟩
  simp [Tame,for_block]

/-- The driver fails the read of the block, and the next read returns what it left in the buffer. -/
theorem failed_read_cached : ∃ cache history,
    run (Mltt.fss_db_init (fun _ => Mltt.fresh_dbd ()) (fun _ => 0)) [for_block none (-5) 9,for_block none 0 8] =
      some (cache,history) ∧
    history = [.fRead () 3 ⟨-5,9,512⟩,.returned (for_block none (-5) 9) (.failed (-5)),
      .returned (for_block none 0 8) (.read 9 512)] ∧ ¬OnlyGood cache history := by
  refine ⟨_,_,rfl,rfl,?_⟩
  intro good
  have wrong := good.read [.fRead () 3 ⟨-5,9,512⟩,.returned (for_block none (-5) 9) (.failed (-5))] (for_block none 0 8) 9 512 []
    rfl (by decide)
  exact absurd wrong (by decide)

end GridOS.MlttReads
