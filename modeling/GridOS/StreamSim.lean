import GridOS.StreamErrors

/-!
The streams over byte files are the ones in front of system calls that never fail: with the reads answered from the disk, every
operation, and every run of them, does the same to the blocks and the streams and returns the same.
-/
namespace GridOS.StreamSim
open StreamFile (BUF_BLOCK_SIZE BUF_BLOCK_NUM BUF_BLOCK_ID BUF_BLOCK_OFFSET as_uoffset)
open StreamIo (Io Read Copy)
open Rounds

/-! ### The two models side by side -/

section Statement
variable {σ φ : Type} [DecidableEq σ] [DecidableEq φ]

/-- A block of the pool in both models; the memory behind it is left out. -/
structure SameBlock (block : StreamFile.buffer_block σ) (block' : StreamIo.buffer_block σ) : Prop where
  valid_size : (block'.valid_size : Nat) = block.valid_size
  pre_id : block'.pre_id.toNat = block.pre_id
  access_count : block'.access_count = block.access_count
  valid : block'.valid = block.valid
  dirty : block'.dirty = block.dirty
  busy : block'.busy = block.busy
  base : ∀ k < BUF_BLOCK_SIZE, block'.base k = block.base k
  file : block'.file = block.file

structure SameStream (file : StreamFile.stdio_file φ) (file' : StreamIo.stdio_file) : Prop where
  access : file'.access = file.access
  append : file'.append = file.append
  block : file'.block = file.block
  pos : file'.pos.toNat = file.pos
  size : file'.size.toNat = file.size

/-- The same state in both models; the size of a file is a `uoffset`. -/
structure Same (s : StreamFile.State σ φ) (s' : StreamIo.State σ) : Prop where
  block : ∀ b, SameBlock (s.buffer_pool b) (s'.buffer_pool b)
  stream : ∀ i, SameStream (s.stream i) (s'.stream i)
  freed : s'.freed = s.freed
  disk : ∀ f, (s.disk f).size < 2^64

/-- No write fails, and no read leaves `EIO`. -/
def Kind (io : Io) : Prop := ∀ n, 0 ≤ io.write n ∧ io.eio n = false

/-- The reads from the one with the number `n` on are answered so. -/
def Plays (io : Io) : Nat → List Read → Prop
  | _, [] => True
  | n, req :: reqs => (∀ pos, io.read n pos = req) ∧ Plays io (n+1) reqs

/-- The bytes that the copies put into the buffer of the caller. -/
def bytes (buf : List Copy) : List UInt8 :=
  buf.flatMap (fun c => (List.range c.len).map (fun k => c.base (c.offset + k)))

/-- No copy goes on behind its block. -/
def Inside (buf : List Copy) : Prop := ∀ c ∈ buf, c.offset + c.len ≤ BUF_BLOCK_SIZE

/-- The copies are of these bytes, as far as they are bytes of blocks. -/
def Carries (copies : List Copy) (buf : List UInt8) : Prop := Inside copies → bytes copies = buf

/-- The same result, with the same bytes. -/
def Answered (answer : StreamFile.Answer) (result : Int × List Copy) : Prop :=
  result.1 = answer.ret ∧ Carries result.2 answer.buf

/-- An operation in front of system calls, with one round more than it moves bytes. -/
def call (io : Io) (s : StreamIo.State σ) : StreamFile.Op σ → Option (StreamIo.State σ × Int × List Copy)
  | .fread i n_bytes => StreamIo.stdio_fread io (n_bytes+1) s i (BitVec.ofNat 32 n_bytes)
  | .fwrite i buf => (StreamIo.stdio_fwrite io (buf.length+1) s i (BitVec.ofNat 32 buf.length) (fun k => buf.getD k 0)).map
      (fun (s,ret) => (s,ret,[]))
  | .fseek i offset whence => match StreamIo.stdio_fseek io s i (BitVec.ofInt 64 offset) whence with
    | (s,ret) => some (s,ret,[])
  | .fclose i => (StreamIo.stdio_fclose io s i).map (fun (s,ret) => (s,ret,[]))

def calls (io : Io) : StreamIo.State σ → List (StreamFile.Op σ) → Option (StreamIo.State σ × List (Int × List Copy))
  | s, [] => some (s,[])
  | s, op :: ops => do
    let (s,result) ← call io s op
    let (s,results) ← calls io s ops
    return (s,result :: results)

/-- The numbers of bytes are values of an `ssize_t`, and the positions they lead to are values of a `uoffset`. -/
def Fits (s : StreamFile.State σ φ) : StreamFile.Op σ → Prop
  | .fread i n_bytes => n_bytes < 2^31 ∧ (s.stream i).pos + n_bytes < 2^64
  | .fwrite i buf => buf.length < 2^31 ∧
    (if (s.stream i).append then (s.stream i).size else (s.stream i).pos) + buf.length < 2^64
  | .fseek _ _ _ => True
  | .fclose _ => True

/-- Every operation of a run fits where it begins. -/
def RunFits : StreamFile.State σ φ → List (StreamFile.Op σ) → Prop
  | _, [] => True
  | s, op :: ops => Fits s op ∧ ∀ s' answer, StreamFile.step s op = some (s',answer) → RunFits s' ops

end Statement

/-! ### What both models do alike -/

section Plays
variable {io : Io} {n : Nat}

theorem plays_append (first second : List Read) :
    Plays io n (first ++ second) ↔ Plays io n first ∧ Plays io (n + first.length) second := by
  induction first generalizing n with
  | nil => simp [Plays]
  | cons req reqs ih =>
    have later : n + 1 + reqs.length = n + (req :: reqs).length := by
      rw [List.length_cons]
      omega
    simp only [List.cons_append,Plays,ih,later,and_assoc]

/-- Any answers are those of some system calls that never fail. -/
theorem exists_plays (answers : List Read) (n : Nat) : ∃ io, Kind io ∧ Plays io n answers := by
  have nothing : Read := ⟨0,by decide,0,fun _ => 0⟩
  suffices plays : ∀ before after : List Read, Plays ⟨fun k _ => (before ++ after).getD (k - n) nothing,fun _ => 0,fun _ => false⟩
      (n + before.length) after from
    ⟨_,fun _ => ⟨le_refl 0,rfl⟩,plays [] answers⟩
  intro before after
  induction after generalizing before with
  | nil => trivial
  | cons req reqs ih =>
    refine ⟨fun _ => ?_,?_⟩
    · simp
    · have next := ih (before ++ [req])
      simpa [Nat.add_assoc] using next

end Plays

section Alike
variable {σ φ : Type} {s : StreamFile.State σ φ} {s' : StreamIo.State σ} {b : Fin BUF_BLOCK_NUM} {i : σ}

theorem Same.setBlock {block : StreamFile.buffer_block σ} {block' : StreamIo.buffer_block σ} (same : Same s s')
    (alike : SameBlock block block') : Same (StreamFile.setBlock s b block) (StreamIo.setBlock s' b block') := by
  refine ⟨fun c => ?_,same.stream,same.freed,same.disk⟩
  by_cases this : c = b
  · subst this
    simpa using alike
  · simpa [this] using same.block c

theorem put_same (same : Same s s') : Same (StreamFile.put_buffer_block s b) (StreamIo.put_buffer_block s' b) :=
  same.setBlock { same.block b with busy := rfl }

theorem mix_index_same (same : Same s s') : StreamIo.mix_index s' = StreamFile.mix_index s := by
  simp only [StreamIo.mix_index,StreamFile.mix_index,(same.block _).access_count]

theorem get_free_same (same : Same s s') : StreamIo.get_free_buffer_block s' = StreamFile.get_free_buffer_block s := by
  simp only [StreamIo.get_free_buffer_block,StreamFile.get_free_buffer_block,(same.block _).file]

variable [DecidableEq σ]

theorem Same.setStream {file : StreamFile.stdio_file φ} {file' : StreamIo.stdio_file} (same : Same s s')
    (alike : SameStream file file') : Same (StreamFile.setStream s i file) (StreamIo.setStream s' i file') := by
  refine ⟨same.block,fun j => ?_,same.freed,same.disk⟩
  by_cases this : j = i
  · subst this
    simpa using alike
  · simpa [this] using same.stream j

theorem release_same (same : Same s s') : Same (StreamFile.release s i b) (StreamIo.release s' i b) := by
  have moved : SameStream { s.stream i with block := none } { s'.stream i with block := none } :=
    { same.stream i with block := rfl }
  exact (same.setStream moved).setBlock ⟨rfl,rfl,rfl,rfl,rfl,rfl,(same.block b).base,rfl⟩

theorem assign_same (same : Same s s') : Same (StreamFile.assign s i b) (StreamIo.assign s' i b) := by
  have moved : SameStream { s.stream i with block := some b } { s'.stream i with block := some b } :=
    { same.stream i with block := rfl }
  refine (same.setStream moved).setBlock ?_
  exact { same.block b with file := rfl, busy := rfl, access_count := congrArg (· + 1) (same.block b).access_count }

end Alike

section Pool
variable {σ φ : Type} [DecidableEq φ] {s s₁ : StreamFile.State σ φ} {s' : StreamIo.State σ} {io : Io}
  {b : Fin BUF_BLOCK_NUM} {i : σ}

theorem write_not_fails (kind : Kind io) (s' : StreamIo.State σ) : StreamIo.WriteFails io s' = false :=
  StreamErrors.writeFails_iff.mpr (kind _).1

theorem update_dirty_disk (f : φ) : ((StreamFile.update_dirty_buffer_block s i b).disk f).size = (s.disk f).size := by
  have written : ∀ (s : StreamFile.State σ φ) handle buffer pos,
      ((StreamFile.sys_write s handle buffer pos).disk f).size = (s.disk f).size := by
    intro s handle buffer pos
    by_cases this : f = handle
    · subst this
      simp [StreamFile.sys_write]
    · simp [StreamFile.sys_write,this]
  rw [StreamFile.update_dirty_buffer_block]
  split
  · rfl
  · simp only [StreamFile.append_stream_file,StreamFile.setBlock]
    split <;> exact written ..

theorem update_dirty_same (kind : Kind io) (same : Same s s') :
    Same (StreamFile.update_dirty_buffer_block s i b) (StreamIo.update_dirty_buffer_block io s' i b).1 := by
  refine ⟨fun c => ?_,fun j => ?_,?_,fun f => ?_⟩
  · rw [StreamFile.update_dirty_pool,StreamIo.update_dirty_pool,write_not_fails kind,Bool.and_false]
    by_cases this : c = b
    · subst this
      simp only [Function.update_self]
      exact { same.block c with dirty := rfl }
    · simpa [this] using same.block c
  · rw [StreamFile.update_dirty_stream,StreamIo.update_dirty_stream]
    exact same.stream j
  · rw [StreamFile.update_dirty_freed,StreamIo.update_dirty_state]
    exact same.freed
  · rw [update_dirty_disk]
    exact same.disk f

theorem update_dirty_succeeds (kind : Kind io) : (StreamIo.update_dirty_buffer_block io s' i b).2 = true := by
  cases dirty : (s'.buffer_pool b).dirty with
  | false => rw [StreamIo.update_dirty_clean dirty]
  | true =>
    rw [StreamIo.update_dirty_write dirty,write_not_fails kind]
    rfl

variable [DecidableEq σ]

theorem swap_out_same (kind : Kind io) (same : Same s s') (done : StreamFile.swap_out_buffer_block s b = some s₁) :
    ∃ s₁', StreamIo.swap_out_buffer_block io s' b = some (s₁',true) ∧ Same s₁ s₁' ∧ s₁'.reads = s'.reads := by
  unfold StreamFile.swap_out_buffer_block at done
  cases owner : (s.buffer_pool b).file with
  | none => simp [owner] at done
  | some i =>
    cases block : (s.stream i).block with
    | none => simp [owner,block] at done
    | some c =>
      simp only [owner,block,Option.bind_eq_bind,Option.bind_some,Option.pure_def,Option.some.injEq] at done
      subst done
      refine ⟨StreamIo.release (StreamIo.update_dirty_buffer_block io s' i c).1 i b,?_,
        release_same (update_dirty_same kind same),by simp [StreamIo.release]⟩
      simp [StreamIo.swap_out_buffer_block,(same.block b).file,(same.stream i).block,owner,block,update_dirty_succeeds kind]

theorem get_buffer_same (kind : Kind io) (same : Same s s') (got : StreamFile.get_buffer_block s i = some (s₁,b)) :
    ∃ s₁', StreamIo.get_buffer_block io s' i = some (s₁',b) ∧ Same s₁ s₁' ∧ s₁'.reads = s'.reads := by
  unfold StreamFile.get_buffer_block at got
  cases free : StreamFile.get_free_buffer_block s with
  | some c =>
    simp only [free,Option.some.injEq,Prod.mk.injEq] at got
    obtain ⟨rfl,rfl⟩ := got
    refine ⟨StreamIo.assign s' i c,?_,assign_same same,by simp [StreamIo.assign]⟩
    simp [StreamIo.get_buffer_block,get_free_same same,free]
  | none =>
    simp only [free,StreamFile.get_rebirth_buffer_block] at got
    by_cases busy : (s.buffer_pool (StreamFile.mix_index s)).busy = true
    · simp [busy] at got
    · simp only [busy,Bool.false_eq_true,if_false,Option.map_eq_some_iff,Prod.mk.injEq] at got
      obtain ⟨_,⟨s₂,swapped,rfl⟩,rfl,rfl⟩ := got
      obtain ⟨s₂',swapped',alike,reads⟩ := swap_out_same kind same swapped
      refine ⟨StreamIo.assign s₂' i (StreamFile.mix_index s),?_,assign_same alike,by simpa [StreamIo.assign] using reads⟩
      simp [StreamIo.get_buffer_block,get_free_same same,free,StreamIo.get_rebirth_buffer_block,mix_index_same same,
        (same.block _).busy,busy,swapped']

theorem with_block_same (kind : Kind io) (same : Same s s') (got : StreamFile.with_block s i = some (s₁,b)) :
    ∃ s₁', StreamIo.with_block io s' i = some (s₁',b) ∧ Same s₁ s₁' ∧ s₁'.reads = s'.reads := by
  unfold StreamFile.with_block at got
  cases block : (s.stream i).block with
  | some c =>
    simp only [block,Option.some.injEq,Prod.mk.injEq] at got
    obtain ⟨rfl,rfl⟩ := got
    exact ⟨s',by simp [StreamIo.with_block,(same.stream i).block,block],same,rfl⟩
  | none =>
    simp only [block] at got
    obtain ⟨s₁',got',alike,reads⟩ := get_buffer_same kind same got
    exact ⟨s₁',by simpa [StreamIo.with_block,(same.stream i).block,block] using got',alike,reads⟩

end Pool

/-! ### Reads from the disk -/

/-- The answer of a disk file to a read of the block in which the position is. -/
def from_disk (disk : StreamFile.disk_file) (pos : Nat) : Read where
  result := (min BUF_BLOCK_SIZE (disk.size - BUF_BLOCK_ID pos * BUF_BLOCK_SIZE) : Nat)
  within := Int.ofNat_le.mpr (Nat.min_le_left _ _)
  current_size := BitVec.ofNat 64 disk.size
  data k := disk.data (BUF_BLOCK_ID pos * BUF_BLOCK_SIZE + k)

section Fetch
variable {σ φ : Type} [DecidableEq σ] {s : StreamFile.State σ φ} {s' : StreamIo.State σ} {io : Io}
  {b : Fin BUF_BLOCK_NUM} {i : σ}

theorem id_of_start (pos : Nat) : BUF_BLOCK_ID (BUF_BLOCK_ID pos * BUF_BLOCK_SIZE) = BUF_BLOCK_ID pos :=
  Nat.mul_div_cancel _ (by decide)

theorem sys_read_same {fpos : Nat} {fpos' : BitVec 64} (same : Same s s')
    (answers : io.read s'.reads fpos' = from_disk (s.disk (s.stream i).handle) fpos) :
    Same (StreamFile.sys_read s i b (BUF_BLOCK_ID fpos * BUF_BLOCK_SIZE)).1 (StreamIo.sys_read io s' i b fpos').1 ∧
    (StreamIo.sys_read io s' i b fpos').2 = from_disk (s.disk (s.stream i).handle) fpos ∧
    (StreamIo.sys_read io s' i b fpos').1.reads = s'.reads + 1 := by
  have no_error : ¬(from_disk (s.disk (s.stream i).handle) fpos).result < 0 := by
    simp [from_disk]
  simp only [StreamFile.sys_read,StreamIo.sys_read,answers,if_neg no_error,id_of_start]
  refine ⟨?_,trivial,rfl⟩
  have counted : Same s { s' with reads := s'.reads + 1 } := ⟨same.block,same.stream,same.freed,same.disk⟩
  refine (counted.setBlock ?_).setStream ?_
  · exact { same.block b with base := fun k inside => by simp [inside,from_disk] }
  · have size : (BitVec.ofNat 64 (s.disk (s.stream i).handle).size).toNat = (s.disk (s.stream i).handle).size :=
      Nat.mod_eq_of_lt (same.disk _)
    exact { same.stream i with size := size }

theorem disk_to_block_same {fpos : Nat} {fpos' : BitVec 64} (same : Same s s')
    (answers : io.read s'.reads (StreamIo.block_pos fpos') = from_disk (s.disk (s.stream i).handle) fpos) :
    Same (StreamFile.disk_to_block s i b fpos).1 (StreamIo.disk_to_block io s' i b fpos').1 ∧
    (StreamIo.disk_to_block io s' i b fpos').2 = (StreamFile.disk_to_block s i b fpos).2 ∧
    (StreamIo.disk_to_block io s' i b fpos').1.reads = s'.reads + 1 := by
  obtain ⟨read,req,reads⟩ := sys_read_same (b := b) same answers
  have size : (StreamFile.sys_read s i b (BUF_BLOCK_ID fpos * BUF_BLOCK_SIZE)).2 =
      min BUF_BLOCK_SIZE ((s.disk (s.stream i).handle).size - BUF_BLOCK_ID fpos * BUF_BLOCK_SIZE) := by
    simp [StreamFile.sys_read,id_of_start]
  have result : (from_disk (s.disk (s.stream i).handle) fpos).result =
      (StreamFile.sys_read s i b (BUF_BLOCK_ID fpos * BUF_BLOCK_SIZE)).2 := by
    rw [size]
    rfl
  simp only [StreamFile.disk_to_block,StreamIo.disk_to_block,req]
  by_cases some : (StreamFile.sys_read s i b (BUF_BLOCK_ID fpos * BUF_BLOCK_SIZE)).2 > 0
  · have some' : (from_disk (s.disk (s.stream i).handle) fpos).result > 0 := by omega
    rw [if_pos some,if_pos some']
    refine ⟨read.setBlock ?_,rfl,reads⟩
    have valid_size : ((from_disk (s.disk (s.stream i).handle) fpos).size : Nat) =
        (StreamFile.sys_read s i b (BUF_BLOCK_ID fpos * BUF_BLOCK_SIZE)).2 := by
      simp only [Read.size]
      omega
    exact { read.block b with valid_size := valid_size, valid := rfl }
  · have none : ¬(from_disk (s.disk (s.stream i).handle) fpos).result > 0 := by omega
    rw [if_neg some,if_neg none]
    exact ⟨read,rfl,reads⟩

variable [DecidableEq φ]

/-- What `make_valid_data` reads is decided by the state of the byte files. -/
theorem make_valid_same (s : StreamFile.State σ φ) (i : σ) (b : Fin BUF_BLOCK_NUM) : ∃ answers, ∀ io s', Kind io →
    Same s s' → Plays io s'.reads answers →
    Same (StreamFile.make_valid_data s i b).1 (StreamIo.make_valid_data io s' i b).1 ∧
    (StreamIo.make_valid_data io s' i b).2 = (StreamFile.make_valid_data s i b).2 ∧
    (StreamIo.make_valid_data io s' i b).1.reads = s'.reads + answers.length := by
  obtain ⟨s₁,written⟩ : ∃ s₁, s₁ = if as_uoffset (s.buffer_pool b).pre_id ≠ BUF_BLOCK_ID (s.stream i).pos then
      StreamFile.setBlock (StreamFile.update_dirty_buffer_block s i b) b
        { (StreamFile.update_dirty_buffer_block s i b).buffer_pool b with valid := false } else s := ⟨_,rfl⟩
  have alike : ∀ {io s'}, Kind io → Same s s' → ∃ s₁', Same s₁ s₁' ∧ s₁'.reads = s'.reads ∧
      StreamIo.make_valid_data io s' i b = if (s₁'.buffer_pool b).valid then (s₁',true)
        else StreamIo.disk_to_block io s₁' i b (s'.stream i).pos := by
    intro io s' kind same
    by_cases changed : as_uoffset (s.buffer_pool b).pre_id ≠ BUF_BLOCK_ID (s.stream i).pos
    · have updated := update_dirty_same (i := i) (b := b) kind same
      rw [if_pos changed] at written
      subst written
      refine ⟨StreamIo.setBlock (StreamIo.update_dirty_buffer_block io s' i b).1 b
        { (StreamIo.update_dirty_buffer_block io s' i b).1.buffer_pool b with valid := false },
        updated.setBlock { updated.block b with valid := rfl },by simp,?_⟩
      unfold StreamIo.make_valid_data
      simp only [(same.block b).pre_id,(same.stream i).pos,if_pos changed]
    · rw [if_neg changed] at written
      subst written
      refine ⟨s',same,rfl,?_⟩
      unfold StreamIo.make_valid_data
      simp only [(same.block b).pre_id,(same.stream i).pos,if_neg changed]
  have same_valid : StreamFile.make_valid_data s i b = if (s₁.buffer_pool b).valid then (s₁,true)
      else StreamFile.disk_to_block s₁ i b (s.stream i).pos := by
    rw [written]
    unfold StreamFile.make_valid_data
    dsimp only
  rw [same_valid]
  cases valid : (s₁.buffer_pool b).valid with
  | true =>
    refine ⟨[],fun io s' kind same _ => ?_⟩
    obtain ⟨s₁',same₁,reads,done⟩ := alike kind same
    rw [done,(same₁.block b).valid,valid,if_pos rfl,if_pos rfl]
    exact ⟨same₁,rfl,reads⟩
  | false =>
    refine ⟨[from_disk (s₁.disk (s₁.stream i).handle) (s.stream i).pos],fun io s' kind same plays => ?_⟩
    obtain ⟨s₁',same₁,reads,done⟩ := alike kind same
    rw [done,(same₁.block b).valid,valid,if_neg Bool.false_ne_true,if_neg Bool.false_ne_true]
    have answers := plays.1 (StreamIo.block_pos (s'.stream i).pos)
    rw [← reads] at answers
    obtain ⟨same₂,ret,reads₂⟩ := disk_to_block_same (b := b) same₁ answers
    exact ⟨same₂,ret,by rw [← reads]; exact reads₂⟩

end Fetch

/-! ### Transfers -/

section Lengths

theorem fread_len_same {valid_size offset n : Nat} (block : valid_size ≤ BUF_BLOCK_SIZE) (inside : offset < BUF_BLOCK_SIZE)
    (small : n < 2^31) : StreamIo.fread_len valid_size offset n =
      if (valid_size + 2^64 - offset) % 2^64 > n then n else (valid_size + 2^64 - offset) % 2^64 := by
  have size : BUF_BLOCK_SIZE = 2^18 := rfl
  unfold StreamIo.fread_len
  rcases Nat.lt_or_ge valid_size offset with short | long
  · -- both subtractions wrap around, to more than an `ssize_t`
    have wraps : (valid_size + 2^32 - offset) % 2^32 > n := by omega
    have wraps' : (valid_size + 2^64 - offset) % 2^64 > n := by omega
    rw [if_pos wraps',if_pos (by exact_mod_cast wraps),Int.toNat_natCast]
  · have left : (valid_size + 2^32 - offset) % 2^32 = valid_size - offset := by omega
    have left' : (valid_size + 2^64 - offset) % 2^64 = valid_size - offset := by omega
    simp only [left,left']
    split <;> split <;> omega

theorem fwrite_len_same {offset n : Nat} : StreamIo.fwrite_len offset n =
    if BUF_BLOCK_SIZE - offset > n then n else BUF_BLOCK_SIZE - offset := by
  unfold StreamIo.fwrite_len
  split <;> split <;> omega

/-- A position that stays a `uoffset`. -/
theorem moved_pos {pos : BitVec 64} {len : Nat} (fits : pos.toNat + len < 2^64) :
    (pos + BitVec.ofNat 64 len).toNat = pos.toNat + len := by
  rw [BitVec.toNat_add,BitVec.toNat_ofNat,Nat.mod_eq_of_lt (by omega : len < 2^64),Nat.mod_eq_of_lt fits]

/-- The difference of the positions, when one is behind the other by less than an `ssize_t`. -/
theorem moved_same {pos : BitVec 64} {start done : Nat} (here : pos.toNat = start + done) (small : done < 2^31) :
    StreamIo.moved pos ((BitVec.ofNat 64 start).setWidth 32) = done := by
  have fits : start + done < 2^64 := here ▸ pos.isLt
  have first : (BitVec.ofNat 64 start).toNat = start := Nat.mod_eq_of_lt (by omega)
  have split : pos = BitVec.ofNat 64 start + BitVec.ofNat 64 done := by
    apply BitVec.eq_of_toNat_eq
    rw [moved_pos (by omega),first,here]
  rw [split]
  exact StreamErrors.moved_eq _ small

theorem pre_id_same {pos : BitVec 64} {n : Nat} (here : pos.toNat = n) :
    (BitVec.ofNat 32 (BUF_BLOCK_ID pos.toNat)).toNat = StreamFile.id_int n := by
  rw [here]
  rfl

theorem Carries.append {copies : List Copy} {buf copied : List UInt8} {c : Copy} (carries : Carries copies buf)
    (same : c.offset + c.len ≤ BUF_BLOCK_SIZE → (List.range c.len).map (fun k => c.base (c.offset + k)) = copied) :
    Carries (copies ++ [c]) (buf ++ copied) := by
  intro inside
  have front := carries (fun d member => inside d (List.mem_append_left _ member))
  have last := same (inside c (by simp))
  rw [← front,← last]
  simp [bytes]

end Lengths

section Transfers
variable {σ φ : Type} [DecidableEq σ] {s s₁ : StreamFile.State σ φ} {s' : StreamIo.State σ} {io : Io}
  {b : Fin BUF_BLOCK_NUM} {i : σ}

/-- The copy at the end of a round of a read. -/
theorem fread_copy_same {n len : Nat} {copies : List Copy} {buf : List UInt8} (same : Same s s') (carries : Carries copies buf)
    (small : n < 2^31) (fits : (s.stream i).pos + n < 2^64)
    (length : len = if ((s.buffer_pool b).valid_size + 2^64 - BUF_BLOCK_OFFSET (s.stream i).pos) % 2^64 > n then n
      else ((s.buffer_pool b).valid_size + 2^64 - BUF_BLOCK_OFFSET (s.stream i).pos) % 2^64) :
    Same (StreamFile.setStream
      (StreamFile.setBlock s b { s.buffer_pool b with pre_id := StreamFile.id_int (s.stream i).pos }) i
      { s.stream i with pos := (s.stream i).pos + len }) (StreamIo.fread_copy i b s' n copies).state ∧
    (StreamIo.fread_copy i b s' n copies).state.reads = s'.reads ∧
    (StreamIo.fread_copy i b s' n copies).n_bytes = (n - len : Nat) ∧
    Carries (StreamIo.fread_copy i b s' n copies).buf
      (buf ++ (List.range len).map (fun k => (s.buffer_pool b).base (BUF_BLOCK_OFFSET (s.stream i).pos + k))) := by
  have block : (s.buffer_pool b).valid_size ≤ BUF_BLOCK_SIZE := by
    rw [← (same.block b).valid_size]
    exact Nat.le_of_lt_succ (s'.buffer_pool b).valid_size.isLt
  have here := (same.stream i).pos
  have same_len : StreamIo.fread_len (s'.buffer_pool b).valid_size (BUF_BLOCK_OFFSET (s'.stream i).pos.toNat) n = len := by
    rw [(same.block b).valid_size,here,fread_len_same block (StreamFile.offset_lt _) small,length]
  have at_most : len ≤ n := by
    rw [length]
    split <;> omega
  unfold StreamIo.fread_copy
  simp only [same_len]
  refine ⟨(same.setBlock ?_).setStream ?_,rfl,by omega,carries.append ?_⟩
  · exact { same.block b with pre_id := pre_id_same here }
  · have pos : ((s'.stream i).pos + BitVec.ofNat 64 len).toNat = (s.stream i).pos + len := by
      rw [moved_pos (by omega),here]
    exact { same.stream i with pos := pos }
  · intro inside
    refine List.map_congr_left (fun k member => ?_)
    have below := List.mem_range.mp member
    simp only [here] at inside ⊢
    exact (same.block b).base _ (lt_of_lt_of_le (Nat.add_lt_add_left below _) inside)

omit [DecidableEq σ] in
/-- A read goes into a round in both models, or in none. -/
theorem wanted_same {n : Nat} (same : Same s s') : ((s'.stream i).pos < (s'.stream i).size ∧ (n : Int) > 0) ↔
    (s.stream i).pos < (s.stream i).size ∧ n > 0 := by
  rw [BitVec.lt_def,(same.stream i).pos,(same.stream i).size]
  exact and_congr_right (fun _ => Int.natCast_pos)

variable [DecidableEq φ]

/-- From the state `s` on and with the bytes `buf` read, the loop of a read comes to `s₁` and `buf₁` in any state that is the
    same, when the reads are answered from the disk. -/
def ReadsOn (i : σ) (b : Fin BUF_BLOCK_NUM) (start rounds n : Nat) (s : StreamFile.State σ φ) (buf : List UInt8)
    (s₁ : StreamFile.State σ φ) (ret : Int) (buf₁ : List UInt8) : Prop :=
  ∃ answers, ∀ io s' copies, Kind io → Same s s' → Plays io s'.reads answers → Carries copies buf → ∃ s₁' copies₁,
    loop (StreamIo.fread_round io i b ((BitVec.ofNat 64 start).setWidth 32)) (rounds+1) ⟨s',n,copies⟩ =
      some (s₁',ret,copies₁) ∧ Same s₁ s₁' ∧ s₁'.reads = s'.reads + answers.length ∧ Carries copies₁ buf₁

omit [DecidableEq φ] in
theorem fread_ends {start done n rounds : Nat} {ret : Int} {buf buf₁ : List UInt8} (here : (s.stream i).pos = start + done)
    (small : done < 2^31) (last : ¬((s.stream i).pos < (s.stream i).size ∧ n > 0))
    (returned : some (s,((s.stream i).pos : Int) - start,buf) = some (s₁,ret,buf₁)) :
    ReadsOn i b start rounds n s buf s₁ ret buf₁ := by
  simp only [Option.some.injEq,Prod.mk.injEq] at returned
  obtain ⟨rfl,rfl,rfl⟩ := returned
  refine ⟨[],fun io s' copies _ same _ carries => ⟨s',copies,?_,same,rfl,carries⟩⟩
  have moved := moved_same (((same.stream i).pos).trans here) small
  have difference : ((s.stream i).pos : Int) - start = done := by omega
  rw [loop,StreamIo.fread_round,if_neg ((wanted_same same).not.mpr last),moved,difference]

theorem make_valid_pos (s : StreamFile.State σ φ) (i : σ) (b : Fin BUF_BLOCK_NUM) :
    ((StreamFile.make_valid_data s i b).1.stream i).pos = (s.stream i).pos := by
  have read : ∀ (s : StreamFile.State σ φ) fpos,
      ((StreamFile.disk_to_block s i b fpos).1.stream i).pos = (s.stream i).pos := by
    intro s fpos
    have kept : ((StreamFile.sys_read s i b (BUF_BLOCK_ID fpos * BUF_BLOCK_SIZE)).1.stream i).pos = (s.stream i).pos := by
      simp [StreamFile.sys_read]
    simp only [StreamFile.disk_to_block]
    rw [apply_ite Prod.fst]
    split <;> exact kept
  have written : (StreamFile.update_dirty_buffer_block s i b).stream = s.stream := StreamFile.update_dirty_stream
  simp only [StreamFile.make_valid_data]
  split <;> split
  · simp [written]
  · simp [read,written]
  · rfl
  · exact read ..

theorem fread_loop_same (start done : Nat) {n rounds : Nat} {ret : Int} {buf buf₁ : List UInt8}
    (here : (s.stream i).pos = start + done) (small : done + n < 2^31) (fits : start + done + n < 2^64)
    (returned : StreamFile.fread_loop i b start rounds s n buf = some (s₁,ret,buf₁)) :
    ReadsOn i b start rounds n s buf s₁ ret buf₁ := by
  induction rounds generalizing s n done buf with
  | zero =>
    rw [StreamFile.fread_loop] at returned
    by_cases wanted : (s.stream i).pos < (s.stream i).size ∧ n > 0
    · simp [if_pos wanted] at returned
    · rw [if_neg wanted] at returned
      exact fread_ends here (by omega) wanted returned
  | succ rounds ih =>
    rw [StreamFile.fread_loop] at returned
    by_cases wanted : (s.stream i).pos < (s.stream i).size ∧ n > 0
    · simp only [if_pos wanted] at returned
      obtain ⟨answers,fetch⟩ := make_valid_same s i b
      have stays : ((StreamFile.make_valid_data s i b).1.stream i).pos = (s.stream i).pos := make_valid_pos s i b
      cases made : StreamFile.make_valid_data s i b with
      | mk s₂ ret₂ =>
        simp only [made] at fetch returned stays
        cases ret₂ with
        | false =>
          simp only [Option.some.injEq,Prod.mk.injEq] at returned
          obtain ⟨rfl,rfl,rfl⟩ := returned
          refine ⟨answers,fun io s' copies kind same plays carries => ?_⟩
          obtain ⟨same₂,ret,reads⟩ := fetch io s' kind same plays
          refine ⟨_,copies,?_,same₂,reads,carries⟩
          unfold loop StreamIo.fread_round
          rw [if_pos ((wanted_same same).mpr wanted),← Prod.mk.eta (p := StreamIo.make_valid_data io s' i b),ret]
        | true =>
          obtain ⟨len,length⟩ : ∃ len, len = if ((s₂.buffer_pool b).valid_size + 2^64 - BUF_BLOCK_OFFSET (s₂.stream i).pos)
              % 2^64 > n then n else ((s₂.buffer_pool b).valid_size + 2^64 - BUF_BLOCK_OFFSET (s₂.stream i).pos) % 2^64 :=
            ⟨_,rfl⟩
          simp only [← length] at returned
          have at_most : len ≤ n := by
            rw [length]
            split <;> omega
          obtain ⟨more,later⟩ := ih (done + len) (by simp; omega) (by omega) (by omega) returned
          refine ⟨answers ++ more,fun io s' copies kind same plays carries => ?_⟩
          obtain ⟨first,second⟩ := (plays_append answers more).mp plays
          obtain ⟨same₂,ret,reads⟩ := fetch io s' kind same first
          obtain ⟨copied,same_reads,left,carried⟩ :=
            fread_copy_same same₂ carries (by omega) (by omega) length
          obtain ⟨s₁',copies₁,looped,same₁,reads₁,carried₁⟩ :=
            later io _ _ kind copied (by rw [same_reads,reads]; exact second) carried
          refine ⟨s₁',copies₁,?_,same₁,?_,carried₁⟩
          · rw [loop,StreamIo.fread_round]
            simp only [if_pos ((wanted_same same).mpr wanted)]
            rw [← Prod.mk.eta (p := StreamIo.make_valid_data io s' i b),ret]
            simp only
            rw [← left] at looped
            exact looped
          · rw [reads₁,same_reads,reads,List.length_append]
            omega
    · rw [if_neg wanted] at returned
      exact fread_ends here (by omega) wanted returned

omit [DecidableEq φ] in
/-- The copy at the end of a round of a write, with what is left of the buffer of the caller. -/
theorem fwrite_copy_same {len : Nat} {buf : List UInt8} {buf' : Nat → UInt8} (same : Same s s')
    (bytes : ∀ k, buf' k = buf.getD k 0) (fits : (s.stream i).pos + buf.length < 2^64)
    (length : len = if BUF_BLOCK_SIZE - BUF_BLOCK_OFFSET (s.stream i).pos > buf.length then buf.length
      else BUF_BLOCK_SIZE - BUF_BLOCK_OFFSET (s.stream i).pos) :
    Same (StreamFile.setStream (StreamFile.setBlock s b { s.buffer_pool b with
        base := fun k => if BUF_BLOCK_OFFSET (s.stream i).pos ≤ k ∧ k < BUF_BLOCK_OFFSET (s.stream i).pos + len
          then buf.getD (k - BUF_BLOCK_OFFSET (s.stream i).pos) 0 else (s.buffer_pool b).base k
        pre_id := StreamFile.id_int (s.stream i).pos
        dirty := true }) i
      { s.stream i with pos := (s.stream i).pos + len }) (StreamIo.fwrite_copy i b s' buf.length buf').state ∧
    (StreamIo.fwrite_copy i b s' buf.length buf').state.reads = s'.reads ∧
    (StreamIo.fwrite_copy i b s' buf.length buf').n_bytes = (buf.drop len).length ∧
    ∀ k, (StreamIo.fwrite_copy i b s' buf.length buf').buf k = (buf.drop len).getD k 0 := by
  have here := (same.stream i).pos
  have same_len : StreamIo.fwrite_len (BUF_BLOCK_OFFSET (s'.stream i).pos.toNat) buf.length = len := by
    rw [here,fwrite_len_same,length]
  have at_most : len ≤ buf.length := by
    rw [length]
    split <;> omega
  unfold StreamIo.fwrite_copy
  simp only [same_len]
  refine ⟨(same.setBlock ?_).setStream ?_,rfl,by rw [List.length_drop]; omega,fun k => ?_⟩
  · have base : ∀ k < BUF_BLOCK_SIZE,
        (if BUF_BLOCK_OFFSET (s'.stream i).pos.toNat ≤ k ∧ k < BUF_BLOCK_OFFSET (s'.stream i).pos.toNat + len
          then buf' (k - BUF_BLOCK_OFFSET (s'.stream i).pos.toNat) else (s'.buffer_pool b).base k) =
        if BUF_BLOCK_OFFSET (s.stream i).pos ≤ k ∧ k < BUF_BLOCK_OFFSET (s.stream i).pos + len
          then buf.getD (k - BUF_BLOCK_OFFSET (s.stream i).pos) 0 else (s.buffer_pool b).base k := by
      intro k inside
      rw [here,bytes,(same.block b).base k inside]
    exact { same.block b with base := base, pre_id := pre_id_same here, dirty := rfl }
  · have pos : ((s'.stream i).pos + BitVec.ofNat 64 len).toNat = (s.stream i).pos + len := by
      rw [moved_pos (by omega),here]
    exact { same.stream i with pos := pos }
  · rw [bytes,List.getD_eq_getElem?_getD,List.getD_eq_getElem?_getD,List.getElem?_drop,Nat.add_comm]

/-- The same of the loop of a write that has the bytes `buf` left. -/
def WritesOn (i : σ) (b : Fin BUF_BLOCK_NUM) (start rounds : Nat) (s : StreamFile.State σ φ) (buf : List UInt8)
    (s₁ : StreamFile.State σ φ) (ret : Int) : Prop :=
  ∃ answers, ∀ io s' buf', Kind io → Same s s' → Plays io s'.reads answers → (∀ k, buf' k = buf.getD k 0) → ∃ s₁',
    loop (StreamIo.fwrite_round io i b ((BitVec.ofNat 64 start).setWidth 32)) (rounds+1) ⟨s',buf.length,buf'⟩ =
      some (s₁',ret) ∧ Same s₁ s₁' ∧ s₁'.reads = s'.reads + answers.length

omit [DecidableEq φ] in
theorem fwrite_ends {start done rounds : Nat} {ret : Int} {buf : List UInt8} (here : (s.stream i).pos = start + done)
    (small : done < 2^31) (last : ¬buf ≠ []) (returned : some (s,((s.stream i).pos : Int) - start) = some (s₁,ret)) :
    WritesOn i b start rounds s buf s₁ ret := by
  simp only [Option.some.injEq,Prod.mk.injEq] at returned
  obtain ⟨rfl,rfl⟩ := returned
  obtain rfl := not_not.mp last
  refine ⟨[],fun io s' buf' _ same _ _ => ⟨s',?_,same,rfl⟩⟩
  have moved := moved_same (((same.stream i).pos).trans here) small
  have difference : ((s.stream i).pos : Int) - start = done := by omega
  rw [loop,List.length_nil,Nat.cast_zero,StreamIo.fwrite_round,if_neg (lt_irrefl 0),moved,difference]

theorem fwrite_loop_same (start done : Nat) {rounds : Nat} {ret : Int} {buf : List UInt8}
    (here : (s.stream i).pos = start + done) (small : done + buf.length < 2^31) (fits : start + done + buf.length < 2^64)
    (returned : StreamFile.fwrite_loop i b start rounds s buf = some (s₁,ret)) :
    WritesOn i b start rounds s buf s₁ ret := by
  induction rounds generalizing s buf done with
  | zero =>
    rw [StreamFile.fwrite_loop] at returned
    by_cases more : buf ≠ []
    · simp [if_pos more] at returned
    · rw [if_neg more] at returned
      exact fwrite_ends here (by omega) more returned
  | succ rounds ih =>
    rw [StreamFile.fwrite_loop] at returned
    by_cases more : buf ≠ []
    · simp only [if_pos more] at returned
      obtain ⟨answers,fetch⟩ := make_valid_same s i b
      have stays : ((StreamFile.make_valid_data s i b).1.stream i).pos = (s.stream i).pos := make_valid_pos s i b
      obtain ⟨s₂,made⟩ : ∃ s₂, s₂ = (StreamFile.make_valid_data s i b).1 := ⟨_,rfl⟩
      rw [← made] at fetch returned stays
      obtain ⟨len,length⟩ : ∃ len, len = if BUF_BLOCK_SIZE - BUF_BLOCK_OFFSET (s₂.stream i).pos > buf.length
          then buf.length else BUF_BLOCK_SIZE - BUF_BLOCK_OFFSET (s₂.stream i).pos := ⟨_,rfl⟩
      simp only [← length] at returned
      have at_most : len ≤ buf.length := by
        rw [length]
        split <;> omega
      have rest : (buf.drop len).length = buf.length - len := List.length_drop
      obtain ⟨later_answers,later⟩ := ih (done + len) (by simp; omega) (by omega) (by omega) returned
      refine ⟨answers ++ later_answers,fun io s' buf' kind same plays bytes => ?_⟩
      obtain ⟨first,second⟩ := (plays_append answers later_answers).mp plays
      obtain ⟨same₂,_,reads⟩ := fetch io s' kind same first
      obtain ⟨copied,same_reads,left,bytes₂⟩ := fwrite_copy_same same₂ bytes (by omega) length
      obtain ⟨s₁',looped,same₁,reads₁⟩ := later io _ _ kind copied (by rw [same_reads,reads]; exact second) bytes₂
      refine ⟨s₁',?_,same₁,?_⟩
      · have wanted : (buf.length : Int) > 0 := by
          exact_mod_cast List.length_pos_of_ne_nil more
        have no_error : ¬((StreamIo.make_valid_data io s' i b).2 = false ∧
            io.eio (StreamIo.make_valid_data io s' i b).1.reads = true) := by
          simp [(kind _).2]
        rw [loop,StreamIo.fwrite_round]
        simp only [if_pos wanted,if_neg no_error]
        rw [← left] at looped
        exact looped
      · rw [reads₁,same_reads,reads,List.length_append]
        omega
    · rw [if_neg more] at returned
      exact fwrite_ends here (by omega) more returned

end Transfers

/-! ### Operations and runs -/

section Operations
variable {σ φ : Type} [DecidableEq σ] [DecidableEq φ] {s s₁ : StreamFile.State σ φ} {s' : StreamIo.State σ} {io : Io}
  {b : Fin BUF_BLOCK_NUM} {i : σ}

omit [DecidableEq σ] [DecidableEq φ] in
theorem start_pos_same (same : Same s s') :
    StreamIo.start_pos s' i = (BitVec.ofNat 64 (s.stream i).pos).setWidth 32 := by
  rw [StreamIo.start_pos,← (same.stream i).pos,BitVec.ofNat_toNat,BitVec.setWidth_eq]

/-- The number of bytes is a positive `ssize_t`. -/
theorem int_same {n : Nat} (small : n < 2^31) : (BitVec.ofNat 32 n).toInt = n := by
  rw [BitVec.toInt_eq_toNat_of_lt,BitVec.toNat_ofNat,Nat.mod_eq_of_lt (by omega)]
  rw [BitVec.toNat_ofNat,Nat.mod_eq_of_lt (by omega)]
  omega

/-- No stream was moved, and none has another size. -/
def Still (s s₁ : StreamFile.State σ φ) : Prop :=
  ∀ j, (s₁.stream j).pos = (s.stream j).pos ∧ (s₁.stream j).size = (s.stream j).size ∧
    (s₁.stream j).append = (s.stream j).append

omit [DecidableEq φ] in
theorem still_block {block : StreamFile.buffer_block σ} {own : Option (Fin BUF_BLOCK_NUM)} :
    Still s (StreamFile.setBlock (StreamFile.setStream s i { s.stream i with block := own }) b block) := by
  intro j
  by_cases this : j = i
  · subst this
    simp
  · simp [this]

theorem swap_out_still (done : StreamFile.swap_out_buffer_block s b = some s₁) : Still s s₁ := by
  simp only [StreamFile.swap_out_buffer_block,Option.bind_eq_bind,Option.bind_eq_some_iff,Option.pure_def,
    Option.some.injEq] at done
  obtain ⟨i,-,c,-,rfl⟩ := done
  have written : (StreamFile.update_dirty_buffer_block s i c).stream = s.stream := StreamFile.update_dirty_stream
  have released : Still (StreamFile.update_dirty_buffer_block s i c)
    (StreamFile.release (StreamFile.update_dirty_buffer_block s i c) i b) := still_block
  intro j
  rw [← written]
  exact released j

/-- Getting a block moves no stream. -/
theorem with_block_still (got : StreamFile.with_block s i = some (s₁,b)) : Still s s₁ := by
  unfold StreamFile.with_block StreamFile.get_buffer_block StreamFile.get_rebirth_buffer_block at got
  split at got
  · obtain ⟨rfl,rfl⟩ := Prod.mk.inj (Option.some.inj got)
    exact fun _ => ⟨rfl,rfl,rfl⟩
  · split at got
    · obtain ⟨rfl,rfl⟩ := Prod.mk.inj (Option.some.inj got)
      exact still_block
    · split at got
      · cases got
      · simp only [Option.map_map,Option.map_eq_some_iff] at got
        obtain ⟨s₂,swapped,assigned⟩ := got
        obtain ⟨rfl,rfl⟩ := Prod.mk.inj assigned
        have still := swap_out_still swapped
        have again : Still s₂ (StreamFile.assign s₂ i (StreamFile.mix_index s)) := still_block
        intro j
        exact ⟨(again j).1.trans (still j).1,(again j).2.1.trans (still j).2.1,(again j).2.2.trans (still j).2.2⟩

theorem fread_same {n : Nat} {ret : Int} {buf : List UInt8} (fits : Fits s (.fread i n))
    (done : StreamFile.stdio_fread s i n = some (s₁,ret,buf)) :
    ∃ answers, ∀ io s', Kind io → Same s s' → Plays io s'.reads answers → ∃ s₁' copies,
      StreamIo.stdio_fread io (n+1) s' i (BitVec.ofNat 32 n) = some (s₁',ret,copies) ∧ Same s₁ s₁' ∧
      s₁'.reads = s'.reads + answers.length ∧ Carries copies buf := by
  obtain ⟨small,inside⟩ := fits
  unfold StreamFile.stdio_fread at done
  by_cases access : (s.stream i).access = .O_WRONLY
  · simp only [if_pos access,Option.some.injEq,Prod.mk.injEq] at done
    obtain ⟨rfl,rfl,rfl⟩ := done
    refine ⟨[],fun io s' _ same _ => ⟨s',[],?_,same,rfl,fun _ => rfl⟩⟩
    rw [StreamIo.stdio_fread,if_pos ((same.stream i).access.trans access)]
  · have zero : ∀ {s'}, Same s s' → ((s'.stream i).size = 0 ↔ (s.stream i).size = 0) := by
      intro s' same
      rw [← (same.stream i).size,← BitVec.toNat_inj]
      rfl
    by_cases empty : (s.stream i).size = 0
    · simp only [if_neg access,if_pos empty,Option.some.injEq,Prod.mk.injEq] at done
      obtain ⟨rfl,rfl,rfl⟩ := done
      refine ⟨[],fun io s' _ same _ => ⟨s',[],?_,same,rfl,fun _ => rfl⟩⟩
      rw [StreamIo.stdio_fread,if_neg (by rwa [(same.stream i).access]),if_pos ((zero same).mpr empty)]
    · simp only [if_neg access,if_neg empty,Option.bind_eq_bind,Option.bind_eq_some_iff,Option.pure_def,Option.some.injEq,
        Prod.mk.injEq] at done
      obtain ⟨⟨s₂,b⟩,got,⟨s₃,ret₃,buf₃⟩,looped,rfl,rfl,rfl⟩ := done
      obtain ⟨pos,-,-⟩ := with_block_still got i
      obtain ⟨answers,loops⟩ := fread_loop_same (s₂.stream i).pos 0 rfl (by omega) (by omega) looped
      refine ⟨answers,fun io s' kind same plays => ?_⟩
      obtain ⟨s₂',got',same₂,reads₂⟩ := with_block_same kind same got
      obtain ⟨s₃',copies,looped',same₃,reads₃,carries⟩ :=
        loops io s₂' [] kind same₂ (by rwa [reads₂]) (fun _ => rfl)
      refine ⟨StreamIo.put_buffer_block s₃' b,copies,?_,put_same same₃,by rw [← reads₂,← reads₃]; rfl,carries⟩
      rw [StreamIo.stdio_fread,if_neg (by rwa [(same.stream i).access]),if_neg ((zero same).not.mpr empty),got']
      simp only [Option.bind_eq_bind,Option.bind_some,start_pos_same same₂,int_same small,looped',Option.pure_def]

theorem fwrite_same {buf : List UInt8} {ret : Int} (fits : Fits s (.fwrite i buf))
    (done : StreamFile.stdio_fwrite s i buf = some (s₁,ret)) :
    ∃ answers, ∀ io s', Kind io → Same s s' → Plays io s'.reads answers → ∃ s₁',
      StreamIo.stdio_fwrite io (buf.length+1) s' i (BitVec.ofNat 32 buf.length) (fun k => buf.getD k 0) = some (s₁',ret) ∧
      Same s₁ s₁' ∧ s₁'.reads = s'.reads + answers.length := by
  obtain ⟨small,inside⟩ := fits
  unfold StreamFile.stdio_fwrite at done
  by_cases access : (s.stream i).access = .O_RDONLY
  · simp only [if_pos access,Option.some.injEq,Prod.mk.injEq] at done
    obtain ⟨rfl,rfl⟩ := done
    refine ⟨[],fun io s' _ same _ => ⟨s',?_,same,rfl⟩⟩
    rw [StreamIo.stdio_fwrite,if_pos ((same.stream i).access.trans access)]
  · simp only [if_neg access,Option.bind_eq_bind,Option.bind_eq_some_iff,Option.pure_def,Option.some.injEq,
      Prod.mk.injEq] at done
    obtain ⟨⟨s₂,b⟩,got,⟨s₄,ret₄⟩,looped,rfl,rfl⟩ := done
    obtain ⟨pos,size,append⟩ := with_block_still got i
    obtain ⟨s₃,moved⟩ : ∃ s₃, s₃ = if (s₂.stream i).append then
        StreamFile.setStream s₂ i { s₂.stream i with pos := (s₂.stream i).size } else s₂ := ⟨_,rfl⟩
    simp only [← moved] at looped
    have start : (s₃.stream i).pos = if (s.stream i).append then (s.stream i).size else (s.stream i).pos := by
      rw [moved,append]
      split <;> simp [pos,size]
    obtain ⟨answers,loops⟩ := fwrite_loop_same (s₃.stream i).pos 0 rfl (by omega) (by rw [start]; omega) looped
    refine ⟨answers,fun io s' kind same plays => ?_⟩
    obtain ⟨s₂',got',same₂,reads₂⟩ := with_block_same kind same got
    have same₃ : Same s₃ (StreamIo.append_pos s₂' i) := by
      rw [moved,StreamIo.append_pos,(same₂.stream i).append]
      split
      · exact same₂.setStream { same₂.stream i with pos := (same₂.stream i).size }
      · exact same₂
    have reads₃ : (StreamIo.append_pos s₂' i).reads = s'.reads := by
      rw [StreamIo.append_pos,apply_ite StreamIo.State.reads,StreamIo.setStream_reads,ite_self,reads₂]
    obtain ⟨s₄',looped',same₄,reads₄⟩ := loops io _ _ kind same₃ (by rwa [reads₃]) (fun _ => rfl)
    refine ⟨StreamIo.put_buffer_block s₄' b,?_,put_same same₄,by rw [← reads₃,← reads₄]; rfl⟩
    rw [StreamIo.stdio_fwrite,if_neg (by rwa [(same.stream i).access]),got']
    simp only [Option.bind_eq_bind,Option.bind_some,start_pos_same same₃,int_same small,looped',Option.pure_def]

omit [DecidableEq σ] [DecidableEq φ] in
theorem tmp_pos_same {pos size : Nat} {pos' size' : BitVec 64} {offset : Int} {whence : StreamFile.Whence}
    (here : pos'.toNat = pos) (end_of : size'.toNat = size) :
    (StreamIo.tmp_pos pos' size' (BitVec.ofInt 64 offset) whence).toNat = StreamFile.tmp_pos pos size offset whence := by
  subst here end_of
  have value : (BitVec.ofInt 64 offset).toNat = (offset % 2^64).toNat := BitVec.toNat_ofInt ..
  cases whence with
  | SEEK_SET => exact value
  | SEEK_CUR =>
    simp only [StreamIo.tmp_pos,StreamFile.tmp_pos,StreamFile.to_uoffset,BitVec.toNat_add,value]
    omega
  | SEEK_END =>
    simp only [StreamIo.tmp_pos,StreamFile.tmp_pos,StreamFile.to_uoffset,BitVec.toNat_add,value]
    omega
  | other => rfl

theorem fseek_same {offset : Int} {whence : StreamFile.Whence} (kind : Kind io) (same : Same s s') :
    Same (StreamFile.stdio_fseek s i offset whence).1 (StreamIo.stdio_fseek io s' i (BitVec.ofInt 64 offset) whence).1 ∧
    (StreamIo.stdio_fseek io s' i (BitVec.ofInt 64 offset) whence).1.reads = s'.reads := by
  have own : Same (StreamFile.update_own_block s i) (StreamIo.update_own_block io s' i) ∧
      (StreamIo.update_own_block io s' i).reads = s'.reads := by
    rw [StreamFile.update_own_block,StreamIo.update_own_block,(same.stream i).block]
    cases (s.stream i).block with
    | none => exact ⟨same,rfl⟩
    | some b => exact ⟨update_dirty_same kind same,by simp⟩
  refine ⟨own.1.setStream ?_,own.2⟩
  exact { own.1.stream i with pos := tmp_pos_same (own.1.stream i).pos (own.1.stream i).size }

theorem fclose_same {ret : Int} (kind : Kind io) (same : Same s s') (done : StreamFile.stdio_fclose s i = some (s₁,ret)) :
    ∃ s₁', StreamIo.stdio_fclose io s' i = some (s₁',ret) ∧ Same s₁ s₁' ∧ s₁'.reads = s'.reads := by
  have deleted : ∀ {s₂ : StreamFile.State σ φ} {s₂' : StreamIo.State σ}, Same s₂ s₂' →
      Same (StreamFile.filp_delete s₂ i) (StreamIo.filp_delete s₂' i) := by
    intro s₂ s₂' same
    refine ⟨same.block,same.stream,?_,same.disk⟩
    rw [StreamFile.filp_delete,StreamIo.filp_delete,same.freed]
  unfold StreamFile.stdio_fclose at done
  unfold StreamIo.stdio_fclose
  rw [(same.stream i).block]
  cases block : (s.stream i).block with
  | none =>
    simp only [block,Option.bind_eq_bind,Option.bind_some,Option.pure_def,Option.some.injEq,Prod.mk.injEq] at done
    obtain ⟨rfl,rfl⟩ := done
    exact ⟨StreamIo.filp_delete s' i,rfl,deleted same,rfl⟩
  | some b =>
    simp only [block,Option.bind_eq_bind,Option.bind_eq_some_iff,Option.map_eq_some_iff,Option.pure_def,Option.some.injEq,
      Prod.mk.injEq] at done
    obtain ⟨_,⟨s₂,swapped,rfl⟩,rfl,rfl⟩ := done
    obtain ⟨s₂',swapped',same₂,reads⟩ := swap_out_same kind same swapped
    have left : Same (StreamFile.setStream s₂ i { s₂.stream i with block := none })
        (StreamIo.setStream s₂' i { s₂'.stream i with block := none }) :=
      same₂.setStream { same₂.stream i with block := rfl }
    exact ⟨_,by simp [swapped'],deleted left,reads⟩

/-- One operation, on any state that is the same and with the reads answered from the disk. -/
theorem step_same {op : StreamFile.Op σ} {answer : StreamFile.Answer} (fits : Fits s op)
    (done : StreamFile.step s op = some (s₁,answer)) :
    ∃ reqs, ∀ io s', Kind io → Same s s' → Plays io s'.reads reqs → ∃ s₁' result,
      call io s' op = some (s₁',result) ∧ Same s₁ s₁' ∧ s₁'.reads = s'.reads + reqs.length ∧ Answered answer result := by
  cases op with
  | fread i n =>
    obtain ⟨⟨_,ret,buf⟩,read,stepped⟩ := Option.map_eq_some_iff.mp done
    obtain ⟨rfl,rfl⟩ := Prod.mk.inj stepped
    obtain ⟨reqs,reads⟩ := fread_same fits read
    refine ⟨reqs,fun io s' kind same plays => ?_⟩
    obtain ⟨s₁',copies,read',same₁,number,carries⟩ := reads io s' kind same plays
    exact ⟨s₁',(ret,copies),read',same₁,number,rfl,carries⟩
  | fwrite i buf =>
    obtain ⟨⟨_,ret⟩,write,stepped⟩ := Option.map_eq_some_iff.mp done
    obtain ⟨rfl,rfl⟩ := Prod.mk.inj stepped
    obtain ⟨reqs,writes⟩ := fwrite_same fits write
    refine ⟨reqs,fun io s' kind same plays => ?_⟩
    obtain ⟨s₁',write',same₁,number⟩ := writes io s' kind same plays
    exact ⟨s₁',(ret,[]),by rw [call,write']; rfl,same₁,number,rfl,fun _ => rfl⟩
  | fseek i offset whence =>
    obtain ⟨rfl,rfl⟩ := Prod.mk.inj (Option.some.inj done)
    refine ⟨[],fun io s' kind same _ => ?_⟩
    obtain ⟨same₁,number⟩ := fseek_same kind same
    exact ⟨_,(0,[]),rfl,same₁,number,rfl,fun _ => rfl⟩
  | fclose i =>
    obtain ⟨⟨_,ret⟩,close,stepped⟩ := Option.map_eq_some_iff.mp done
    obtain ⟨rfl,rfl⟩ := Prod.mk.inj stepped
    refine ⟨[],fun io s' kind same _ => ?_⟩
    obtain ⟨s₁',close',same₁,number⟩ := fclose_same kind same close
    exact ⟨s₁',(ret,[]),by rw [call,close']; rfl,same₁,number,rfl,fun _ => rfl⟩

theorem run_same {ops : List (StreamFile.Op σ)} {answers : List StreamFile.Answer} (fits : RunFits s ops)
    (done : StreamFile.run s ops = some (s₁,answers)) :
    ∃ reqs, ∀ io s', Kind io → Same s s' → Plays io s'.reads reqs → ∃ s₁' results,
      calls io s' ops = some (s₁',results) ∧ Same s₁ s₁' ∧ List.Forall₂ Answered answers results := by
  induction ops generalizing s answers with
  | nil =>
    obtain ⟨rfl,rfl⟩ := Prod.mk.inj (Option.some.inj done)
    exact ⟨[],fun io s' _ same _ => ⟨s',[],rfl,same,.nil⟩⟩
  | cons op ops ih =>
    simp only [StreamFile.run,Option.bind_eq_bind,Option.bind_eq_some_iff,Option.pure_def,Option.some.injEq,
      Prod.mk.injEq] at done
    obtain ⟨⟨s₂,answer⟩,stepped,⟨_,rest⟩,later,rfl,rfl⟩ := done
    obtain ⟨reqs,once⟩ := step_same fits.1 stepped
    obtain ⟨more,again⟩ := ih (fits.2 s₂ answer stepped) later
    refine ⟨reqs ++ more,fun io s' kind same plays => ?_⟩
    obtain ⟨first,second⟩ := (plays_append reqs more).mp plays
    obtain ⟨s₂',result,called,same₂,number,answered⟩ := once io s' kind same first
    obtain ⟨s₁',results,ran,same₁,all⟩ := again io s₂' kind same₂ (by rwa [number])
    exact ⟨s₁',result :: results,by simp [calls,called,ran],same₁,.cons answered all⟩

/-- Every run over byte files is one in front of system calls that never fail, with the same results. -/
theorem run_agrees {ops : List (StreamFile.Op σ)} {answers : List StreamFile.Answer} (same : Same s s') (fits : RunFits s ops)
    (done : StreamFile.run s ops = some (s₁,answers)) :
    ∃ io, Kind io ∧ ∃ s₁' results, calls io s' ops = some (s₁',results) ∧ Same s₁ s₁' ∧
      List.Forall₂ Answered answers results := by
  obtain ⟨reqs,runs⟩ := run_same fits done
  obtain ⟨io,kind,plays⟩ := exists_plays reqs s'.reads
  exact ⟨io,kind,runs io s' kind same plays⟩

omit [DecidableEq σ] [DecidableEq φ] in
/-- The streams that are opened are the same in both models. -/
theorem opened_same (handle : σ → φ) (disk : φ → StreamFile.disk_file) (base : Fin BUF_BLOCK_NUM → Nat → UInt8)
    (small : ∀ f, (disk f).size < 2^64) : Same (StreamFile.opened handle disk base)
    (StreamErrors.opened (fun _ => .O_RDWR) (fun _ => false) (fun i => BitVec.ofNat 64 (disk (handle i)).size) base) := by
  refine ⟨fun b => ⟨rfl,rfl,rfl,rfl,rfl,rfl,fun _ _ => rfl,rfl⟩,fun i => ⟨rfl,rfl,rfl,rfl,?_⟩,rfl,small⟩
  exact Nat.mod_eq_of_lt (small (handle i))

/-- Tame runs from the opened streams, in front of system calls that never fail, are those of the byte files. -/
theorem byte_files_agree {handle : σ → φ} {disk : φ → StreamFile.disk_file} {base : Fin BUF_BLOCK_NUM → Nat → UInt8}
    {ops : List (StreamFile.Op σ)} (small : ∀ f, (disk f).size ≤ 2^49)
    (tame : StreamFile.TameRun (StreamFile.opened handle disk base) ops)
    (fits : RunFits (StreamFile.opened handle disk base) ops) :
    ∃ io, Kind io ∧ ∃ s' results, calls io (StreamErrors.opened (fun _ => .O_RDWR) (fun _ => false)
        (fun i => BitVec.ofNat 64 (disk (handle i)).size) base) ops = some (s',results) ∧
      List.Forall₂ Answered ((StreamFile.ByteFiles.opened handle disk).run ops).2 results := by
  obtain ⟨s₁,ran,-⟩ := StreamFile.run_spec (StreamFile.opened_serves base small) tame
  have same := opened_same handle disk base (fun f => lt_of_le_of_lt (small f) (by decide))
  obtain ⟨io,kind,s',results,called,-,answered⟩ := run_agrees same fits ran
  exact ⟨io,kind,s',results,called,answered⟩

end Operations

end GridOS.StreamSim
