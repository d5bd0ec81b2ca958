import GridOS.Rounds
import GridOS.StreamFileRuns

/-!
The streams of `source/libs/grid/stdio/stream_file.c` in front of system calls that answer anything: a read any number of
bytes up to a block, with a size of the file of its own, or an error, and a write any result. The answers are inputs, by the
number of the call. `size_t` has 32 bits. The loop of `stdio_fread` ends, and copies valid bytes only, exactly when no block
is short in front of the position.
-/
namespace GridOS.StreamIo
open StreamFile (BUF_BLOCK_SIZE BUF_BLOCK_NUM BUF_BLOCK_ID BUF_BLOCK_OFFSET Access Whence as_uoffset)
open Rounds

/-- What a call of `sys_read` answers: the new size of the file comes with a result that is not negative. -/
structure Read where
  result : Int
  within : result ≤ BUF_BLOCK_SIZE
  current_size : BitVec 64
  data : Nat → UInt8

/-- The system calls: a read answers by its number and its position, a write by its number, and `eio` tells whether `errno`
    is `EIO` when so many reads were made. -/
structure Io where
  read : Nat → BitVec 64 → Read
  write : Nat → Int
  eio : Nat → Bool

/-- A call of `sys_write` for the file of a stream, with its result. -/
structure Write (σ : Type) where
  owner : σ
  file_pos : BitVec 64
  user_buffer : Nat → UInt8
  result : Int

/-- `valid`, `dirty` and `busy` are the bits of `flags`. -/
structure buffer_block (σ : Type) where
  valid_size : Fin (BUF_BLOCK_SIZE+1)
  pre_id : BitVec 32
  access_count : Nat
  valid : Bool
  dirty : Bool
  busy : Bool
  base : Nat → UInt8
  file : Option σ

/-- A `struct file` with its `struct stdio_file`. -/
structure stdio_file where
  access : Access
  append : Bool
  block : Option (Fin BUF_BLOCK_NUM)
  pos : BitVec 64
  size : BitVec 64

/-- With the reads and the writes made so far, the last write first. -/
structure State (σ : Type) where
  buffer_pool : Fin BUF_BLOCK_NUM → buffer_block σ
  stream : σ → stdio_file
  freed : σ → Bool
  reads : Nat
  written : List (Write σ)

def Read.size (req : Read) : Fin (BUF_BLOCK_SIZE+1) :=
  ⟨req.result.toNat,by have := req.within; omega⟩

theorem block_num_pos : 0 < BUF_BLOCK_NUM := by decide

/-- A block of the pool that no stream has. -/
def free_block {σ : Type} (base : Nat → UInt8) : buffer_block σ := ⟨0,0,0,false,false,false,base,none⟩

section Code
variable {σ : Type} [DecidableEq σ] (io : Io)

def setBlock (s : State σ) (b : Fin BUF_BLOCK_NUM) (block : buffer_block σ) : State σ :=
  { s with buffer_pool := Function.update s.buffer_pool b block }

def setStream (s : State σ) (i : σ) (file : stdio_file) : State σ :=
  { s with stream := Function.update s.stream i file }

def sys_write (s : State σ) (i : σ) (user_buffer : Nat → UInt8) (file_pos : BitVec 64) : State σ × Int :=
  let ret := io.write s.written.length
  ({ s with written := ⟨i,file_pos,user_buffer,ret⟩ :: s.written },ret)

def append_stream_file (s : State σ) (i : σ) (user_buffer : Nat → UInt8) (old_file_size : BitVec 64) : State σ × Int :=
  sys_write io s i user_buffer old_file_size

/-- `b` is the block of the stream `i`. -/
def update_dirty_buffer_block (s : State σ) (i : σ) (b : Fin BUF_BLOCK_NUM) : State σ × Bool :=
  let file := s.stream i
  let block := s.buffer_pool b
  if block.dirty = false then (s,true) else
  let (s,size) := if file.append ∨ file.pos > file.size then append_stream_file io s i block.base file.size
    else sys_write io s i block.base (file.pos - BitVec.ofNat 64 (BUF_BLOCK_OFFSET file.pos.toNat))
  if size < 0 then (s,false) else (setBlock s b { block with dirty := false },true)

/-- The block `b` is that of the stream `i` no longer. -/
def release (s : State σ) (i : σ) (b : Fin BUF_BLOCK_NUM) : State σ :=
  let s := setStream s i { s.stream i with block := none }
  setBlock s b (free_block (s.buffer_pool b).base)

/-- No result stands for a null pointer that is followed. -/
def swap_out_buffer_block (s : State σ) (b : Fin BUF_BLOCK_NUM) : Option (State σ × Bool) := do
  let i ← (s.buffer_pool b).file
  let c ← (s.stream i).block
  let (s,ret) := update_dirty_buffer_block io s i c
  return (release s i b,ret)

/-- The first block with the least count of accesses. -/
def mix_index (s : State σ) : Fin BUF_BLOCK_NUM :=
  (List.finRange BUF_BLOCK_NUM).foldl (fun mix i =>
    if (s.buffer_pool i).access_count < (s.buffer_pool mix).access_count then i else mix) ⟨0,block_num_pos⟩

/-- A busy block, and one that could not be written, is not returned. -/
def get_rebirth_buffer_block (s : State σ) : Option (State σ × Option (Fin BUF_BLOCK_NUM)) :=
  if (s.buffer_pool (mix_index s)).busy then some (s,none) else do
  let (s',ret) ← swap_out_buffer_block io s (mix_index s)
  return (s',if ret then some (mix_index s) else none)

def get_free_buffer_block (s : State σ) : Option (Fin BUF_BLOCK_NUM) :=
  (List.finRange BUF_BLOCK_NUM).find? (fun b => (s.buffer_pool b).file.isNone)

/-- The block `b` becomes that of the stream `i`. -/
def assign (s : State σ) (i : σ) (b : Fin BUF_BLOCK_NUM) : State σ :=
  let s := setStream s i { s.stream i with block := some b }
  setBlock s b { s.buffer_pool b with
    file := some i, busy := true, access_count := (s.buffer_pool b).access_count + 1 }

/-- After a first round in vain the second one finds the block that could not be written, which is free then; when that was
    a busy one nothing has changed: the loop does not end, and there is no result. -/
def get_buffer_block (s : State σ) (i : σ) : Option (State σ × Fin BUF_BLOCK_NUM) :=
  match get_free_buffer_block s with
  | some b => some (assign s i b,b)
  | none => do
    let (s',rebirth) ← get_rebirth_buffer_block io s
    let b ← rebirth <|> get_free_buffer_block s'
    return (assign s' i b,b)

def put_buffer_block (s : State σ) (b : Fin BUF_BLOCK_NUM) : State σ :=
  setBlock s b { s.buffer_pool b with busy := false }

/-- The kernel copies whole blocks, and none when it fails. -/
def sys_read (s : State σ) (i : σ) (b : Fin BUF_BLOCK_NUM) (file_pos : BitVec 64) : State σ × Read :=
  let req := io.read s.reads file_pos
  let s := { s with reads := s.reads + 1 }
  if req.result < 0 then (s,req) else
  let s := setBlock s b { s.buffer_pool b with
    base := fun k => if k < BUF_BLOCK_SIZE then req.data k else (s.buffer_pool b).base k }
  (setStream s i { s.stream i with size := req.current_size },req)

/-- Where the block of the file starts in which the position is. -/
def block_pos (pos : BitVec 64) : BitVec 64 := BitVec.ofNat 64 (BUF_BLOCK_ID pos.toNat * BUF_BLOCK_SIZE)

/-- The part of `make_valid_data` that goes from the disk to the block. -/
def disk_to_block (s : State σ) (i : σ) (b : Fin BUF_BLOCK_NUM) (fpos : BitVec 64) : State σ × Bool :=
  match sys_read io s i b (block_pos fpos) with
  | (s,req) =>
    if req.result > 0 then (setBlock s b { s.buffer_pool b with valid_size := req.size, valid := true },true)
    else (s,false)

def make_valid_data (s : State σ) (i : σ) (b : Fin BUF_BLOCK_NUM) : State σ × Bool :=
  let fpos := (s.stream i).pos
  let s := if as_uoffset (s.buffer_pool b).pre_id.toNat ≠ BUF_BLOCK_ID fpos.toNat then
      let s := (update_dirty_buffer_block io s i b).1
      setBlock s b { s.buffer_pool b with valid := false }
    else s
  if (s.buffer_pool b).valid then (s,true) else disk_to_block io s i b fpos

/-- In front of a round of a loop, with the bytes still to transfer and the buffer of the caller. -/
structure Head (σ β : Type) where
  state : State σ
  n_bytes : Int
  buf : β

/-- What a `memcpy` takes from a block, and how much of the block was valid. -/
structure Copy where
  offset : Nat
  len : Nat
  valid_size : Nat
  base : Nat → UInt8

/-- The difference of the positions as an `ssize_t`. -/
def moved (pos : BitVec 64) (start_pos : BitVec 32) : Int := ((pos - start_pos.setWidth 64).setWidth 32).toInt

/-- `tmp_len`, a `size_t`, for the bytes that are valid behind the position. -/
def fread_len (valid_size offset : Nat) (n_bytes : Int) : Nat :=
  let tmp_len : Nat := (valid_size + 2^32 - offset) % 2^32
  if (tmp_len : Int) > n_bytes then n_bytes.toNat else tmp_len

/-- The rest of a round of `stdio_fread`; the buffer of the caller is the copies made to it, one behind the other. -/
def fread_copy (i : σ) (b : Fin BUF_BLOCK_NUM) (s : State σ) (n_bytes : Int) (buf : List Copy) : Head σ (List Copy) :=
  let pos := (s.stream i).pos
  let block := s.buffer_pool b
  let offset := BUF_BLOCK_OFFSET pos.toNat
  let tmp_len := fread_len block.valid_size offset n_bytes
  let s := setBlock s b { block with pre_id := BitVec.ofNat 32 (BUF_BLOCK_ID pos.toNat) }
  let s := setStream s i { s.stream i with pos := pos + BitVec.ofNat 64 tmp_len }
  ⟨s,n_bytes - tmp_len,buf ++ [⟨offset,tmp_len,block.valid_size,block.base⟩]⟩

def fread_round (i : σ) (b : Fin BUF_BLOCK_NUM) (start_pos : BitVec 32) (head : Head σ (List Copy)) :
    (State σ × Int × List Copy) ⊕ Head σ (List Copy) :=
  if (head.state.stream i).pos < (head.state.stream i).size ∧ head.n_bytes > 0 then
    match make_valid_data io head.state i b with
    | (s,false) => .inl (s,-1,head.buf)
    | (s,true) => .inr (fread_copy i b s head.n_bytes head.buf)
  else .inl (head.state,moved (head.state.stream i).pos start_pos,head.buf)

/-- The block of the stream, which gets one when it has none. -/
def with_block (s : State σ) (i : σ) : Option (State σ × Fin BUF_BLOCK_NUM) :=
  match (s.stream i).block with
  | some b => some (s,b)
  | none => get_buffer_block io s i

def start_pos (s : State σ) (i : σ) : BitVec 32 := (s.stream i).pos.setWidth 32

/-- For at most so many rounds of the loop. -/
def stdio_fread (rounds : Nat) (s : State σ) (i : σ) (n_bytes : BitVec 32) : Option (State σ × Int × List Copy) :=
  if (s.stream i).access = .O_WRONLY then some (s,-1,[]) else
  if (s.stream i).size = 0 then some (s,0,[]) else do
  let (s,b) ← with_block io s i
  let (s,ret,buf) ← loop (fread_round io i b (start_pos s i)) rounds ⟨s,n_bytes.toInt,[]⟩
  return (put_buffer_block s b,ret,buf)

/-- The part of the block in which the position is that a write of so many bytes fills. -/
def fwrite_len (offset : Nat) (n_bytes : Int) : Nat :=
  if ((BUF_BLOCK_SIZE - offset : Nat) : Int) > n_bytes then n_bytes.toNat else BUF_BLOCK_SIZE - offset

/-- The rest of a round of `stdio_fwrite`; the buffer of the caller is what is left of it. -/
def fwrite_copy (i : σ) (b : Fin BUF_BLOCK_NUM) (s : State σ) (n_bytes : Int) (buf : Nat → UInt8) :
    Head σ (Nat → UInt8) :=
  let pos := (s.stream i).pos
  let block := s.buffer_pool b
  let offset := BUF_BLOCK_OFFSET pos.toNat
  let tmp_len := fwrite_len offset n_bytes
  let s := setBlock s b { block with
    base := fun k => if offset ≤ k ∧ k < offset + tmp_len then buf (k - offset) else block.base k
    pre_id := BitVec.ofNat 32 (BUF_BLOCK_ID pos.toNat)
    dirty := true }
  let s := setStream s i { s.stream i with pos := pos + BitVec.ofNat 64 tmp_len }
  ⟨s,n_bytes - tmp_len,fun k => buf (k + tmp_len)⟩

def fwrite_round (i : σ) (b : Fin BUF_BLOCK_NUM) (start_pos : BitVec 32) (head : Head σ (Nat → UInt8)) :
    (State σ × Int) ⊕ Head σ (Nat → UInt8) :=
  if head.n_bytes > 0 then
    match make_valid_data io head.state i b with
    | (s,valid) =>
      if valid = false ∧ io.eio s.reads then .inl (s,-1) else .inr (fwrite_copy i b s head.n_bytes head.buf)
  else .inl (head.state,moved (head.state.stream i).pos start_pos)

/-- A stream that appends goes to the end of its file. -/
def append_pos (s : State σ) (i : σ) : State σ :=
  if (s.stream i).append then setStream s i { s.stream i with pos := (s.stream i).size } else s

def stdio_fwrite (rounds : Nat) (s : State σ) (i : σ) (n_bytes : BitVec 32) (buf : Nat → UInt8) :
    Option (State σ × Int) :=
  if (s.stream i).access = .O_RDONLY then some (s,0) else do
  let (s,b) ← with_block io s i
  let s := append_pos s i
  let (s,ret) ← loop (fwrite_round io i b (start_pos s i)) rounds ⟨s,n_bytes.toInt,buf⟩
  return (put_buffer_block s b,ret)

/-- `tmp_pos` in a file with the given position and size. -/
def tmp_pos (pos size offset : BitVec 64) : Whence → BitVec 64
  | .SEEK_SET => offset
  | .SEEK_CUR => pos + offset
  | .SEEK_END => size + offset
  | .other => -1

/-- The data of the stream's own block, if it has one, are written. -/
def update_own_block (s : State σ) (i : σ) : State σ :=
  match (s.stream i).block with
  | some b => (update_dirty_buffer_block io s i b).1
  | none => s

/-- `tmp_pos < 0` is never true of the unsigned `tmp_pos`. -/
def stdio_fseek (s : State σ) (i : σ) (offset : BitVec 64) (whence : Whence) : State σ × Int :=
  let s := update_own_block io s i
  let file := s.stream i
  (setStream s i { file with pos := tmp_pos file.pos file.size offset whence },0)

def filp_delete (s : State σ) (i : σ) : State σ := { s with freed := Function.update s.freed i true }

def stdio_fclose (s : State σ) (i : σ) : Option (State σ × Int) := do
  let s ← match (s.stream i).block with
    | some b => (swap_out_buffer_block io s b).map (fun (s,_) => setStream s i { s.stream i with block := none })
    | none => some s
  return (filp_delete s i,0)

end Code

section Statement
variable {σ : Type} [DecidableEq σ] (io : Io)

/-- A read of so many bytes, in front of its loop. -/
def fread_head (s : State σ) (n_bytes : BitVec 32) : Head σ (List Copy) := ⟨s,n_bytes.toInt,[]⟩

/-- How many bytes were copied to the caller. -/
def total (buf : List Copy) : Nat := (buf.map Copy.len).sum

/-- The loop of `stdio_fread` ends, with no more bytes than asked for, and all of them valid ones. -/
def Right (s : State σ) (i : σ) (b : Fin BUF_BLOCK_NUM) (n_bytes : BitVec 32) : Prop :=
  ∃ s' ret buf, Returns (fread_round io i b (start_pos s i)) (fread_head s n_bytes) (s',ret,buf) ∧
    total buf ≤ n_bytes.toInt.toNat ∧ ∀ c ∈ buf, ∀ k < c.len, c.offset + k < c.valid_size

/-- The block holds the one of the file in which the position is. -/
def Cached (s : State σ) (i : σ) (b : Fin BUF_BLOCK_NUM) : Prop :=
  as_uoffset (s.buffer_pool b).pre_id.toNat = BUF_BLOCK_ID (s.stream i).pos.toNat ∧ (s.buffer_pool b).valid = true

instance (s : State σ) (i : σ) (b : Fin BUF_BLOCK_NUM) : Decidable (Cached s i b) := inferInstanceAs (Decidable (_ ∧ _))

/-- An answer that fills the block up to the offset, in a file that goes on behind the position. -/
def Short (req : Read) (pos : BitVec 64) : Prop := req.result = BUF_BLOCK_OFFSET pos.toNat ∧ pos < req.current_size

/-- The loop of `stdio_fread` goes into a round. -/
def Wanted (i : σ) (head : Head σ (List Copy)) : Prop :=
  (head.state.stream i).pos < (head.state.stream i).size ∧ head.n_bytes > 0

instance (i : σ) (head : Head σ (List Copy)) : Decidable (Wanted i head) := inferInstanceAs (Decidable (_ ∧ _))

/-- The answer to a read of the block in which the position is. -/
def answer (s : State σ) (i : σ) : Read := io.read s.reads (block_pos (s.stream i).pos)

def offset (s : State σ) (i : σ) : Nat := BUF_BLOCK_OFFSET (s.stream i).pos.toNat

/-- In front of a round the block, as it is or as it is read, is valid beyond the offset of the position. An answer that
    fills it just up to there will do when one of the answers from then on is another or ends the file. -/
structure Covers (i : σ) (b : Fin BUF_BLOCK_NUM) (head : Head σ (List Copy)) : Prop where
  cached : Wanted i head → Cached head.state i b → offset head.state i < (head.state.buffer_pool b).valid_size
  read : Wanted i head → ¬Cached head.state i b → (answer io head.state i).result ≤ 0 ∨
    offset head.state i < (answer io head.state i).result ∨ offset head.state i = (answer io head.state i).result ∧
      ∃ j ≥ head.state.reads, ¬Short (io.read j (block_pos (head.state.stream i).pos)) (head.state.stream i).pos

end Statement

/-! ### What the parts of a transfer do to the state -/

section Fields
variable {σ : Type} (s : State σ) (b : Fin BUF_BLOCK_NUM) (block : buffer_block σ)

@[simp] theorem setBlock_pool : (setBlock s b block).buffer_pool = Function.update s.buffer_pool b block := rfl
@[simp] theorem setBlock_stream : (setBlock s b block).stream = s.stream := rfl
@[simp] theorem setBlock_reads : (setBlock s b block).reads = s.reads := rfl
@[simp] theorem free_block_file (base : Nat → UInt8) : (free_block base : buffer_block σ).file = none := rfl
@[simp] theorem setBlock_written : (setBlock s b block).written = s.written := rfl

variable [DecidableEq σ] (i : σ) (file : stdio_file)

@[simp] theorem setStream_pool : (setStream s i file).buffer_pool = s.buffer_pool := rfl
@[simp] theorem setStream_stream : (setStream s i file).stream = Function.update s.stream i file := rfl
@[simp] theorem setStream_reads : (setStream s i file).reads = s.reads := rfl
@[simp] theorem setStream_written : (setStream s i file).written = s.written := rfl

end Fields

section Effects
variable {σ : Type} [DecidableEq σ] (io : Io) (s : State σ) (i : σ) (b : Fin BUF_BLOCK_NUM)

/-- Where a dirty block is written to. -/
def write_pos (file : stdio_file) : BitVec 64 :=
  if file.append ∨ file.pos > file.size then file.size else file.pos - BitVec.ofNat 64 (BUF_BLOCK_OFFSET file.pos.toNat)

/-- The next write fails. -/
def WriteFails : Bool := decide (io.write s.written.length < 0)

variable {io s i b}

section Dirty
omit [DecidableEq σ]

theorem update_dirty_clean (clean : (s.buffer_pool b).dirty = false) : update_dirty_buffer_block io s i b = (s,true) := by
  rw [update_dirty_buffer_block,if_pos clean]

theorem update_dirty_write (dirty : (s.buffer_pool b).dirty = true) : update_dirty_buffer_block io s i b =
    (let s' := (sys_write io s i (s.buffer_pool b).base (write_pos (s.stream i))).1
     if WriteFails io s then (s',false) else (setBlock s' b { s.buffer_pool b with dirty := false },true)) := by
  rw [update_dirty_buffer_block,if_neg (by simp [dirty])]
  by_cases past : (s.stream i).append = true ∨ (s.stream i).pos > (s.stream i).size
  · simp [append_stream_file,sys_write,WriteFails,write_pos,past]
  · simp [sys_write,WriteFails,write_pos,past]

/-- A block stays dirty when it could not be written. -/
theorem update_dirty_state : (update_dirty_buffer_block io s i b).1 = { s with
    buffer_pool := Function.update s.buffer_pool b
      { s.buffer_pool b with dirty := (s.buffer_pool b).dirty && WriteFails io s }
    written := if (s.buffer_pool b).dirty then
      ⟨i,write_pos (s.stream i),(s.buffer_pool b).base,io.write s.written.length⟩ :: s.written else s.written } := by
  have same : Function.update s.buffer_pool b { s.buffer_pool b with dirty := (s.buffer_pool b).dirty } = s.buffer_pool :=
    Function.update_eq_self b s.buffer_pool
  cases dirty : (s.buffer_pool b).dirty with
  | false =>
    rw [dirty] at same
    rw [update_dirty_clean dirty,Bool.false_and,same]
    rfl
  | true =>
    rw [dirty] at same
    rw [update_dirty_write dirty,Bool.true_and]
    cases fails : WriteFails io s with
    | false => rfl
    | true =>
      rw [same]
      rfl

@[simp] theorem update_dirty_stream : (update_dirty_buffer_block io s i b).1.stream = s.stream := by
  rw [update_dirty_state]

@[simp] theorem update_dirty_reads : (update_dirty_buffer_block io s i b).1.reads = s.reads := by
  rw [update_dirty_state]

@[simp] theorem update_dirty_pool : (update_dirty_buffer_block io s i b).1.buffer_pool =
    Function.update s.buffer_pool b { s.buffer_pool b with dirty := (s.buffer_pool b).dirty && WriteFails io s } := by
  rw [update_dirty_state]

theorem update_dirty_written : (update_dirty_buffer_block io s i b).1.written =
    if (s.buffer_pool b).dirty then
      ⟨i,write_pos (s.stream i),(s.buffer_pool b).base,io.write s.written.length⟩ :: s.written else s.written := by
  rw [update_dirty_state]

end Dirty

variable (io s i b)

/-- The block is one of another part of the file than the position. -/
def Changed : Prop := as_uoffset (s.buffer_pool b).pre_id.toNat ≠ BUF_BLOCK_ID (s.stream i).pos.toNat

instance : Decidable (Changed s i b) := inferInstanceAs (Decidable (_ ≠ _))

/-- What `make_valid_data` does to a block that it reads, and what it returns. -/
structure Fetched (s' : State σ) (ret : Bool) : Prop where
  ret : ret = decide (0 < (answer io s i).result)
  reads : s'.reads = s.reads + 1
  stream : s'.stream = Function.update s.stream i { s.stream i with
    size := if (answer io s i).result < 0 then (s.stream i).size else (answer io s i).current_size }
  pool : s'.buffer_pool = Function.update s.buffer_pool b { s.buffer_pool b with
    valid_size := if 0 < (answer io s i).result then (answer io s i).size else (s.buffer_pool b).valid_size
    valid := decide (0 < (answer io s i).result)
    dirty := (s.buffer_pool b).dirty && (!decide (Changed s i b) || WriteFails io s)
    base := fun k => if 0 ≤ (answer io s i).result ∧ k < BUF_BLOCK_SIZE then (answer io s i).data k
      else (s.buffer_pool b).base k }
  written : s'.written = if Changed s i b ∧ (s.buffer_pool b).dirty then
    ⟨i,write_pos (s.stream i),(s.buffer_pool b).base,io.write s.written.length⟩ :: s.written else s.written

variable {io s i b}

omit [DecidableEq σ] in
theorem not_cached_iff : ¬Cached s i b ↔ Changed s i b ∨ (s.buffer_pool b).valid = false := by
  unfold Cached Changed
  rw [Decidable.not_and_iff_not_or_not,Bool.not_eq_true]

theorem make_valid_cached (cached : Cached s i b) : make_valid_data io s i b = (s,true) := by
  simp [make_valid_data,cached.1,cached.2]

/-- The read behind what is done for a block that has changed. -/
theorem disk_to_block_fetched {s₁ : State σ} (stream : s₁.stream = s.stream) (reads : s₁.reads = s.reads)
    (pool : s₁.buffer_pool = Function.update s.buffer_pool b { s.buffer_pool b with
      valid := false, dirty := (s.buffer_pool b).dirty && (!decide (Changed s i b) || WriteFails io s) })
    (written : s₁.written = if Changed s i b ∧ (s.buffer_pool b).dirty then
      ⟨i,write_pos (s.stream i),(s.buffer_pool b).base,io.write s.written.length⟩ :: s.written else s.written) :
    Fetched io s i b (disk_to_block io s₁ i b (s.stream i).pos).1 (disk_to_block io s₁ i b (s.stream i).pos).2 := by
  unfold disk_to_block sys_read
  rw [reads,← answer]
  rcases Int.lt_trichotomy (answer io s i).result 0 with error | nothing | some
  · have none : ¬0 < (answer io s i).result := by omega
    have not_nonneg : ¬0 ≤ (answer io s i).result := by omega
    simp only [if_pos error,gt_iff_lt,if_neg none]
    exact ⟨by simp [none],rfl,by simp [stream,error],by simp [pool,none,not_nonneg],written⟩
  · simp only [nothing,gt_iff_lt,lt_irrefl,if_false]
    exact ⟨by simp [nothing],rfl,by simp [stream,nothing],by simp [pool,nothing],written⟩
  · have not_error : ¬(answer io s i).result < 0 := by omega
    simp only [if_neg not_error,gt_iff_lt,if_pos some]
    exact ⟨by simp [some],rfl,by simp [stream,not_error],by simp [pool,some,some.le],written⟩

variable (io) in
/-- A block that is not the right one, or not valid, is read, and a dirty one that is not the right one written before. -/
theorem make_valid_fetched (stale : ¬Cached s i b) :
    Fetched io s i b (make_valid_data io s i b).1 (make_valid_data io s i b).2 := by
  unfold make_valid_data
  by_cases changed : Changed s i b
  · have other := changed
    unfold Changed at other
    simp only [if_pos other,setBlock_pool,Function.update_self,Bool.false_eq_true,if_false]
    refine disk_to_block_fetched ?_ ?_ ?_ ?_
    · simp
    · simp
    · simp [changed]
    · simp [changed,update_dirty_written]
  · have same := changed
    unfold Changed at same
    have invalid := (not_cached_iff.mp stale).resolve_left changed
    simp only [if_neg same,invalid,Bool.false_eq_true,if_false]
    refine disk_to_block_fetched rfl rfl ?_ ?_
    · simp only [changed,decide_false,Bool.not_false,Bool.true_or,Bool.and_true]
      rw [← invalid]
      exact (Function.update_eq_self b s.buffer_pool).symm
    · rw [if_neg (fun wrong => changed wrong.1)]

end Effects

/-! ### The rounds of a read -/

section Lengths
variable {valid_size offset : Nat} {n_bytes : Int}

theorem fread_len_le (wanted : 0 < n_bytes) : (fread_len valid_size offset n_bytes : Int) ≤ n_bytes := by
  unfold fread_len
  dsimp only
  split <;> omega

theorem fread_len_within (inside : offset < valid_size) (block : valid_size ≤ BUF_BLOCK_SIZE) (wanted : 0 < n_bytes) :
    0 < fread_len valid_size offset n_bytes ∧ offset + fread_len valid_size offset n_bytes ≤ valid_size := by
  have small : valid_size ≤ 2^18 := block
  have left : (valid_size + 2^32 - offset) % 2^32 = valid_size - offset := by omega
  unfold fread_len
  dsimp only
  rw [left]
  split <;> omega

theorem fread_len_none (wanted : 0 < n_bytes) : fread_len offset offset n_bytes = 0 := by
  have left : (offset + 2^32 - offset) % 2^32 = 0 := by omega
  unfold fread_len
  dsimp only
  rw [left,if_neg (by omega)]

/-- In front of the position the subtraction wraps around. -/
theorem fread_len_past (past : valid_size < offset) (block : offset < BUF_BLOCK_SIZE) (wanted : 0 < n_bytes) :
    0 < fread_len valid_size offset n_bytes := by
  have small : offset < 2^18 := block
  have left : (valid_size + 2^32 - offset) % 2^32 = valid_size + 2^32 - offset := by omega
  unfold fread_len
  dsimp only
  rw [left]
  split <;> omega

end Lengths

@[simp] theorem Read.size_val (req : Read) : req.size.val = req.result.toNat := rfl

section Reads
variable {σ : Type} [DecidableEq σ] (io : Io) (i : σ) (b : Fin BUF_BLOCK_NUM)

/-- From a head to the next one: the block is the one that was there, or a new one. -/
structure Advances (head next : Head σ (List Copy)) (len : Nat) : Prop where
  step : len = fread_len (next.state.buffer_pool b).valid_size (offset head.state i)
    head.n_bytes
  n_bytes : next.n_bytes = head.n_bytes - len
  buf : next.buf = head.buf ++ [⟨offset head.state i,len,
    (next.state.buffer_pool b).valid_size,(next.state.buffer_pool b).base⟩]
  pos : (next.state.stream i).pos = (head.state.stream i).pos + BitVec.ofNat 64 len
  valid : (next.state.buffer_pool b).valid = true
  pre_id : (next.state.buffer_pool b).pre_id = BitVec.ofNat 32 (BUF_BLOCK_ID (head.state.stream i).pos.toNat)
  source : Cached head.state i b ∧ (next.state.buffer_pool b).valid_size = (head.state.buffer_pool b).valid_size ∧
      (next.state.stream i).size = (head.state.stream i).size ∧ next.state.reads = head.state.reads ∨
    ¬Cached head.state i b ∧ 0 < (answer io head.state i).result ∧
      (next.state.buffer_pool b).valid_size = (answer io head.state i).size ∧
      (next.state.stream i).size = (answer io head.state i).current_size ∧ next.state.reads = head.state.reads + 1

variable {io i b} {start : BitVec 32} {head next : Head σ (List Copy)}

theorem fread_done (done : ¬Wanted i head) : fread_round io i b start head =
    .inl (head.state,moved (head.state.stream i).pos start,head.buf) := if_neg done

theorem fread_wanted (wanted : Wanted i head) : fread_round io i b start head =
    if (make_valid_data io head.state i b).2 then
      .inr (fread_copy i b (make_valid_data io head.state i b).1 head.n_bytes head.buf)
    else .inl ((make_valid_data io head.state i b).1,-1,head.buf) := by
  refine (if_pos wanted).trans ?_
  cases make_valid_data io head.state i b with
  | mk s valid => cases valid <;> rfl

/-- The data are valid when the block is the right one or something was read. -/
theorem make_valid_ok (s : State σ) :
    (make_valid_data io s i b).2 = true ↔ Cached s i b ∨ 0 < (answer io s i).result := by
  by_cases cached : Cached s i b
  · simp [make_valid_cached cached,cached]
  · rw [(make_valid_fetched io cached).ret]
    simp [cached]

theorem fread_fails (wanted : Wanted i head) (stale : ¬Cached head.state i b)
    (nothing : (answer io head.state i).result ≤ 0) : fread_round io i b start head =
    .inl ((make_valid_data io head.state i b).1,-1,head.buf) := by
  rw [fread_wanted wanted,if_neg]
  rw [make_valid_ok]
  exact not_or.mpr ⟨stale,not_lt.mpr nothing⟩

variable (io b start) in
theorem fread_advances (wanted : Wanted i head) (ready : Cached head.state i b ∨ 0 < (answer io head.state i).result) :
    ∃ next len, Goes (fread_round io i b start) head next ∧ Advances io i b head next len := by
  have goes : Goes (fread_round io i b start) head
      (fread_copy i b (make_valid_data io head.state i b).1 head.n_bytes head.buf) := by
    rw [Goes,fread_wanted wanted,if_pos ((make_valid_ok _).mpr ready)]
  refine ⟨_,fread_len ((make_valid_data io head.state i b).1.buffer_pool b).valid_size
    (BUF_BLOCK_OFFSET ((make_valid_data io head.state i b).1.stream i).pos.toNat) head.n_bytes,goes,?_⟩
  by_cases cached : Cached head.state i b
  · rw [make_valid_cached cached]
    exact ⟨by simp [fread_copy,offset],rfl,by simp [fread_copy,offset],by simp [fread_copy],by simp [fread_copy,cached.2],
      by simp [fread_copy],.inl ⟨cached,by simp [fread_copy]⟩⟩
  · have some := ready.resolve_left cached
    have fetched := make_valid_fetched io cached
    have not_error : ¬(answer io head.state i).result < 0 := by omega
    exact ⟨by simp [fread_copy,fetched.stream,offset],rfl,by simp [fread_copy,fetched.stream,offset],
      by simp [fread_copy,fetched.stream],      by simp [fread_copy,fetched.pool,some],by simp [fread_copy,fetched.stream],
      .inr ⟨cached,some,by simp [fread_copy,fetched.pool,some],by simp [fread_copy,fetched.stream,not_error],fetched.reads⟩⟩

theorem fread_goes (goes : Goes (fread_round io i b start) head next) :
    Wanted i head ∧ ∃ len, Advances io i b head next len := by
  by_cases wanted : Wanted i head
  · by_cases ready : Cached head.state i b ∨ 0 < (answer io head.state i).result
    · obtain ⟨next',len,goes',advances⟩ := fread_advances io b start wanted ready
      obtain rfl : next' = next := Sum.inr.inj (goes'.symm.trans goes)
      exact ⟨wanted,len,advances⟩
    · obtain ⟨stale,nothing⟩ := not_or.mp ready
      rw [Goes,fread_fails wanted stale (not_lt.mp nothing)] at goes
      cases goes
  · rw [Goes,fread_done wanted] at goes
    cases goes

/-- What is copied stays copied. -/
theorem copied_stays (reached : Reached (fread_round io i b start) head next) : head.buf <+: next.buf := by
  induction reached with
  | refl => exact List.prefix_rfl
  | tail _ goes ih =>
    obtain ⟨_,len,advances⟩ := fread_goes goes
    rw [advances.buf]
    exact ih.trans (List.prefix_append _ _)

theorem returned_buf {last : Head σ (List Copy)} {s' : State σ} {ret : Int} {buf : List Copy}
    (ends : fread_round io i b start last = .inl (s',ret,buf)) : buf = last.buf := by
  by_cases wanted : Wanted i last
  · rw [fread_wanted wanted] at ends
    split at ends
    · cases ends
    · cases ends
      rfl
  · rw [fread_done wanted] at ends
    cases ends
    rfl

/-- A copy from a block that is short in front of the position is in what the loop returns. -/
theorem short_copy {s' : State σ} {ret : Int} {buf : List Copy} {len : Nat} (wanted : Wanted i head)
    (goes : Goes (fread_round io i b start) head next) (advances : Advances io i b head next len)
    (past : (next.state.buffer_pool b).valid_size < offset head.state i)
    (returns : Returns (fread_round io i b start) head (s',ret,buf)) :
    ∃ c ∈ buf, ∃ k < c.len, c.valid_size ≤ c.offset + k := by
  obtain ⟨last,reached,ends⟩ := returns_iff.mp ((returns_next goes).mp returns)
  have positive : 0 < len := by
    rw [advances.step]
    exact fread_len_past past (StreamFile.offset_lt _) wanted.2
  have kept := copied_stays reached
  rw [returned_buf ends]
  refine ⟨_,kept.subset (by rw [advances.buf]; exact List.mem_append_right _ (List.mem_singleton.mpr rfl)),0,positive,?_⟩
  exact past.le

omit [DecidableEq σ] in
/-- Nothing is copied from a block that is valid just up to the position. -/
theorem stays {len : Nat} (wanted : Wanted i head) (advances : Advances io i b head next len)
    (full : (next.state.buffer_pool b).valid_size.val = offset head.state i) :
    (next.state.stream i).pos = (head.state.stream i).pos ∧ offset next.state i = offset head.state i ∧
      next.n_bytes = head.n_bytes := by
  have none : len = 0 := by rw [advances.step,full,fread_len_none wanted.2]
  rw [offset,offset,advances.pos,advances.n_bytes,none]
  simp

omit [DecidableEq σ] in
/-- The block that a round leaves is the one that the position asks for when it was that before. -/
theorem cached_again {len : Nat} (advances : Advances io i b head next len) (cached : Cached head.state i b)
    (same : (next.state.stream i).pos = (head.state.stream i).pos) : Cached next.state i b := by
  refine ⟨?_,advances.valid⟩
  have number := cached.1
  have pattern := (head.state.buffer_pool b).pre_id.isLt
  have id : BUF_BLOCK_ID (head.state.stream i).pos.toNat < 2^46 := by
    have := (head.state.stream i).pos.isLt
    exact Nat.div_lt_of_lt_mul this
  rw [advances.pre_id,same,BitVec.toNat_ofNat]
  unfold as_uoffset at number ⊢
  split at number <;> grind

/-- A head that leads to one like it. -/
structure Idle (io : Io) (i : σ) (b : Fin BUF_BLOCK_NUM) (head : Head σ (List Copy)) : Prop where
  wanted : Wanted i head
  full : Cached head.state i b →
    (head.state.buffer_pool b).valid_size.val = offset head.state i
  short : ¬Cached head.state i b → 0 < offset head.state i ∧
    ∀ j ≥ head.state.reads, Short (io.read j (block_pos (head.state.stream i).pos)) (head.state.stream i).pos

theorem idle_goes (idle : Idle io i b head) :
    ∃ next, Goes (fread_round io i b start) head next ∧ Idle io i b next := by
  by_cases cached : Cached head.state i b
  · obtain ⟨next,len,goes,advances⟩ := fread_advances io b start idle.wanted (.inl cached)
    obtain ⟨_,valid_size,size,_⟩ := advances.source.resolve_right (fun wrong => wrong.1 cached)
    have full := (congrArg Fin.val valid_size).trans (idle.full cached)
    obtain ⟨pos,here,n_bytes⟩ := stays idle.wanted advances full
    refine ⟨next,goes,⟨?_,fun _ => full.trans here.symm,fun stale => absurd (cached_again advances cached pos) stale⟩⟩
    rw [Wanted,pos,size,n_bytes]
    exact idle.wanted
  · obtain ⟨positive,short⟩ := idle.short cached
    obtain ⟨filled,behind⟩ : Short (answer io head.state i) (head.state.stream i).pos := short _ le_rfl
    have result : (answer io head.state i).result = offset head.state i := filled
    obtain ⟨next,len,goes,advances⟩ := fread_advances io b start idle.wanted (.inr (by omega))
    obtain ⟨_,_,valid_size,size,reads⟩ := advances.source.resolve_left (fun wrong => cached wrong.1)
    have full : (next.state.buffer_pool b).valid_size.val = offset head.state i := by
      rw [valid_size,Read.size_val,result]
      exact Int.toNat_natCast _
    obtain ⟨pos,here,n_bytes⟩ := stays idle.wanted advances full
    refine ⟨next,goes,⟨?_,fun _ => full.trans here.symm,fun _ => ?_⟩⟩
    · rw [Wanted,pos,size,n_bytes]
      exact ⟨behind,idle.wanted.2⟩
    · rw [here,pos,reads]
      exact ⟨positive,fun j later => short j (Nat.le_of_succ_le later)⟩

/-- A loop that is right reads no block that is short in front of the position. -/
theorem covers_of_returns {s' : State σ} {ret : Int} {buf : List Copy}
    (returns : Returns (fread_round io i b start) head (s',ret,buf))
    (valid : ∀ c ∈ buf, ∀ k < c.len, c.offset + k < c.valid_size) : Covers io i b head := by
  have enough {next : Head σ (List Copy)} {len : Nat} (wanted : Wanted i head)
      (goes : Goes (fread_round io i b start) head next) (advances : Advances io i b head next len) :
      offset head.state i ≤ (next.state.buffer_pool b).valid_size := by
    by_contra past
    obtain ⟨c,copied,k,inside,beyond⟩ := short_copy wanted goes advances (not_le.mp past) returns
    exact absurd (valid c copied k inside) (not_lt.mpr beyond)
  refine ⟨fun wanted cached => ?_,fun wanted stale => ?_⟩
  · obtain ⟨next,len,goes,advances⟩ := fread_advances io b start wanted (.inl cached)
    obtain ⟨_,valid_size,_⟩ := advances.source.resolve_right (fun wrong => wrong.1 cached)
    have le := enough wanted goes advances
    rw [valid_size] at le
    refine lt_of_le_of_ne le (fun full => ?_)
    exact endless (P := Idle io i b) ⟨wanted,fun _ => full.symm,fun stale => absurd cached stale⟩
      (fun _ => idle_goes) returns
  · by_cases some : 0 < (answer io head.state i).result
    · obtain ⟨next,len,goes,advances⟩ := fread_advances io b start wanted (.inr some)
      obtain ⟨_,_,valid_size,_⟩ := advances.source.resolve_left (fun wrong => stale wrong.1)
      have le := enough wanted goes advances
      rw [valid_size,Read.size_val] at le
      rcases Nat.lt_or_eq_of_le le with before | full
      · exact .inr (.inl (by omega))
      · refine .inr (.inr ⟨by omega,?_⟩)
        by_contra never
        have short (j : Nat) (later : j ≥ head.state.reads) :
            Short (io.read j (block_pos (head.state.stream i).pos)) (head.state.stream i).pos :=
          not_not.mp (fun other => never ⟨j,later,other⟩)
        exact endless (P := Idle io i b) ⟨wanted,fun cached => absurd cached stale,fun _ => ⟨by omega,short⟩⟩
          (fun _ => idle_goes) returns
    · exact .inl (not_lt.mp some)

/-- From a head that is covered the loop ends, goes on with fewer bytes to copy, or reads the block again. -/
theorem covers_cases (covers : Covers io i b head) :
    (∃ result, fread_round io i b start head = .inl result) ∨
    ∃ next, Goes (fread_round io i b start) head next ∧ (next.n_bytes.toNat < head.n_bytes.toNat ∨
      next.n_bytes = head.n_bytes ∧ (next.state.stream i).pos = (head.state.stream i).pos ∧
        next.state.reads = head.state.reads + 1 ∧ (next.state.stream i).size = (answer io head.state i).current_size ∧
        (answer io head.state i).result = offset head.state i ∧
        ∃ j ≥ head.state.reads, ¬Short (io.read j (block_pos (head.state.stream i).pos)) (head.state.stream i).pos) := by
  by_cases wanted : Wanted i head
  · have fewer {next : Head σ (List Copy)} {len : Nat} (advances : Advances io i b head next len)
        (inside : offset head.state i < (next.state.buffer_pool b).valid_size) :
        next.n_bytes.toNat < head.n_bytes.toNat := by
      have positive := (fread_len_within inside (Nat.le_of_lt_succ (next.state.buffer_pool b).valid_size.isLt) wanted.2).1
      have le : (len : Int) ≤ head.n_bytes := by
        rw [advances.step]
        exact fread_len_le wanted.2
      rw [← advances.step] at positive
      rw [advances.n_bytes]
      omega
    by_cases cached : Cached head.state i b
    · obtain ⟨next,len,goes,advances⟩ := fread_advances io b start wanted (.inl cached)
      obtain ⟨_,valid_size,_⟩ := advances.source.resolve_right (fun wrong => wrong.1 cached)
      exact .inr ⟨next,goes,.inl (fewer advances (by rw [valid_size]; exact covers.cached wanted cached))⟩
    · by_cases some : 0 < (answer io head.state i).result
      · obtain ⟨next,len,goes,advances⟩ := fread_advances io b start wanted (.inr some)
        obtain ⟨_,_,valid_size,size,reads⟩ := advances.source.resolve_left (fun wrong => cached wrong.1)
        refine .inr ⟨next,goes,?_⟩
        rcases (covers.read wanted cached).resolve_left (not_le.mpr some) with before | ⟨full,another⟩
        · exact .inl (fewer advances (by rw [valid_size,Read.size_val]; omega))
        · obtain ⟨pos,_,n_bytes⟩ := stays wanted advances (by rw [valid_size,Read.size_val]; omega)
          exact .inr ⟨n_bytes,pos,reads,size,full.symm,another⟩
      · exact .inl ⟨_,fread_fails wanted cached (not_lt.mp some)⟩
  · exact .inl ⟨_,fread_done wanted⟩

/-- Reading one block again and again ends with the answer that is another. -/
theorem ends_waiting {n : Nat} (fewer : ∀ head, head.n_bytes.toNat < n →
      (∀ last, Reached (fread_round io i b start) head last → Covers io i b last) →
      ∃ result, Returns (fread_round io i b start) head result) (d : Nat) :
    ∀ head, head.n_bytes.toNat = n → (∀ last, Reached (fread_round io i b start) head last → Covers io i b last) →
      ¬Short (io.read (head.state.reads + d) (block_pos (head.state.stream i).pos)) (head.state.stream i).pos →
      ∃ result, Returns (fread_round io i b start) head result := by
  induction d using Nat.strong_induction_on with
  | h d ih =>
    intro head bytes covers another
    obtain ⟨result,ends⟩ | ⟨next,goes,less | ⟨n_bytes,pos,reads,size,full,_⟩⟩ := covers_cases (covers head .refl)
    · exact ⟨result,returns_last ends⟩
    · obtain ⟨result,returns⟩ := fewer next (by omega) (fun last reached => covers last (.head goes reached))
      exact ⟨result,(returns_next goes).mpr returns⟩
    · cases d with
      | zero =>
        -- this answer is the other one, and must have ended the file
        have past : ¬Wanted i next := by
          rintro ⟨inside,_⟩
          rw [pos,size] at inside
          exact another ⟨full,inside⟩
        exact ⟨_,(returns_next goes).mpr (returns_last (fread_done past))⟩
      | succ d =>
        obtain ⟨result,returns⟩ := ih d (Nat.lt_succ_self d) next (by omega)
          (fun last reached => covers last (.head goes reached)) (by rw [reads,pos,Nat.add_right_comm]; exact another)
        exact ⟨result,(returns_next goes).mpr returns⟩

theorem ends_covered (n : Nat) : ∀ head, head.n_bytes.toNat = n →
    (∀ last, Reached (fread_round io i b start) head last → Covers io i b last) →
    ∃ result, Returns (fread_round io i b start) head result := by
  induction n using Nat.strong_induction_on with
  | h n ih =>
    intro head bytes covers
    have fewer (head : Head σ (List Copy)) (less : head.n_bytes.toNat < n) := ih _ less head rfl
    obtain ⟨result,ends⟩ | ⟨next,goes,less | ⟨_,_,_,_,_,j,later,another⟩⟩ := covers_cases (covers head .refl)
    · exact ⟨result,returns_last ends⟩
    · obtain ⟨result,returns⟩ := fewer next (by omega) (fun last reached => covers last (.head goes reached))
      exact ⟨result,(returns_next goes).mpr returns⟩
    · exact ends_waiting fewer (j - head.state.reads) head bytes covers (by rwa [Nat.add_sub_cancel' later])

/-- In front of a round nothing is copied that was not valid, and not more than was asked for. -/
structure Within (n : Nat) (head : Head σ (List Copy)) : Prop where
  total : total head.buf + head.n_bytes.toNat ≤ n
  valid : ∀ c ∈ head.buf, ∀ k < c.len, c.offset + k < c.valid_size

theorem within_next {n : Nat} (within : Within n head) (covers : Covers io i b head)
    (goes : Goes (fread_round io i b start) head next) : Within n next := by
  obtain ⟨wanted,len,advances⟩ := fread_goes goes
  have block := Nat.le_of_lt_succ (next.state.buffer_pool b).valid_size.isLt
  have le : (len : Int) ≤ head.n_bytes := by
    rw [advances.step]
    exact fread_len_le wanted.2
  have reaches : offset head.state i ≤ (next.state.buffer_pool b).valid_size := by
    rcases advances.source with ⟨cached,valid_size,_⟩ | ⟨stale,some,valid_size,_⟩
    · rw [valid_size]
      exact (covers.cached wanted cached).le
    · rw [valid_size,Read.size_val]
      rcases (covers.read wanted stale).resolve_left (not_le.mpr some) with before | ⟨full,_⟩ <;> omega
  refine ⟨?_,?_⟩
  · have bound := within.total
    rw [advances.buf,advances.n_bytes,total,List.map_append,List.sum_append]
    rw [total] at bound
    simp only [List.map_cons,List.map_nil,List.sum_cons,List.sum_nil]
    omega
  · intro c copied k inside
    rw [advances.buf] at copied
    obtain before | here := List.mem_append.mp copied
    · exact within.valid c before k inside
    · obtain rfl := List.mem_singleton.mp here
      dsimp only at inside ⊢
      rcases Nat.lt_or_eq_of_le reaches with before | full
      · have last := (fread_len_within before block wanted.2).2
        rw [← advances.step] at last
        omega
      · rw [advances.step,← full,fread_len_none wanted.2] at inside
        exact absurd inside (Nat.not_lt_zero k)

/-- The loop ends, copies at most what was asked for, and only valid bytes, exactly when each of its rounds meets a block
    that is valid beyond the position. -/
theorem reads_valid_iff (s : State σ) (n_bytes : BitVec 32) : Right io s i b n_bytes ↔
    ∀ head, Reached (fread_round io i b (start_pos s i)) (fread_head s n_bytes) head → Covers io i b head := by
  constructor
  · rintro ⟨s',ret,buf,returns,_,valid⟩ head reached
    exact covers_of_returns ((returns_reached reached).mp returns) valid
  · intro covers
    obtain ⟨⟨s',ret,buf⟩,returns⟩ := ends_covered _ _ rfl covers
    obtain ⟨last,reached,ends⟩ := returns_iff.mp returns
    have within : Within n_bytes.toInt.toNat last := reached.induct ⟨by simp [fread_head,total],by simp [fread_head]⟩
      (fun before _ reached within goes => within_next within (covers before reached) goes)
    refine ⟨s',ret,buf,returns,?_,?_⟩
    · rw [returned_buf ends]
      exact Nat.le_of_add_right_le within.total
    · rw [returned_buf ends]
      exact within.valid

end Reads

/-! ### A block that is short in front of the position -/

/-- Every read answers three bytes of a file of ten. -/
def three_of_ten : Io where
  read _ _ := ⟨3,by decide,10,fun _ => 7⟩
  write _ := 0
  eio _ := false

def first_block : Fin BUF_BLOCK_NUM := ⟨0,block_num_pos⟩

/-- A stream of ten bytes with an empty block, at the byte 5. -/
def at_five : State Unit where
  buffer_pool b := ⟨0,0,1,false,false,true,fun _ => 0,if b = first_block then some () else none⟩
  stream _ := ⟨.O_RDWR,false,some first_block,5,10⟩
  freed _ := false
  reads := 0
  written := []

/-- A read of two bytes takes them from behind the three valid ones. -/
theorem short_block_copied : ¬Right three_of_ten at_five () first_block 2 := by
  rintro ⟨s',ret,buf,returns,_,valid⟩
  rcases (covers_of_returns returns valid).read (by decide) (by decide) with nothing | before | ⟨full,_⟩
  · exact absurd nothing (by decide)
  · exact absurd before (by decide)
  · exact absurd full (by decide)

end GridOS.StreamIo
