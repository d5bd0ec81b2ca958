import Mathlib.Tactic

/-!
Buffered streams, `source/libs/grid/stdio/stream_file.c`. The streams `σ` share the pool of buffer
blocks, and the files `φ` are byte arrays that `sys_read` and `sys_write` transfer a whole block of,
the one in which the position is, as `req_read` and `req_write` of `source/subsystem/fs/main.c` do;
no transfer fails, so that `errno` is never `EIO`. A memory area is the function from its offsets.
-/
namespace GridOS.StreamFile

def BUF_SIZE : Nat := 1024 * 1024 * 4
def BUF_BLOCK_SIZE : Nat := 1024 * 256
def BUF_BLOCK_NUM : Nat := 16

example : BUF_BLOCK_NUM = BUF_SIZE / BUF_BLOCK_SIZE := rfl

def BUF_BLOCK_ID (pos : Nat) : Nat := pos / BUF_BLOCK_SIZE
def BUF_BLOCK_OFFSET (pos : Nat) : Nat := pos % BUF_BLOCK_SIZE

/-- `valid`, `dirty` and `busy` are the bits of `flags`, and `pre_id` is the pattern of an `int`. -/
structure buffer_block (σ : Type) where
  valid_size : Nat
  pre_id : Nat
  access_count : Nat
  valid : Bool
  dirty : Bool
  busy : Bool
  base : Nat → UInt8
  file : Option σ

inductive Access
  | O_RDONLY | O_WRONLY | O_RDWR
  deriving DecidableEq

/-- A `struct file` with its `struct stdio_file`; `access` and `append` are the bits of `flags`. -/
structure stdio_file (φ : Type) where
  access : Access
  append : Bool
  block : Option (Fin BUF_BLOCK_NUM)
  pos : Nat
  size : Nat
  handle : φ

/-- A file on disk; the last block of it is stored whole. -/
structure disk_file where
  size : Nat
  data : Nat → UInt8

structure State (σ φ : Type) where
  buffer_pool : Fin BUF_BLOCK_NUM → buffer_block σ
  stream : σ → stdio_file φ
  disk : φ → disk_file
  freed : σ → Bool

section Code
variable {σ φ : Type} [DecidableEq σ] [DecidableEq φ]

def setBlock (s : State σ φ) (b : Fin BUF_BLOCK_NUM) (block : buffer_block σ) : State σ φ :=
  { s with buffer_pool := Function.update s.buffer_pool b block }

def setStream (s : State σ φ) (i : σ) (file : stdio_file φ) : State σ φ :=
  { s with stream := Function.update s.stream i file }

/-- Writes the block in which `file_pos` is. -/
def sys_write (s : State σ φ) (handle : φ) (user_buffer : Nat → UInt8) (file_pos : Nat) : State σ φ :=
  { s with disk := Function.update s.disk handle { s.disk handle with
      data := fun p => if BUF_BLOCK_ID p = BUF_BLOCK_ID file_pos then user_buffer (BUF_BLOCK_OFFSET p)
        else (s.disk handle).data p } }

def append_stream_file (s : State σ φ) (handle : φ) (user_buffer : Nat → UInt8) (old_file_size : Nat) : State σ φ :=
  sys_write s handle user_buffer old_file_size

/-- `b` is the block of the stream `i`. -/
def update_dirty_buffer_block (s : State σ φ) (i : σ) (b : Fin BUF_BLOCK_NUM) : State σ φ :=
  let file := s.stream i
  let block := s.buffer_pool b
  if block.dirty = false then s else
  let s := if file.append ∨ file.pos > file.size then append_stream_file s file.handle block.base file.size
    else sys_write s file.handle block.base (file.pos - BUF_BLOCK_OFFSET file.pos)
  setBlock s b { block with dirty := false }

/-- The block `b` is that of the stream `i` no longer. -/
def release (s : State σ φ) (i : σ) (b : Fin BUF_BLOCK_NUM) : State σ φ :=
  let s := setStream s i { s.stream i with block := none }
  setBlock s b { s.buffer_pool b with
    file := none, access_count := 0, valid := false, dirty := false, busy := false, valid_size := 0, pre_id := 0 }

def swap_out_buffer_block (s : State σ φ) (b : Fin BUF_BLOCK_NUM) : Option (State σ φ) := do
  let i ← (s.buffer_pool b).file
  let c ← (s.stream i).block
  return release (update_dirty_buffer_block s i c) i b

/-- The first block with the least count of accesses. -/
def mix_index (s : State σ φ) : Fin BUF_BLOCK_NUM :=
  (List.finRange BUF_BLOCK_NUM).foldl (fun mix i =>
    if (s.buffer_pool i).access_count < (s.buffer_pool mix).access_count then i else mix) ⟨0,by decide⟩

def get_rebirth_buffer_block (s : State σ φ) : Option (State σ φ × Fin BUF_BLOCK_NUM) :=
  if (s.buffer_pool (mix_index s)).busy then none
  else (swap_out_buffer_block s (mix_index s)).map (fun s' => (s',mix_index s))

def get_free_buffer_block (s : State σ φ) : Option (Fin BUF_BLOCK_NUM) :=
  (List.finRange BUF_BLOCK_NUM).find? (fun b => (s.buffer_pool b).file.isNone)

/-- The block `b` becomes that of the stream `i`. -/
def assign (s : State σ φ) (i : σ) (b : Fin BUF_BLOCK_NUM) : State σ φ :=
  let s := setStream s i { s.stream i with block := some b }
  setBlock s b { s.buffer_pool b with
    file := some i, busy := true, access_count := (s.buffer_pool b).access_count + 1 }

/-- No result means that the loop around the two attempts does not end. -/
def get_buffer_block (s : State σ φ) (i : σ) : Option (State σ φ × Fin BUF_BLOCK_NUM) :=
  match get_free_buffer_block s with
  | some b => some (assign s i b,b)
  | none => (get_rebirth_buffer_block s).map (fun (s',b) => (assign s' i b,b))

def put_buffer_block (s : State σ φ) (b : Fin BUF_BLOCK_NUM) : State σ φ :=
  setBlock s b { s.buffer_pool b with busy := false }

/-- The value of an `int` as a `uoffset`, from its pattern. -/
def as_uoffset (pattern : Nat) : Nat := if pattern < 2^31 then pattern else pattern + (2^64 - 2^32)

/-- `BUF_BLOCK_ID` of a position as it is kept in `pre_id`. -/
def id_int (pos : Nat) : Nat := BUF_BLOCK_ID pos % 2^32

/-- Fills the block with the one of the file in which `pos` is, and returns how much of it is valid. -/
def sys_read (s : State σ φ) (i : σ) (b : Fin BUF_BLOCK_NUM) (pos : Nat) : State σ φ × Nat :=
  let disk := s.disk (s.stream i).handle
  let start := BUF_BLOCK_ID pos * BUF_BLOCK_SIZE
  let s := setBlock s b { s.buffer_pool b with base := fun k => disk.data (start + k) }
  (setStream s i { s.stream i with size := disk.size },min BUF_BLOCK_SIZE (disk.size - start))

/-- The part of `make_valid_data` that goes from the disk to the block. -/
def disk_to_block (s : State σ φ) (i : σ) (b : Fin BUF_BLOCK_NUM) (fpos : Nat) : State σ φ × Bool :=
  match sys_read s i b (BUF_BLOCK_ID fpos * BUF_BLOCK_SIZE) with
  | (s,size) =>
    if size > 0 then (setBlock s b { s.buffer_pool b with valid_size := size, valid := true },true) else (s,false)

def make_valid_data (s : State σ φ) (i : σ) (b : Fin BUF_BLOCK_NUM) : State σ φ × Bool :=
  let fpos := (s.stream i).pos
  let s := if as_uoffset (s.buffer_pool b).pre_id ≠ BUF_BLOCK_ID fpos then
      let s := update_dirty_buffer_block s i b
      setBlock s b { s.buffer_pool b with valid := false }
    else s
  if (s.buffer_pool b).valid then (s,true) else disk_to_block s i b fpos

/-- The loop of `stdio_fread`, for at most as many rounds as there are bytes to read: when none of
    them is the last one the loop does not end, and there is no result. -/
def fread_loop (i : σ) (b : Fin BUF_BLOCK_NUM) (start_pos : Nat) :
    Nat → State σ φ → Nat → List UInt8 → Option (State σ φ × Int × List UInt8)
  | rounds, s, n_bytes, buf =>
    if (s.stream i).pos < (s.stream i).size ∧ n_bytes > 0 then
      match rounds with
      | 0 => none
      | rounds+1 =>
        match make_valid_data s i b with
        | (s,false) => some (s,-1,buf)
        | (s,true) =>
          let pos := (s.stream i).pos
          let left := ((s.buffer_pool b).valid_size + 2^64 - BUF_BLOCK_OFFSET pos) % 2^64
          let tmp_len := if left > n_bytes then n_bytes else left
          let copied := (List.range tmp_len).map (fun k => (s.buffer_pool b).base (BUF_BLOCK_OFFSET pos + k))
          let s := setBlock s b { s.buffer_pool b with pre_id := id_int pos }
          let s := setStream s i { s.stream i with pos := pos + tmp_len }
          fread_loop i b start_pos rounds s (n_bytes - tmp_len) (buf ++ copied)
    else some (s,(s.stream i).pos - start_pos,buf)

/-- The block of the stream, which gets one when it has none. -/
def with_block (s : State σ φ) (i : σ) : Option (State σ φ × Fin BUF_BLOCK_NUM) :=
  match (s.stream i).block with
  | some b => some (s,b)
  | none => get_buffer_block s i

/-- What was read is behind the count. -/
def stdio_fread (s : State σ φ) (i : σ) (n_bytes : Nat) : Option (State σ φ × Int × List UInt8) :=
  if (s.stream i).access = .O_WRONLY then some (s,-1,[]) else
  if (s.stream i).size = 0 then some (s,0,[]) else do
  let (s,b) ← with_block s i
  let (s,ret,buf) ← fread_loop i b (s.stream i).pos n_bytes s n_bytes []
  return (put_buffer_block s b,ret,buf)

/-- The loop of `stdio_fwrite`, with `buf` what is left to write. -/
def fwrite_loop (i : σ) (b : Fin BUF_BLOCK_NUM) (start_pos : Nat) :
    Nat → State σ φ → List UInt8 → Option (State σ φ × Int)
  | rounds, s, buf =>
    if buf ≠ [] then
      match rounds with
      | 0 => none
      | rounds+1 =>
        let s := (make_valid_data s i b).1
        let pos := (s.stream i).pos
        let offset := BUF_BLOCK_OFFSET pos
        let tmp_len := if BUF_BLOCK_SIZE - offset > buf.length then buf.length else BUF_BLOCK_SIZE - offset
        let s := setBlock s b { s.buffer_pool b with
          base := fun k => if offset ≤ k ∧ k < offset + tmp_len then buf.getD (k - offset) 0
            else (s.buffer_pool b).base k
          pre_id := id_int pos
          dirty := true }
        let s := setStream s i { s.stream i with pos := pos + tmp_len }
        fwrite_loop i b start_pos rounds s (buf.drop tmp_len)
    else some (s,(s.stream i).pos - start_pos)

def stdio_fwrite (s : State σ φ) (i : σ) (buf : List UInt8) : Option (State σ φ × Int) :=
  if (s.stream i).access = .O_RDONLY then some (s,0) else do
  let (s,b) ← with_block s i
  let s := if (s.stream i).append then setStream s i { s.stream i with pos := (s.stream i).size } else s
  let (s,ret) ← fwrite_loop i b (s.stream i).pos buf.length s buf
  return (put_buffer_block s b,ret)

inductive Whence
  | SEEK_SET | SEEK_CUR | SEEK_END | other
  deriving DecidableEq

/-- The value of a signed offset as a `uoffset`. -/
def to_uoffset (offset : Int) : Nat := (offset % 2^64).toNat

/-- `tmp_pos` in a file with the given position and size. -/
def tmp_pos (pos size : Nat) (offset : Int) : Whence → Nat
  | .SEEK_SET => to_uoffset offset
  | .SEEK_CUR => to_uoffset (pos + offset)
  | .SEEK_END => to_uoffset (size + offset)
  | .other => to_uoffset (-1)

/-- The data of the stream's own block, if it has one, are written. -/
def update_own_block (s : State σ φ) (i : σ) : State σ φ :=
  match (s.stream i).block with
  | some b => update_dirty_buffer_block s i b
  | none => s

/-- `tmp_pos < 0` is never true of the unsigned `tmp_pos`. -/
def stdio_fseek (s : State σ φ) (i : σ) (offset : Int) (whence : Whence) : State σ φ × Int :=
  let s := update_own_block s i
  let file := s.stream i
  (setStream s i { file with pos := tmp_pos file.pos file.size offset whence },0)

def filp_delete (s : State σ φ) (i : σ) : State σ φ := { s with freed := Function.update s.freed i true }

def stdio_fclose (s : State σ φ) (i : σ) : Option (State σ φ × Int) := do
  let s ← match (s.stream i).block with
    | some b => (swap_out_buffer_block s b).map (fun s => setStream s i { s.stream i with block := none })
    | none => some s
  return (filp_delete s i,0)

/-! ### Runs -/

inductive Op (σ : Type)
  | fread (i : σ) (n_bytes : Nat)
  | fwrite (i : σ) (buf : List UInt8)
  | fseek (i : σ) (offset : Int) (whence : Whence)
  | fclose (i : σ)

/-- What an operation returns, with what it puts into the buffer of the caller. -/
structure Answer where
  ret : Int
  buf : List UInt8
  deriving DecidableEq

def step (s : State σ φ) : Op σ → Option (State σ φ × Answer)
  | .fread i n_bytes => (stdio_fread s i n_bytes).map (fun (s,ret,buf) => (s,⟨ret,buf⟩))
  | .fwrite i buf => (stdio_fwrite s i buf).map (fun (s,ret) => (s,⟨ret,[]⟩))
  | .fseek i offset whence => match stdio_fseek s i offset whence with
    | (s,ret) => some (s,⟨ret,[]⟩)
  | .fclose i => (stdio_fclose s i).map (fun (s,ret) => (s,⟨ret,[]⟩))

def run : State σ φ → List (Op σ) → Option (State σ φ × List Answer)
  | s, [] => some (s,[])
  | s, op :: ops => do
    let (s,answer) ← step s op
    let (s,answers) ← run s ops
    return (s,answer :: answers)

/-- The pool of `stream_file_buffer_init`, and a stream of `handle i` for every `i`, opened for
    reading and writing; `base` is what the memory of the pool holds. -/
def opened (handle : σ → φ) (disk : φ → disk_file) (base : Fin BUF_BLOCK_NUM → Nat → UInt8) : State σ φ where
  buffer_pool b := ⟨0,0,0,false,false,false,base b,none⟩
  stream i := ⟨.O_RDWR,false,none,0,(disk (handle i)).size,handle i⟩
  disk := disk
  freed _ := false

end Code

/-! ### The byte files that the streams are for -/

/-- Where a seek leads to. -/
def target (pos size : Nat) (offset : Int) : Whence → Option Int
  | .SEEK_SET => some offset
  | .SEEK_CUR => some (pos + offset)
  | .SEEK_END => some (size + offset)
  | .other => none

/-- Files with the bytes `content`, and the position of every stream. -/
structure ByteFiles (σ φ : Type) where
  handle : σ → φ
  size : φ → Nat
  content : φ → Nat → UInt8
  pos : σ → Nat

namespace ByteFiles
variable {σ φ : Type} [DecidableEq σ] [DecidableEq φ]

/-- How many of `n` bytes are in front of the end of the file. -/
def readable (t : ByteFiles σ φ) (i : σ) (n : Nat) : Nat := min n (t.size (t.handle i) - t.pos i)

def move (t : ByteFiles σ φ) (i : σ) (pos : Nat) : ByteFiles σ φ := { t with pos := Function.update t.pos i pos }

/-- The bytes of `buf` are at the position of the stream, and the others are where they were. -/
def write (t : ByteFiles σ φ) (i : σ) (buf : List UInt8) : ByteFiles σ φ :=
  { t with content := Function.update t.content (t.handle i) (fun p =>
      if t.pos i ≤ p ∧ p < t.pos i + buf.length then buf.getD (p - t.pos i) 0 else t.content (t.handle i) p) }

def step (t : ByteFiles σ φ) : Op σ → ByteFiles σ φ × Answer
  | .fread i n => (t.move i (t.pos i + t.readable i n),
      ⟨t.readable i n,(List.range (t.readable i n)).map (fun k => t.content (t.handle i) (t.pos i + k))⟩)
  | .fwrite i buf => ((t.write i buf).move i (t.pos i + buf.length),⟨buf.length,[]⟩)
  | .fseek i offset whence =>
    (t.move i ((target (t.pos i) (t.size (t.handle i)) offset whence).getD 0).toNat,⟨0,[]⟩)
  | .fclose _ => (t,⟨0,[]⟩)

def run : ByteFiles σ φ → List (Op σ) → ByteFiles σ φ × List Answer
  | t, [] => (t,[])
  | t, op :: ops =>
    let (t,answer) := t.step op
    let (t,answers) := run t ops
    (t,answer :: answers)

def opened (handle : σ → φ) (disk : φ → disk_file) : ByteFiles σ φ :=
  ⟨handle,fun f => (disk f).size,fun f => (disk f).data,fun _ => 0⟩

end ByteFiles

end GridOS.StreamFile
