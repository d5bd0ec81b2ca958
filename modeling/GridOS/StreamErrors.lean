import GridOS.StreamIo

/-!
What becomes of the dirty bytes of the streams when system calls fail. An operation is taken apart into its parts: getting a
block, a round of a loop, a seek, a close. A part is safe when every dirty block is written with success, kept as it is, or
the operation returns -1 to the stream it belongs to; which parts are not safe is what the result of the write-back, and a
read over a dirty block, decide.
-/
namespace GridOS.StreamErrors
open StreamFile (BUF_BLOCK_SIZE BUF_BLOCK_NUM BUF_BLOCK_ID BUF_BLOCK_OFFSET Access Whence as_uoffset)
open StreamIo Rounds

inductive Op (σ : Type)
  | fread (i : σ) (n_bytes : BitVec 32)
  | fwrite (i : σ) (n_bytes : BitVec 32) (buf : Nat → UInt8)
  | fseek (i : σ) (offset : BitVec 64) (whence : Whence)
  | fclose (i : σ)

/-- A part of an operation of a stream, in front of it. -/
inductive Part (σ : Type)
  | attach (s : State σ) (i : σ)
  | read (i : σ) (b : Fin BUF_BLOCK_NUM) (start : BitVec 32) (head : Head σ (List Copy))
  | write (i : σ) (b : Fin BUF_BLOCK_NUM) (start : BitVec 32) (head : Head σ (Nat → UInt8))
  | seek (s : State σ) (i : σ) (offset : BitVec 64) (whence : Whence)
  | close (s : State σ) (i : σ)

section Statement
variable {σ : Type} [DecidableEq σ] (io : Io)

/-- The state that an operation leaves and what it returns, when its loop ends in so many rounds. -/
def step (rounds : Nat) (s : State σ) : Op σ → Option (State σ × Int)
  | .fread i n_bytes => (stdio_fread io rounds s i n_bytes).map (fun (s,ret,_) => (s,ret))
  | .fwrite i n_bytes buf => stdio_fwrite io rounds s i n_bytes buf
  | .fseek i offset whence => some (stdio_fseek io s i offset whence)
  | .fclose i => stdio_fclose io s i

/-- The parts of an operation that begins in a state. -/
inductive Reaches (s : State σ) : Op σ → Part σ → Prop
  | read_attach {i : σ} {n_bytes : BitVec 32} (access : (s.stream i).access ≠ .O_WRONLY) (more : (s.stream i).size ≠ 0) :
    Reaches s (.fread i n_bytes) (.attach s i)
  | read {i : σ} {n_bytes : BitVec 32} {s' : State σ} {b : Fin BUF_BLOCK_NUM} {head : Head σ (List Copy)}
    (access : (s.stream i).access ≠ .O_WRONLY) (more : (s.stream i).size ≠ 0) (got : with_block io s i = some (s',b))
    (reached : Reached (fread_round io i b (start_pos s' i)) (fread_head s' n_bytes) head) :
    Reaches s (.fread i n_bytes) (.read i b (start_pos s' i) head)
  | write_attach {i : σ} {n_bytes : BitVec 32} {buf : Nat → UInt8} (access : (s.stream i).access ≠ .O_RDONLY) :
    Reaches s (.fwrite i n_bytes buf) (.attach s i)
  | write {i : σ} {n_bytes : BitVec 32} {buf : Nat → UInt8} {s' : State σ} {b : Fin BUF_BLOCK_NUM}
    {head : Head σ (Nat → UInt8)} (access : (s.stream i).access ≠ .O_RDONLY) (got : with_block io s i = some (s',b))
    (reached : Reached (fwrite_round io i b (start_pos (append_pos s' i) i)) ⟨append_pos s' i,n_bytes.toInt,buf⟩ head) :
    Reaches s (.fwrite i n_bytes buf) (.write i b (start_pos (append_pos s' i) i) head)
  | seek {i : σ} {offset : BitVec 64} {whence : Whence} : Reaches s (.fseek i offset whence) (.seek s i offset whence)
  | close {i : σ} : Reaches s (.fclose i) (.close s i)

namespace Part

def before : Part σ → State σ
  | attach s _ => s
  | read _ _ _ head => head.state
  | write _ _ _ head => head.state
  | seek s _ _ _ => s
  | close s _ => s

def stream : Part σ → σ
  | attach _ i => i
  | read i _ _ _ => i
  | write i _ _ _ => i
  | seek _ i _ _ => i
  | close _ i => i

/-- The state behind a part, and whether the operation ends there with -1. -/
def after : Part σ → Option (State σ × Bool)
  | attach s i => (with_block io s i).map (fun (s,_) => (s,false))
  | read i b start head => match fread_round io i b start head with
    | .inl (s,ret,_) => some (s,ret == -1)
    | .inr next => some (next.state,false)
  | write i b start head => match fwrite_round io i b start head with
    | .inl (s,ret) => some (s,ret == -1)
    | .inr next => some (next.state,false)
  | seek s i offset whence => match stdio_fseek io s i offset whence with
    | (s,ret) => some (s,ret == -1)
  | close s i => (stdio_fclose io s i).map (fun (s,ret) => (s,ret == -1))

/-- The bytes of its own block that a round of `stdio_fwrite` fills from the buffer of the caller. -/
def overwrites : Part σ → σ → Nat → Prop
  | write i _ _ head => fun j k => j = i ∧ offset head.state i ≤ k ∧
    k < offset head.state i + fwrite_len (offset head.state i) head.n_bytes
  | _ => fun _ _ => False

end Part

/-- The stream has data in the block that were not written. -/
def Pending (s : State σ) (j : σ) (b : Fin BUF_BLOCK_NUM) : Prop :=
  (s.stream j).block = some b ∧ (s.buffer_pool b).file = some j ∧ (s.buffer_pool b).dirty = true

/-- The data of the block were written, with a result that is not negative. -/
def Saved (s s' : State σ) (j : σ) (b : Fin BUF_BLOCK_NUM) : Prop :=
  ∃ w, s'.written = w :: s.written ∧ w.owner = j ∧ w.user_buffer = (s.buffer_pool b).base ∧ 0 ≤ w.result

/-- The block is as dirty as before, for the same part of the file, with the bytes that are not overwritten. -/
def Kept (s s' : State σ) (overwritten : Nat → Prop) (j : σ) (b : Fin BUF_BLOCK_NUM) : Prop :=
  Pending s' j b ∧ (s'.buffer_pool b).pre_id = (s.buffer_pool b).pre_id ∧
    ∀ k < BUF_BLOCK_SIZE, ¬overwritten k → (s'.buffer_pool b).base k = (s.buffer_pool b).base k

/-- No dirty byte is lost without a write that succeeds, unless the operation tells the one who wrote it. -/
def Part.Safe (p : Part σ) : Prop :=
  ∀ s' reported, p.after io = some (s',reported) → ∀ j b, Pending p.before j b →
    Saved p.before s' j b ∨ Kept p.before s' (p.overwrites j) j b ∨ reported = true ∧ j = p.stream

/-- What a transfer returns is what it moves the position by, and with -1 the position is where it was. -/
def Counted (s s' : State σ) (i : σ) (ret : Int) : Prop :=
  if ret = -1 then (s'.stream i).pos = (s.stream i).pos
  else (s'.stream i).pos = (s.stream i).pos + BitVec.ofInt 64 ret

def Op.Moves (s : State σ) : Op σ → Prop
  | .fread i n_bytes => ∀ rounds s' ret, step io rounds s (.fread i n_bytes) = some (s',ret) → Counted s s' i ret
  | .fwrite i n_bytes buf => ∀ rounds s' ret, step io rounds s (.fwrite i n_bytes buf) = some (s',ret) →
    Counted s s' i ret
  | .fseek _ _ _ => True
  | .fclose _ => True

/-- Nothing is lost in any part of the operation, and its position is right. -/
def Right (s : State σ) (op : Op σ) : Prop := (∀ p, Reaches io s op p → p.Safe io) ∧ op.Moves io s

/-- Every block is that of the stream which has it. -/
def Linked (s : State σ) : Prop := ∀ i b, (s.stream i).block = some b ↔ (s.buffer_pool b).file = some i

/-- A round makes the data at the position valid without a loss: a dirty block is written with success because it has
    changed, or is for the same part of the file and not read, or read with an error or with the bytes that it has. -/
def Passes (s : State σ) (i : σ) (b : Fin BUF_BLOCK_NUM) (overwritten : Nat → Prop) : Prop :=
  Changed s i b ∧ WriteFails io s = false ∨
  (s.buffer_pool b).pre_id = BitVec.ofNat 32 (BUF_BLOCK_ID (s.stream i).pos.toNat) ∧
    (Cached s i b ∨ (answer io s i).result < 0 ∨
      ∀ k < BUF_BLOCK_SIZE, ¬overwritten k → (answer io s i).data k = (s.buffer_pool b).base k)

/-- The data at the position are not there. -/
def Misses (s : State σ) (i : σ) (b : Fin BUF_BLOCK_NUM) : Prop := ¬Cached s i b ∧ (answer io s i).result ≤ 0

/-- The round of `stdio_fread` ends with -1. -/
def ReadFails (i : σ) (b : Fin BUF_BLOCK_NUM) (head : Head σ (List Copy)) : Prop :=
  Wanted i head ∧ Misses io head.state i b

/-- The round of `stdio_fwrite` ends with -1. -/
def WriteGivesUp (i : σ) (b : Fin BUF_BLOCK_NUM) (head : Head σ (Nat → UInt8)) : Prop :=
  head.n_bytes > 0 ∧ Misses io head.state i b ∧ io.eio (head.state.reads + 1) = true

namespace Part

/-- The write-backs of the part succeed where their result is ignored, and no dirty block is read over. -/
def Careful : Part σ → Prop
  | attach s i => (s.stream i).block = none → get_free_buffer_block s = none →
    (s.buffer_pool (mix_index s)).busy = false → (s.buffer_pool (mix_index s)).dirty = true → WriteFails io s = false
  | read i b _ head => Wanted i head → (head.state.buffer_pool b).dirty = true → ¬ReadFails io i b head →
    Passes io head.state i b (fun _ => False)
  | p@(write i b _ head) => head.n_bytes > 0 → (head.state.buffer_pool b).dirty = true → ¬WriteGivesUp io i b head →
    Passes io head.state i b (p.overwrites i)
  | seek _ _ _ _ => True
  | close s i => ∀ b, (s.stream i).block = some b → (s.buffer_pool b).dirty = true → WriteFails io s = false

/-- A round of an operation from `s` that gives up does so in front of the first byte, and a stream that appends was at the
    end of its file when the write ends. -/
def InPlace (s : State σ) : Part σ → Prop
  | read i b _ head => ReadFails io i b head → (head.state.stream i).pos = (s.stream i).pos
  | write i b _ head => (WriteGivesUp io i b head → (head.state.stream i).pos = (s.stream i).pos) ∧
    (head.n_bytes ≤ 0 → (s.stream i).append = true → (s.stream i).pos = (s.stream i).size)
  | _ => True

end Part

def Careful (s : State σ) (op : Op σ) : Prop := ∀ p, Reaches io s op p → p.Careful io ∧ p.InPlace io s

end Statement

/-! ### What a part leaves alone -/

section Frames
variable {σ : Type} [DecidableEq σ] {io : Io} {s s' s'' : State σ} {i j : σ} {b c : Fin BUF_BLOCK_NUM}

/-- The steps between two states concern the stream and its block only, which stays its block. -/
structure Frame (b : Fin BUF_BLOCK_NUM) (s s' : State σ) : Prop where
  pool : ∀ c ≠ b, s'.buffer_pool c = s.buffer_pool c
  file : (s'.buffer_pool b).file = (s.buffer_pool b).file
  block : ∀ j, (s'.stream j).block = (s.stream j).block

section Owners
omit [DecidableEq σ]

theorem Frame.refl : Frame b s s := ⟨fun _ _ => rfl,rfl,fun _ => rfl⟩

theorem Frame.trans (first : Frame b s s') (second : Frame b s' s'') : Frame b s s'' :=
  ⟨fun c other => (second.pool c other).trans (first.pool c other),second.file.trans first.file,
    fun j => (second.block j).trans (first.block j)⟩

theorem Frame.files (frame : Frame b s s') (c : Fin BUF_BLOCK_NUM) :
    (s'.buffer_pool c).file = (s.buffer_pool c).file := by
  by_cases here : c = b
  · rw [here,frame.file]
  · rw [frame.pool c here]

theorem Frame.linked (frame : Frame b s s') (linked : Linked s) : Linked s' := by
  intro j c
  rw [frame.block j,frame.files c]
  exact linked j c

/-- A block that nothing touches is kept. -/
theorem kept_same {overwritten : Nat → Prop} (pending : Pending s j c) (block : (s'.stream j).block = (s.stream j).block)
    (pool : s'.buffer_pool c = s.buffer_pool c) : Kept s s' overwritten j c := by
  refine ⟨⟨block.trans pending.1,?_,?_⟩,by rw [pool],fun k _ _ => by rw [pool]⟩
  · rw [pool]
    exact pending.2.1
  · rw [pool]
    exact pending.2.2

theorem Frame.kept {overwritten : Nat → Prop} (frame : Frame b s s') (pending : Pending s j c) (other : c ≠ b) :
    Kept s s' overwritten j c :=
  kept_same pending (frame.block j) (frame.pool c other)

/-- The block of a stream has the data of no other one. -/
theorem one_owner (linked : Linked s) (own : (s.stream i).block = some b) (pending : Pending s j b) : j = i :=
  Option.some.inj (pending.2.1.symm.trans ((linked i b).mp own))

theorem one_block (own : (s.stream i).block = some b) (pending : Pending s i c) : c = b :=
  Option.some.inj (pending.1.symm.trans own)

end Owners

/-- Only the own block of a part can be one that is lost. -/
theorem safe_iff_own {p : Part σ} {reported : Bool} (after : p.after io = some (s',reported))
    (frame : Frame b p.before s') (linked : Linked p.before) (own : (p.before.stream p.stream).block = some b) :
    p.Safe io ↔ ((p.before.buffer_pool b).dirty = true → reported = false →
      Saved p.before s' p.stream b ∨ Kept p.before s' (p.overwrites p.stream) p.stream b) := by
  constructor
  · intro safe dirty silent
    rcases safe s' reported after p.stream b ⟨own,(linked _ _).mp own,dirty⟩ with saved | kept | told
    · exact .inl saved
    · exact .inr kept
    · exact absurd told.1 (by simp [silent])
  · intro careful s₁ told after' j c pending
    obtain ⟨rfl,rfl⟩ := Prod.mk.inj (Option.some.inj (after.symm.trans after'))
    by_cases here : c = b
    · subst here
      obtain rfl := one_owner linked own pending
      cases reported with
      | true => exact .inr (.inr ⟨rfl,rfl⟩)
      | false =>
        rcases careful pending.2.2 rfl with saved | kept
        · exact .inl saved
        · exact .inr (.inl kept)
    · exact .inr (.inl (frame.kept pending here))

/-- A stream that keeps its block. -/
theorem block_update {file : stdio_file} (same : file.block = (s.stream i).block) (j : σ) :
    (Function.update s.stream i file j).block = (s.stream j).block := by
  by_cases here : j = i
  · subst here
    simpa using same
  · simp [here]

theorem setStream_frame {file : stdio_file} (same : file.block = (s.stream i).block) : Frame b s (setStream s i file) :=
  ⟨fun _ _ => rfl,rfl,block_update same⟩

omit [DecidableEq σ] in
theorem setBlock_frame {block : buffer_block σ} (same : block.file = (s.buffer_pool b).file) :
    Frame b s (setBlock s b block) :=
  ⟨fun c other => by simp [other],by simpa using same,fun _ => rfl⟩

omit [DecidableEq σ] in
theorem update_dirty_frame : Frame b s (update_dirty_buffer_block io s i b).1 :=
  ⟨fun c other => by simp [other],by simp,fun j => by simp⟩

theorem make_valid_frame : Frame b s (make_valid_data io s i b).1 := by
  by_cases cached : Cached s i b
  · rw [make_valid_cached cached]
    exact .refl
  · have fetched := make_valid_fetched io cached
    refine ⟨fun c other => by simp [fetched.pool,other],by simp [fetched.pool],fun j => ?_⟩
    rw [fetched.stream]
    exact block_update (by rfl) j

theorem fread_copy_frame {n_bytes : Int} {buf : List Copy} : Frame b s (fread_copy i b s n_bytes buf).state := by
  rw [fread_copy]
  exact (setBlock_frame (by rfl)).trans (setStream_frame (by rfl))

theorem fwrite_copy_frame {n_bytes : Int} {buf : Nat → UInt8} : Frame b s (fwrite_copy i b s n_bytes buf).state := by
  rw [fwrite_copy]
  exact (setBlock_frame (by rfl)).trans (setStream_frame (by rfl))

end Frames

/-! ### Dirty data in the rounds of the loops -/

section Dirty
variable {σ : Type} [DecidableEq σ] {io : Io} {s s' : State σ} {i : σ} {b : Fin BUF_BLOCK_NUM}

theorem make_valid_written : (make_valid_data io s i b).1.written = if Changed s i b ∧ (s.buffer_pool b).dirty then
    ⟨i,write_pos (s.stream i),(s.buffer_pool b).base,io.write s.written.length⟩ :: s.written else s.written := by
  by_cases cached : Cached s i b
  · rw [make_valid_cached cached,if_neg (fun wrong => wrong.1 cached.1)]
  · exact (make_valid_fetched io cached).written

/-- Only an answer that is not an error changes the bytes of the block. -/
theorem make_valid_base (k : Nat) : ((make_valid_data io s i b).1.buffer_pool b).base k =
    if ¬Cached s i b ∧ 0 ≤ (answer io s i).result ∧ k < BUF_BLOCK_SIZE then (answer io s i).data k
    else (s.buffer_pool b).base k := by
  by_cases cached : Cached s i b
  · rw [make_valid_cached cached,if_neg (fun wrong => wrong.1 cached)]
  · rw [(make_valid_fetched io cached).pool]
    simp [cached]

theorem make_valid_dirty : ((make_valid_data io s i b).1.buffer_pool b).dirty =
    ((s.buffer_pool b).dirty && (!decide (Changed s i b) || WriteFails io s)) := by
  by_cases cached : Cached s i b
  · have same : ¬Changed s i b := fun changed => changed cached.1
    simp [make_valid_cached cached,same]
  · rw [(make_valid_fetched io cached).pool]
    simp

theorem make_valid_pos : ((make_valid_data io s i b).1.stream i).pos = (s.stream i).pos := by
  by_cases cached : Cached s i b
  · rw [make_valid_cached cached]
  · rw [(make_valid_fetched io cached).stream]
    simp

omit [DecidableEq σ] in
theorem writeFails_iff : WriteFails io s = false ↔ 0 ≤ io.write s.written.length := by
  rw [WriteFails,decide_eq_false_iff_not,not_lt]

/-- The data of the block are saved by a write that succeeds because it has changed. -/
theorem saved_iff (dirty : (s.buffer_pool b).dirty = true) (written : s'.written = (make_valid_data io s i b).1.written) :
    Saved s s' i b ↔ Changed s i b ∧ WriteFails io s = false := by
  rw [make_valid_written] at written
  constructor
  · rintro ⟨w,more,_,_,success⟩
    by_cases changed : Changed s i b
    · rw [if_pos ⟨changed,dirty⟩,more] at written
      obtain ⟨rfl,_⟩ := List.cons.inj written
      exact ⟨changed,writeFails_iff.mpr success⟩
    · rw [if_neg (fun wrong => changed wrong.1),more] at written
      exact absurd written (List.cons_ne_self _ _)
  · rintro ⟨changed,success⟩
    rw [if_pos ⟨changed,dirty⟩] at written
    exact ⟨_,written,rfl,rfl,writeFails_iff.mp success⟩

theorem passes_iff {overwritten : Nat → Prop} (own : (s.stream i).block = some b) (file : (s.buffer_pool b).file = some i)
    (dirty : (s.buffer_pool b).dirty = true) (frame : Frame b s s')
    (written : s'.written = (make_valid_data io s i b).1.written)
    (pre_id : (s'.buffer_pool b).pre_id = BitVec.ofNat 32 (BUF_BLOCK_ID (s.stream i).pos.toNat))
    (base : ∀ k < BUF_BLOCK_SIZE, ¬overwritten k →
      (s'.buffer_pool b).base k = ((make_valid_data io s i b).1.buffer_pool b).base k)
    (still : ((make_valid_data io s i b).1.buffer_pool b).dirty = true → (s'.buffer_pool b).dirty = true) :
    Saved s s' i b ∨ Kept s s' overwritten i b ↔ Passes io s i b overwritten := by
  rw [saved_iff dirty written]
  by_cases success : Changed s i b ∧ WriteFails io s = false
  · exact iff_of_true (.inl success) (.inl success)
  · refine or_congr_right ⟨fun kept => ?_,fun kept => ?_⟩
    · refine ⟨kept.2.1.symm.trans pre_id,?_⟩
      by_cases cached : Cached s i b
      · exact .inl cached
      · by_cases error : (answer io s i).result < 0
        · exact .inr (.inl error)
        · refine .inr (.inr (fun k inside free => ?_))
          have same := kept.2.2 k inside free
          rw [base k inside free,make_valid_base,if_pos ⟨cached,not_lt.mp error,inside⟩] at same
          exact same
    · obtain ⟨same,bytes⟩ := kept
      have dirty' : (s'.buffer_pool b).dirty = true := by
        refine still ?_
        rw [make_valid_dirty,dirty]
        by_cases changed : Changed s i b
        · simpa [changed] using fun wrong => success ⟨changed,wrong⟩
        · simp [changed]
      refine ⟨⟨(frame.block i).trans own,frame.file.trans file,dirty'⟩,pre_id.trans same.symm,fun k inside free => ?_⟩
      rw [base k inside free,make_valid_base]
      split
      · rename_i read
        rcases bytes with cached | error | bytes
        · exact absurd cached read.1
        · exact absurd read.2.1 (not_le.mpr error)
        · exact bytes k inside free
      · rfl

section Reads
variable {start : BitVec 32} {head next : Head σ (List Copy)}

omit [DecidableEq σ] in
theorem not_reads_fail (ready : Cached head.state i b ∨ 0 < (answer io head.state i).result) : ¬ReadFails io i b head := by
  rintro ⟨_,stale,nothing⟩
  rcases ready with cached | some
  · exact stale cached
  · exact absurd some (not_lt.mpr nothing)

theorem read_safe_iff (linked : Linked head.state) (own : (head.state.stream i).block = some b) :
    (Part.read i b start head).Safe io ↔ (Part.read i b start head).Careful io := by
  have file := (linked i b).mp own
  by_cases wanted : Wanted i head
  · by_cases ready : Cached head.state i b ∨ 0 < (answer io head.state i).result
    · have after : (Part.read i b start head).after io =
          some ((fread_copy i b (make_valid_data io head.state i b).1 head.n_bytes head.buf).state,false) := by
        rw [Part.after,fread_wanted wanted,if_pos ((make_valid_ok _).mpr ready)]
      have frame : Frame b head.state (fread_copy i b (make_valid_data io head.state i b).1 head.n_bytes head.buf).state :=
        make_valid_frame.trans fread_copy_frame
      have keeps (dirty : (head.state.buffer_pool b).dirty = true) :
          Saved head.state (fread_copy i b (make_valid_data io head.state i b).1 head.n_bytes head.buf).state i b ∨
          Kept head.state (fread_copy i b (make_valid_data io head.state i b).1 head.n_bytes head.buf).state
            (fun _ => False) i b ↔ Passes io head.state i b (fun _ => False) :=
        passes_iff own file dirty frame (by simp [fread_copy]) (by simp [fread_copy,make_valid_pos]) (by simp [fread_copy])
          (by simp [fread_copy])
      rw [safe_iff_own after frame linked own]
      exact ⟨fun safe _ dirty _ => (keeps dirty).mp (safe dirty rfl),
        fun careful dirty _ => (keeps dirty).mpr (careful wanted dirty (not_reads_fail ready))⟩
    · obtain ⟨stale,nothing⟩ := not_or.mp ready
      have after : (Part.read i b start head).after io = some ((make_valid_data io head.state i b).1,true) := by
        rw [Part.after,fread_fails wanted stale (not_lt.mp nothing)]
        rfl
      rw [safe_iff_own after make_valid_frame linked own]
      refine iff_of_true (fun _ silent => by cases silent) (fun _ _ succeeds => ?_)
      exact absurd ⟨wanted,stale,not_lt.mp nothing⟩ succeeds
  · have after : (Part.read i b start head).after io =
        some (head.state,moved (head.state.stream i).pos start == -1) := by
      rw [Part.after,fread_done wanted]
    rw [safe_iff_own after .refl linked own]
    refine iff_of_true (fun dirty _ => .inr ?_) (fun wrong => absurd wrong wanted)
    exact kept_same ⟨own,file,dirty⟩ rfl rfl

end Reads

section Writes
variable {start : BitVec 32} {head next : Head σ (Nat → UInt8)}

theorem fwrite_done (done : ¬head.n_bytes > 0) : fwrite_round io i b start head =
    .inl (head.state,moved (head.state.stream i).pos start) := if_neg done

theorem fwrite_wanted (more : head.n_bytes > 0) : fwrite_round io i b start head =
    if (make_valid_data io head.state i b).2 = false ∧ io.eio (make_valid_data io head.state i b).1.reads then
      .inl ((make_valid_data io head.state i b).1,-1)
    else .inr (fwrite_copy i b (make_valid_data io head.state i b).1 head.n_bytes head.buf) := if_pos more

theorem misses_iff : Misses io s i b ↔ (make_valid_data io s i b).2 = false := by
  rw [← Bool.not_eq_true,make_valid_ok,not_or,not_lt]
  rfl

/-- The loop gives up exactly on `EIO` without the data. -/
theorem gives_up_iff (more : head.n_bytes > 0) : WriteGivesUp io i b head ↔
    (make_valid_data io head.state i b).2 = false ∧ io.eio (make_valid_data io head.state i b).1.reads := by
  rw [WriteGivesUp,misses_iff,and_iff_right more]
  refine and_congr_right (fun misses => ?_)
  have stale := (misses_iff.mpr misses).1
  rw [(make_valid_fetched io stale).reads]

theorem fwrite_gives_up (up : WriteGivesUp io i b head) : fwrite_round io i b start head =
    .inl ((make_valid_data io head.state i b).1,-1) := by
  rw [fwrite_wanted up.1,if_pos ((gives_up_iff up.1).mp up)]

theorem fwrite_goes (more : head.n_bytes > 0) (on : ¬WriteGivesUp io i b head) :
    Goes (fwrite_round io i b start) head (fwrite_copy i b (make_valid_data io head.state i b).1 head.n_bytes head.buf) := by
  rw [Goes,fwrite_wanted more,if_neg (fun wrong => on ((gives_up_iff more).mpr wrong))]

theorem write_safe_iff (linked : Linked head.state) (own : (head.state.stream i).block = some b) :
    (Part.write i b start head).Safe io ↔ (Part.write i b start head).Careful io := by
  have file := (linked i b).mp own
  by_cases more : head.n_bytes > 0
  · by_cases up : WriteGivesUp io i b head
    · have after : (Part.write i b start head).after io = some ((make_valid_data io head.state i b).1,true) := by
        rw [Part.after,fwrite_gives_up up]
        rfl
      rw [safe_iff_own after make_valid_frame linked own]
      exact iff_of_true (fun _ silent => by cases silent) (fun _ _ on => absurd up on)
    · have after : (Part.write i b start head).after io =
          some ((fwrite_copy i b (make_valid_data io head.state i b).1 head.n_bytes head.buf).state,false) := by
        rw [Part.after,fwrite_goes more up]
      have frame : Frame b head.state (fwrite_copy i b (make_valid_data io head.state i b).1 head.n_bytes head.buf).state :=
        make_valid_frame.trans fwrite_copy_frame
      have keeps (dirty : (head.state.buffer_pool b).dirty = true) :
          Saved head.state (fwrite_copy i b (make_valid_data io head.state i b).1 head.n_bytes head.buf).state i b ∨
          Kept head.state (fwrite_copy i b (make_valid_data io head.state i b).1 head.n_bytes head.buf).state
            ((Part.write i b start head).overwrites i) i b ↔
          Passes io head.state i b ((Part.write i b start head).overwrites i) := by
        refine passes_iff own file dirty frame (by simp [fwrite_copy]) (by simp [fwrite_copy,make_valid_pos]) ?_
          (by simp [fwrite_copy])
        intro k _ free
        simp only [fwrite_copy,setStream_pool,setBlock_pool,Function.update_self,make_valid_pos]
        exact if_neg (fun wrong => free ⟨rfl,wrong⟩)
      rw [safe_iff_own after frame linked own]
      exact ⟨fun safe _ dirty _ => (keeps dirty).mp (safe dirty rfl),
        fun careful dirty _ => (keeps dirty).mpr (careful more dirty up)⟩
  · have after : (Part.write i b start head).after io =
        some (head.state,moved (head.state.stream i).pos start == -1) := by
      rw [Part.after,fwrite_done more]
    rw [safe_iff_own after .refl linked own]
    refine iff_of_true (fun dirty _ => .inr ?_) (fun wrong => absurd wrong more)
    exact kept_same ⟨own,file,dirty⟩ rfl rfl

end Writes

end Dirty

/-! ### Dirty data of the other streams, and at the end of a stream -/

section Attach
variable {σ : Type} [DecidableEq σ] {io : Io} {s s' : State σ} {i j : σ} {b : Fin BUF_BLOCK_NUM}

section Free
omit [DecidableEq σ]

theorem get_free_file (free : get_free_buffer_block s = some b) : (s.buffer_pool b).file = none :=
  by simpa using List.find?_some free

theorem owned_of_none (none_free : get_free_buffer_block s = none) (b : Fin BUF_BLOCK_NUM) :
    ∃ j, (s.buffer_pool b).file = some j := by
  have owned := List.find?_eq_none.mp none_free b (List.mem_finRange b)
  rw [Option.isNone_iff_eq_none] at owned
  exact Option.ne_none_iff_exists'.mp owned

/-- The one free block is found. -/
theorem get_free_only (free : (s.buffer_pool b).file = none) (others : ∀ c ≠ b, (s.buffer_pool c).file ≠ none) :
    get_free_buffer_block s = some b := by
  cases found : get_free_buffer_block s with
  | none =>
    obtain ⟨j,owned⟩ := owned_of_none found b
    rw [free] at owned
    cases owned
  | some c =>
    by_contra other
    exact others c (fun same => other (congrArg some same)) (get_free_file found)

end Free

/-- The state when a stream has lost its block to the pool. -/
def evicted (io : Io) (s : State σ) (j : σ) (b : Fin BUF_BLOCK_NUM) : State σ :=
  release (update_dirty_buffer_block io s j b).1 j b

theorem swap_out_eq (linked : Linked s) (owned : (s.buffer_pool b).file = some j) :
    swap_out_buffer_block io s b = some (evicted io s j b,(update_dirty_buffer_block io s j b).2) := by
  simp [swap_out_buffer_block,owned,(linked j b).mpr owned,evicted]

theorem evicted_file (c : Fin BUF_BLOCK_NUM) :
    ((evicted io s j b).buffer_pool c).file = if c = b then none else (s.buffer_pool c).file := by
  by_cases here : c = b
  · subst here
    simp [evicted,release]
  · simp [evicted,release,here]

theorem evicted_block (k : σ) : ((evicted io s j b).stream k).block = if k = j then none else (s.stream k).block := by
  by_cases here : k = j
  · subst here
    simp [evicted,release]
  · simp [evicted,release,here]

theorem assign_file (c : Fin BUF_BLOCK_NUM) :
    ((assign s i b).buffer_pool c).file = if c = b then some i else (s.buffer_pool c).file := by
  by_cases here : c = b
  · subst here
    simp [assign]
  · simp [assign,here]

theorem assign_block (k : σ) : ((assign s i b).stream k).block = if k = i then some b else (s.stream k).block := by
  by_cases here : k = i
  · subst here
    simp [assign]
  · simp [assign,here]

/-- With no block free the one with the least accesses is taken, written or not. -/
theorem get_buffer_evicts (linked : Linked s) (none_free : get_free_buffer_block s = none)
    (idle : (s.buffer_pool (mix_index s)).busy = false) (owned : (s.buffer_pool (mix_index s)).file = some j) :
    get_buffer_block io s i = some (assign (evicted io s j (mix_index s)) i (mix_index s),mix_index s) := by
  have free : get_free_buffer_block (evicted io s j (mix_index s)) = some (mix_index s) := by
    refine get_free_only (by simp [evicted_file]) (fun c other => ?_)
    obtain ⟨k,taken⟩ := owned_of_none none_free c
    simp [evicted_file,other,taken]
  simp only [get_buffer_block,none_free,get_rebirth_buffer_block,idle,Bool.false_eq_true,if_false,
    swap_out_eq linked owned]
  cases (update_dirty_buffer_block io s j (mix_index s)).2 <;> simp [free]

/-- How a stream comes by its block. -/
inductive Attached (io : Io) (s : State σ) (i : σ) : State σ → Fin BUF_BLOCK_NUM → Prop
  | had {b : Fin BUF_BLOCK_NUM} (own : (s.stream i).block = some b) : Attached io s i s b
  | free {b : Fin BUF_BLOCK_NUM} (without : (s.stream i).block = none) (free : (s.buffer_pool b).file = none) :
    Attached io s i (assign s i b) b
  | evicts {j : σ} (without : (s.stream i).block = none) (none_free : get_free_buffer_block s = none)
    (idle : (s.buffer_pool (mix_index s)).busy = false) (owned : (s.buffer_pool (mix_index s)).file = some j) :
    Attached io s i (assign (evicted io s j (mix_index s)) i (mix_index s)) (mix_index s)

theorem with_block_cases (linked : Linked s) (got : with_block io s i = some (s',b)) : Attached io s i s' b := by
  unfold with_block at got
  cases own : (s.stream i).block with
  | some c =>
    rw [own] at got
    obtain ⟨rfl,rfl⟩ := Prod.mk.inj (Option.some.inj got)
    exact .had own
  | none =>
    rw [own] at got
    dsimp only at got
    cases found : get_free_buffer_block s with
    | some c =>
      rw [get_buffer_block,found] at got
      obtain ⟨rfl,rfl⟩ := Prod.mk.inj (Option.some.inj got)
      exact .free own (get_free_file found)
    | none =>
      obtain ⟨j,owned⟩ := owned_of_none found (mix_index s)
      cases idle : (s.buffer_pool (mix_index s)).busy with
      | true => simp [get_buffer_block,found,get_rebirth_buffer_block,idle] at got
      | false =>
        rw [get_buffer_evicts linked found idle owned] at got
        obtain ⟨rfl,rfl⟩ := Prod.mk.inj (Option.some.inj got)
        exact .evicts own found idle owned

theorem assign_linked (linked : Linked s) (without : (s.stream i).block = none) (free : (s.buffer_pool b).file = none) :
    Linked (assign s i b) := by
  intro k c
  have before := linked k c
  rw [assign_block,assign_file]
  by_cases own : k = i
  · subst own
    by_cases here : c = b
    · simp [here]
    · rw [without] at before
      simpa [here,Ne.symm here] using before
  · by_cases here : c = b
    · subst here
      rw [free] at before
      simpa [own,Ne.symm own] using before
    · simpa [own,here] using before

variable (io) in
theorem evicted_linked (linked : Linked s) (owned : (s.buffer_pool b).file = some j) : Linked (evicted io s j b) := by
  intro k c
  have before := linked k c
  rw [evicted_block,evicted_file]
  by_cases own : k = j
  · subst own
    by_cases here : c = b
    · simp [here]
    · rw [(linked k b).mpr owned] at before
      simpa [here,Ne.symm here] using before
  · by_cases here : c = b
    · subst here
      rw [owned] at before
      simpa [own,Ne.symm own] using before
    · simpa [own,here] using before

theorem Attached.linked (attached : Attached io s i s' b) (linked : Linked s) : Linked s' := by
  cases attached with
  | had => exact linked
  | free without free => exact assign_linked linked without free
  | evicts without none_free idle owned =>
    have evicted := evicted_linked io linked owned
    refine assign_linked evicted ?_ (by simp [evicted_file])
    rw [evicted_block]
    split <;> simp [without]

theorem Attached.own (attached : Attached io s i s' b) : (s'.stream i).block = some b := by
  cases attached with
  | had own => exact own
  | free => simp [assign_block]
  | evicts => simp [assign_block]

theorem Attached.stream (attached : Attached io s i s' b) : (s'.stream i).pos = (s.stream i).pos ∧
    (s'.stream i).size = (s.stream i).size ∧ (s'.stream i).append = (s.stream i).append := by
  cases attached with
  | had => exact ⟨rfl,rfl,rfl⟩
  | free => simp [assign]
  | @evicts j =>
    by_cases own : i = j
    · subst own
      simp [assign,evicted,release]
    · simp [assign,evicted,release,own]

/-- What is written at an eviction is the block. -/
theorem evicted_saved (dirty : (s.buffer_pool b).dirty = true) (s' : State σ)
    (written : s'.written = (evicted io s j b).written) : Saved s s' j b ↔ WriteFails io s = false := by
  have one : s'.written = ⟨j,write_pos (s.stream j),(s.buffer_pool b).base,io.write s.written.length⟩ :: s.written := by
    rw [written,evicted,release,setBlock_written,setStream_written,update_dirty_written,if_pos dirty]
  rw [writeFails_iff]
  constructor
  · rintro ⟨w,more,_,_,success⟩
    rw [one] at more
    obtain ⟨rfl,_⟩ := List.cons.inj more
    exact success
  · exact fun success => ⟨_,one,rfl,rfl,success⟩

/-- A block that is neither lost nor got stays as it is. -/
theorem assign_kept {c : Fin BUF_BLOCK_NUM} (without : (s.stream i).block = none) (pending : Pending s j c) (other : c ≠ b) :
    Kept s (assign s i b) (fun _ => False) j c := by
  have not_own : j ≠ i := by
    rintro rfl
    exact absurd (without.symm.trans pending.1) (by simp)
  exact kept_same pending (by simp [assign_block,not_own]) (by simp [assign,other])

variable (io) in
theorem evicted_kept {k : σ} {c : Fin BUF_BLOCK_NUM} (linked : Linked s) (owned : (s.buffer_pool b).file = some j)
    (pending : Pending s k c) (other : c ≠ b) : Kept s (evicted io s j b) (fun _ => False) k c := by
  have not_own : k ≠ j := by
    rintro rfl
    exact other (one_block ((linked k b).mpr owned) pending)
  exact kept_same pending (by simp [evicted_block,not_own]) (by simp [evicted,release,other])

omit [DecidableEq σ] in
theorem Kept.trans {s'' : State σ} {c : Fin BUF_BLOCK_NUM} (first : Kept s s' (fun _ => False) j c)
    (second : Kept s' s'' (fun _ => False) j c) : Kept s s'' (fun _ => False) j c :=
  ⟨second.1,second.2.1.trans first.2.1,fun k inside free => (second.2.2 k inside free).trans (first.2.2 k inside free)⟩

/-- Getting a block is safe unless a block is evicted that cannot be written. -/
theorem attach_safe_iff (linked : Linked s) : (Part.attach s i).Safe io ↔ (Part.attach s i).Careful io := by
  constructor
  · intro safe without none_free idle dirty
    obtain ⟨j,owned⟩ := owned_of_none none_free (mix_index s)
    have got : with_block io s i = some (assign (evicted io s j (mix_index s)) i (mix_index s),mix_index s) := by
      rw [with_block,without]
      exact get_buffer_evicts linked none_free idle owned
    have after : (Part.attach s i).after io = some (assign (evicted io s j (mix_index s)) i (mix_index s),false) := by
      rw [Part.after,got]
      rfl
    rcases safe _ _ after j (mix_index s) ⟨(linked _ _).mpr owned,owned,dirty⟩ with saved | kept | told
    · exact (evicted_saved dirty _ rfl).mp saved
    · -- the block is that of the stream which got it
      have taken := kept.1.2.1
      rw [assign_file,if_pos rfl] at taken
      obtain rfl := Option.some.inj taken
      exact absurd (without.symm.trans ((linked i _).mpr owned)) (by simp)
    · cases told.1
  · intro careful s' reported after j c pending
    rw [Part.after,Option.map_eq_some_iff] at after
    obtain ⟨⟨s₁,b⟩,got,same⟩ := after
    obtain ⟨rfl,rfl⟩ := Prod.mk.inj same
    cases with_block_cases linked got with
    | had own => exact .inr (.inl (kept_same pending rfl rfl))
    | free without free =>
      refine .inr (.inl (assign_kept without pending ?_))
      rintro rfl
      exact absurd (free.symm.trans pending.2.1) (by simp)
    | @evicts k without none_free idle owned =>
      by_cases here : c = mix_index s
      · subst here
        obtain rfl : j = k := Option.some.inj (pending.2.1.symm.trans owned)
        exact .inl ((evicted_saved pending.2.2 _ rfl).mpr (careful without none_free idle pending.2.2))
      · have kept := evicted_kept io linked owned pending here
        refine .inr (.inl (kept.trans (assign_kept ?_ kept.1 here)))
        rw [evicted_block]
        split <;> simp [without]

section Ends
variable {offset : BitVec 64} {whence : Whence}

theorem fseek_frame (own : (s.stream i).block = some b) : Frame b s (stdio_fseek io s i offset whence).1 := by
  have seek : (stdio_fseek io s i offset whence).1 = setStream (update_dirty_buffer_block io s i b).1 i
      { s.stream i with pos := tmp_pos (s.stream i).pos (s.stream i).size offset whence } := by
    simp [stdio_fseek,update_own_block,own]
  rw [seek]
  exact update_dirty_frame.trans (setStream_frame (by simp))

/-- A seek leaves a block that it could not write as it is. -/
theorem seek_safe (linked : Linked s) : (Part.seek s i offset whence).Safe io := by
  have after : (Part.seek s i offset whence).after io = some ((stdio_fseek io s i offset whence).1,false) := rfl
  cases own : (s.stream i).block with
  | none =>
    intro s' reported after' j c pending
    obtain ⟨rfl,rfl⟩ := Prod.mk.inj (Option.some.inj (after.symm.trans after'))
    have not_own : j ≠ i := by
      rintro rfl
      exact absurd (own.symm.trans pending.1) (by simp)
    exact .inr (.inl (kept_same pending (by simp [stdio_fseek,update_own_block,own,not_own,Part.before])
      (by simp [stdio_fseek,update_own_block,own,Part.before])))
  | some b =>
    rw [safe_iff_own after (fseek_frame own) linked own]
    intro dirty _
    cases fails : WriteFails io s with
    | false =>
      refine .inl ⟨⟨i,write_pos (s.stream i),(s.buffer_pool b).base,io.write s.written.length⟩,?_,rfl,rfl,
        writeFails_iff.mp fails⟩
      rw [show (stdio_fseek io s i offset whence).1.written = (update_dirty_buffer_block io s i b).1.written by
        simp [stdio_fseek,update_own_block,own],update_dirty_written]
      exact if_pos dirty
    | true =>
      have pool : ((stdio_fseek io s i offset whence).1.buffer_pool b) = s.buffer_pool b := by
        simp [stdio_fseek,update_own_block,own,fails]
      exact .inr (kept_same ⟨own,(linked i b).mp own,dirty⟩ ((fseek_frame own).block i) pool)

/-- The state behind the close of a stream with a block. -/
theorem fclose_eq (linked : Linked s) (own : (s.stream i).block = some b) : stdio_fclose io s i =
    some (filp_delete (setStream (evicted io s i b) i { (evicted io s i b).stream i with block := none }) i,0) := by
  simp [stdio_fclose,own,swap_out_eq linked ((linked i b).mp own)]

theorem close_safe_iff (linked : Linked s) : (Part.close s i).Safe io ↔ (Part.close s i).Careful io := by
  cases own : (s.stream i).block with
  | none =>
    refine iff_of_true (fun s' reported after j c pending => ?_) (fun b wrong => ?_)
    · have same : (Part.close s i).after io = some (filp_delete s i,false) := by simp [Part.after,stdio_fclose,own]
      obtain ⟨rfl,rfl⟩ := Prod.mk.inj (Option.some.inj (same.symm.trans after))
      exact .inr (.inl (kept_same pending rfl rfl))
    · rw [own] at wrong
      cases wrong
  | some b =>
    have file := (linked i b).mp own
    have same : (Part.close s i).after io = some (filp_delete (setStream (evicted io s i b) i
        { (evicted io s i b).stream i with block := none }) i,false) := by
      rw [Part.after,fclose_eq linked own]
      rfl
    constructor
    · intro safe c own' dirty
      obtain rfl : b = c := Option.some.inj (own.symm.trans own')
      rcases safe _ _ same i b ⟨own,file,dirty⟩ with saved | kept | told
      · exact (evicted_saved dirty _ rfl).mp saved
      · have owner := kept.1.2.1
        rw [filp_delete,setStream_pool,evicted_file,if_pos rfl] at owner
        cases owner
      · cases told.1
    · intro careful s' reported after j c pending
      obtain ⟨rfl,rfl⟩ := Prod.mk.inj (Option.some.inj (same.symm.trans after))
      by_cases here : c = b
      · subst here
        obtain rfl : j = i := one_owner linked own pending
        exact .inl ((evicted_saved pending.2.2 _ rfl).mpr (careful c own pending.2.2))
      · have not_own : j ≠ i := by
          rintro rfl
          exact here (one_block own pending)
        have kept := evicted_kept io linked file pending here
        exact .inr (.inl (kept.trans (kept_same kept.1 (by simp [filp_delete,not_own]) rfl)))

end Ends

end Attach

/-! ### Whole transfers -/

section Transfers
variable {σ : Type} [DecidableEq σ] {io : Io} {s s' : State σ} {i : σ} {b : Fin BUF_BLOCK_NUM} {start : BitVec 32}

/-- A loop that began with a state and a count has moved the position by what it has transferred. -/
structure Progress (i : σ) (b : Fin BUF_BLOCK_NUM) (s : State σ) (n : Int) (state : State σ) (n_bytes : Int) : Prop where
  linked : Linked state
  own : (state.stream i).block = some b
  moved : ∃ done : Nat, (state.stream i).pos = (s.stream i).pos + BitVec.ofNat 64 done ∧ n_bytes = n - done ∧ done ≤ n.toNat

omit [DecidableEq σ] in
theorem Progress.first {n : Int} (linked : Linked s) (own : (s.stream i).block = some b) : Progress i b s n s n :=
  ⟨linked,own,0,by simp,by simp,Nat.zero_le _⟩

omit [DecidableEq σ] in
theorem Progress.next {n n_bytes : Int} {state next : State σ} {len : Nat} (progress : Progress i b s n state n_bytes)
    (frame : Frame b state next) (pos : (next.stream i).pos = (state.stream i).pos + BitVec.ofNat 64 len)
    (le : (len : Int) ≤ n_bytes) : Progress i b s n next (n_bytes - len) := by
  obtain ⟨done,before,left,bound⟩ := progress.moved
  refine ⟨frame.linked progress.linked,(frame.block i).trans progress.own,done + len,?_,by omega,by omega⟩
  rw [pos,before,BitVec.ofNat_add,BitVec.add_assoc]

theorem fwrite_len_le {offset : Nat} {n_bytes : Int} (more : 0 < n_bytes) :
    (fwrite_len offset n_bytes : Int) ≤ n_bytes := by
  unfold fwrite_len
  split <;> omega

theorem read_progress {n : Int} {head next : Head σ (List Copy)} (progress : Progress i b s n head.state head.n_bytes)
    (goes : Goes (fread_round io i b start) head next) : Progress i b s n next.state next.n_bytes := by
  obtain ⟨wanted,len,advances⟩ := fread_goes goes
  have frame : Frame b head.state next.state := by
    rw [Goes,fread_wanted wanted] at goes
    split at goes
    · obtain rfl := Sum.inr.inj goes
      exact make_valid_frame.trans fread_copy_frame
    · cases goes
  rw [advances.n_bytes]
  refine progress.next frame advances.pos ?_
  rw [advances.step]
  exact fread_len_le wanted.2

theorem write_progress {n : Int} {head next : Head σ (Nat → UInt8)} (progress : Progress i b s n head.state head.n_bytes)
    (goes : Goes (fwrite_round io i b start) head next) : Progress i b s n next.state next.n_bytes := by
  by_cases more : head.n_bytes > 0
  · by_cases up : WriteGivesUp io i b head
    · rw [Goes,fwrite_gives_up up] at goes
      cases goes
    · obtain rfl := Sum.inr.inj ((fwrite_goes more up).symm.trans goes)
      exact progress.next (make_valid_frame.trans fwrite_copy_frame) (by simp [fwrite_copy,make_valid_pos])
        (fwrite_len_le more)
  · rw [Goes,fwrite_done more] at goes
    cases goes

/-- The difference of the positions is what was transferred. -/
theorem moved_eq (pos : BitVec 64) {done : Nat} (small : done < 2^31) :
    StreamIo.moved (pos + BitVec.ofNat 64 done) (pos.setWidth 32) = done := by
  unfold StreamIo.moved
  have low : ((pos + BitVec.ofNat 64 done - (pos.setWidth 32).setWidth 64).setWidth 32).toNat = done := by
    simp only [BitVec.toNat_setWidth,BitVec.toNat_sub,BitVec.toNat_add,BitVec.toNat_ofNat]
    omega
  rw [BitVec.toInt_eq_toNat_of_lt (by omega),low]

theorem count_small {n_bytes : BitVec 32} {done : Nat} (bound : done ≤ n_bytes.toInt.toNat) : done < 2^31 := by
  have := BitVec.toInt_lt (x := n_bytes)
  omega

/-- The heads that the loops reach. -/
theorem read_reached {n_bytes : BitVec 32} {s₁ : State σ} {head : Head σ (List Copy)} (linked : Linked s)
    (got : with_block io s i = some (s₁,b))
    (reached : Reached (fread_round io i b start) (fread_head s₁ n_bytes) head) :
    Progress i b s₁ n_bytes.toInt head.state head.n_bytes := by
  have attached := with_block_cases linked got
  exact reached.induct (.first (attached.linked linked) attached.own) (fun _ _ _ => read_progress)

theorem append_frame : Frame b s (append_pos s i) := by
  unfold append_pos
  split
  · exact setStream_frame rfl
  · exact .refl

theorem write_reached {n_bytes : BitVec 32} {buf : Nat → UInt8} {s₁ : State σ} {head : Head σ (Nat → UInt8)}
    (linked : Linked s) (got : with_block io s i = some (s₁,b))
    (reached : Reached (fwrite_round io i b start) ⟨append_pos s₁ i,n_bytes.toInt,buf⟩ head) :
    Progress i b (append_pos s₁ i) n_bytes.toInt head.state head.n_bytes := by
  have attached := with_block_cases linked got
  have frame : Frame b s₁ (append_pos s₁ i) := append_frame
  exact reached.induct (.first (frame.linked (attached.linked linked)) ((frame.block i).trans attached.own))
    (fun _ _ _ => write_progress)

/-- A part of an operation is safe exactly when it is careful. -/
theorem part_safe_iff {op : Op σ} {p : Part σ} (linked : Linked s) (reaches : Reaches io s op p) :
    p.Safe io ↔ p.Careful io := by
  cases reaches with
  | read_attach => exact attach_safe_iff linked
  | read _ _ got reached =>
    have progress := read_reached linked got reached
    exact read_safe_iff progress.linked progress.own
  | write_attach => exact attach_safe_iff linked
  | write _ got reached =>
    have progress := write_reached linked got reached
    exact write_safe_iff progress.linked progress.own
  | seek => exact iff_of_true (seek_safe linked) trivial
  | close => exact close_safe_iff linked

/-- A read that has a block returns what its loop does. -/
theorem fread_returns {n_bytes : BitVec 32} {ret : Int} (access : (s.stream i).access ≠ .O_WRONLY)
    (more : (s.stream i).size ≠ 0) : (∃ rounds, step io rounds s (.fread i n_bytes) = some (s',ret)) ↔
      ∃ s₁ b s₂ buf, with_block io s i = some (s₁,b) ∧
        Returns (fread_round io i b (start_pos s₁ i)) (fread_head s₁ n_bytes) (s₂,ret,buf) ∧ put_buffer_block s₂ b = s' := by
  constructor
  · rintro ⟨rounds,done⟩
    rw [step,stdio_fread,if_neg access,if_neg more,Option.map_eq_some_iff] at done
    obtain ⟨⟨s₃,ret₃,buf⟩,done,same⟩ := done
    obtain ⟨⟨s₁,b⟩,got,done⟩ := Option.bind_eq_some_iff.mp done
    obtain ⟨⟨s₂,ret₂,buf₂⟩,ends,done⟩ := Option.bind_eq_some_iff.mp done
    obtain ⟨rfl,rfl⟩ := Prod.mk.inj same
    cases done
    exact ⟨s₁,b,s₂,buf,got,⟨rounds,ends⟩,rfl⟩
  · rintro ⟨s₁,b,s₂,buf,got,⟨rounds,ends⟩,rfl⟩
    refine ⟨rounds,?_⟩
    rw [fread_head] at ends
    rw [step,stdio_fread,if_neg access,if_neg more,got]
    simp [ends]

theorem fwrite_returns {n_bytes : BitVec 32} {buf : Nat → UInt8} {ret : Int} (access : (s.stream i).access ≠ .O_RDONLY) :
    (∃ rounds, step io rounds s (.fwrite i n_bytes buf) = some (s',ret)) ↔ ∃ s₁ b s₂, with_block io s i = some (s₁,b) ∧
      Returns (fwrite_round io i b (start_pos (append_pos s₁ i) i)) ⟨append_pos s₁ i,n_bytes.toInt,buf⟩ (s₂,ret) ∧
        put_buffer_block s₂ b = s' := by
  constructor
  · rintro ⟨rounds,done⟩
    rw [step,stdio_fwrite,if_neg access] at done
    obtain ⟨⟨s₁,b⟩,got,done⟩ := Option.bind_eq_some_iff.mp done
    obtain ⟨⟨s₂,ret₂⟩,ends,done⟩ := Option.bind_eq_some_iff.mp done
    cases done
    exact ⟨s₁,b,s₂,got,⟨rounds,ends⟩,rfl⟩
  · rintro ⟨s₁,b,s₂,got,⟨rounds,ends⟩,rfl⟩
    refine ⟨rounds,?_⟩
    rw [step,stdio_fwrite,if_neg access,got]
    simp [ends]

/-- A read leaves the state alone, or ends with the last head of its loop. -/
theorem fread_outcome {rounds : Nat} {n_bytes : BitVec 32} {ret : Int}
    (done : step io rounds s (.fread i n_bytes) = some (s',ret)) : (s' = s ∧ (ret = -1 ∨ ret = 0)) ∨
      ((s.stream i).access ≠ .O_WRONLY ∧ (s.stream i).size ≠ 0) ∧ ∃ s₁ b head s₂ buf, with_block io s i = some (s₁,b) ∧
        Reached (fread_round io i b (start_pos s₁ i)) (fread_head s₁ n_bytes) head ∧
        fread_round io i b (start_pos s₁ i) head = .inl (s₂,ret,buf) ∧ put_buffer_block s₂ b = s' := by
  by_cases access : (s.stream i).access = .O_WRONLY
  · rw [step,stdio_fread,if_pos access] at done
    cases done
    exact .inl ⟨rfl,.inl rfl⟩
  · by_cases more : (s.stream i).size = 0
    · rw [step,stdio_fread,if_neg access,if_pos more] at done
      cases done
      exact .inl ⟨rfl,.inr rfl⟩
    · obtain ⟨s₁,b,s₂,buf,got,returns,put⟩ := (fread_returns access more).mp ⟨rounds,done⟩
      obtain ⟨head,reached,ends⟩ := returns_iff.mp returns
      exact .inr ⟨⟨access,more⟩,s₁,b,head,s₂,buf,got,reached,ends,put⟩

theorem fwrite_outcome {rounds : Nat} {n_bytes : BitVec 32} {buf : Nat → UInt8} {ret : Int}
    (done : step io rounds s (.fwrite i n_bytes buf) = some (s',ret)) : (s' = s ∧ ret = 0) ∨
      (s.stream i).access ≠ .O_RDONLY ∧ ∃ s₁ b head s₂, with_block io s i = some (s₁,b) ∧
        Reached (fwrite_round io i b (start_pos (append_pos s₁ i) i)) ⟨append_pos s₁ i,n_bytes.toInt,buf⟩ head ∧
        fwrite_round io i b (start_pos (append_pos s₁ i) i) head = .inl (s₂,ret) ∧ put_buffer_block s₂ b = s' := by
  by_cases access : (s.stream i).access = .O_RDONLY
  · rw [step,stdio_fwrite,if_pos access] at done
    cases done
    exact .inl ⟨rfl,rfl⟩
  · obtain ⟨s₁,b,s₂,got,returns,put⟩ := (fwrite_returns access).mp ⟨rounds,done⟩
    obtain ⟨head,reached,ends⟩ := returns_iff.mp returns
    exact .inr ⟨access,s₁,b,head,s₂,got,reached,ends,put⟩

omit [DecidableEq σ] in
theorem Counted.stays : Counted s s i (-1) ∧ Counted s s i 0 := by
  simp [Counted]

omit [DecidableEq σ] in
/-- What the rounds have transferred is counted from where they began. -/
theorem counted_done {n_bytes : BitVec 32} {s₁ : State σ} {state : State σ} {n : Int}
    (progress : Progress i b s₁ n_bytes.toInt state n) :
    Counted s (put_buffer_block state b) i (StreamIo.moved (state.stream i).pos (start_pos s₁ i)) ↔
      (s₁.stream i).pos = (s.stream i).pos := by
  obtain ⟨_,_,done,pos,_,bound⟩ := progress
  rw [pos,start_pos,moved_eq _ (count_small bound),Counted,if_neg (by omega),put_buffer_block,setBlock_stream,pos,
    BitVec.ofInt_natCast,BitVec.add_left_inj]

/-- A read is right about its position exactly when it gives up nowhere but where it began. -/
theorem fread_moves_iff {n_bytes : BitVec 32} (linked : Linked s) : (Op.fread i n_bytes).Moves io s ↔
    ∀ p, Reaches io s (.fread i n_bytes) p → p.InPlace io s := by
  constructor
  · intro moves p reaches
    cases reaches with
    | read_attach => trivial
    | @read _ _ s₁ b head access more got reached =>
      rintro ⟨wanted,stale,nothing⟩
      have returns := returns_iff.mpr ⟨head,reached,fread_fails wanted stale nothing⟩
      obtain ⟨rounds,done⟩ := (fread_returns access more).mpr ⟨s₁,b,_,_,got,returns,rfl⟩
      have counted := moves rounds _ _ done
      rw [Counted,if_pos rfl] at counted
      exact make_valid_pos.symm.trans counted
  · intro in_place rounds s' ret done
    obtain ⟨rfl,rfl | rfl⟩ | ⟨⟨access,more⟩,s₁,b,head,s₂,buf,got,reached,ends,rfl⟩ := fread_outcome done
    · exact Counted.stays.1
    · exact Counted.stays.2
    by_cases fails : ReadFails io i b head
    · rw [fread_fails fails.1 fails.2.1 fails.2.2] at ends
      cases ends
      rw [Counted,if_pos rfl]
      exact make_valid_pos.trans (in_place _ (.read access more got reached) fails)
    · by_cases wanted : Wanted i head
      · have ready : Cached head.state i b ∨ 0 < (answer io head.state i).result := by
          by_contra wrong
          obtain ⟨stale,nothing⟩ := not_or.mp wrong
          exact fails ⟨wanted,stale,not_lt.mp nothing⟩
        rw [fread_wanted wanted,if_pos ((make_valid_ok _).mpr ready)] at ends
        cases ends
      · rw [fread_done wanted] at ends
        cases ends
        exact (counted_done (read_reached linked got reached)).mpr (with_block_cases linked got).stream.1

theorem append_start {s₁ : State σ} (linked : Linked s) (got : with_block io s i = some (s₁,b)) :
    ((append_pos s₁ i).stream i).pos = (s.stream i).pos ↔
      ((s.stream i).append = true → (s.stream i).pos = (s.stream i).size) := by
  obtain ⟨pos,size,append⟩ := (with_block_cases linked got).stream
  unfold append_pos
  rw [append]
  by_cases appends : (s.stream i).append = true
  · simp [appends,size,eq_comm]
  · simp [appends,pos]

/-- A write is right about its position exactly when it gives up nowhere but where it began, and a stream that appends is
    at the end of its file when the write ends. -/
theorem fwrite_moves_iff {n_bytes : BitVec 32} {buf : Nat → UInt8} (linked : Linked s) :
    (Op.fwrite i n_bytes buf).Moves io s ↔ ∀ p, Reaches io s (.fwrite i n_bytes buf) p → p.InPlace io s := by
  constructor
  · intro moves p reaches
    cases reaches with
    | write_attach => trivial
    | @write _ _ _ s₁ b head access got reached =>
      refine ⟨fun up => ?_,fun done => ?_⟩
      · have returns := returns_iff.mpr ⟨head,reached,fwrite_gives_up up⟩
        obtain ⟨rounds,done⟩ := (fwrite_returns access).mpr ⟨s₁,b,_,got,returns,rfl⟩
        have counted := moves rounds _ _ done
        rw [Counted,if_pos rfl] at counted
        exact make_valid_pos.symm.trans counted
      · have returns := returns_iff.mpr ⟨head,reached,fwrite_done (not_lt.mpr done)⟩
        obtain ⟨rounds,done⟩ := (fwrite_returns access).mpr ⟨s₁,b,_,got,returns,rfl⟩
        have counted := (counted_done (write_reached linked got reached)).mp (moves rounds _ _ done)
        exact (append_start linked got).mp counted
  · intro in_place rounds s' ret done
    obtain ⟨rfl,rfl⟩ | ⟨access,s₁,b,head,s₂,got,reached,ends,rfl⟩ := fwrite_outcome done
    · exact Counted.stays.2
    obtain ⟨gives_up,at_end⟩ := in_place _ (.write access got reached)
    by_cases more : head.n_bytes > 0
    · by_cases up : WriteGivesUp io i b head
      · rw [fwrite_gives_up up] at ends
        cases ends
        rw [Counted,if_pos rfl]
        exact make_valid_pos.trans (gives_up up)
      · rw [fwrite_goes more up] at ends
        cases ends
    · rw [fwrite_done more] at ends
      cases ends
      exact (counted_done (write_reached linked got reached)).mpr ((append_start linked got).mpr (at_end (not_lt.mp more)))

/-- An operation loses no dirty byte, and is right about its position, exactly when each of its parts is careful and ends
    it in place. -/
theorem errors_lose_nothing_iff (op : Op σ) (linked : Linked s) : Right io s op ↔ Careful io s op := by
  have safe : (∀ p, Reaches io s op p → p.Safe io) ↔ ∀ p, Reaches io s op p → p.Careful io :=
    forall₂_congr (fun p reaches => part_safe_iff linked reaches)
  have moves : op.Moves io s ↔ ∀ p, Reaches io s op p → p.InPlace io s := by
    cases op with
    | fread i n_bytes => exact fread_moves_iff linked
    | fwrite i n_bytes buf => exact fwrite_moves_iff linked
    | fseek i offset whence => exact iff_of_true trivial (fun p reaches => by cases reaches; trivial)
    | fclose i => exact iff_of_true trivial (fun p reaches => by cases reaches; trivial)
  rw [Right,safe,moves,Careful]
  exact ⟨fun both p reaches => ⟨both.1 p reaches,both.2 p reaches⟩,
    fun both => ⟨fun p reaches => (both p reaches).1,fun p reaches => (both p reaches).2⟩⟩

end Transfers

/-! ### The states of runs -/

section Runs
variable {σ : Type} [DecidableEq σ] {io : Io} {s s' : State σ} {i : σ} {b : Fin BUF_BLOCK_NUM} {start : BitVec 32}

/-- Streams that were just opened, over the pool of `stream_file_buffer_init`; `base` is what its memory holds. -/
def opened (access : σ → Access) (append : σ → Bool) (size : σ → BitVec 64) (base : Fin BUF_BLOCK_NUM → Nat → UInt8) :
    State σ where
  buffer_pool b := free_block (base b)
  stream i := ⟨access i,append i,none,0,size i⟩
  freed _ := false
  reads := 0
  written := []

omit [DecidableEq σ] in
theorem opened_linked (access : σ → Access) (append : σ → Bool) (size : σ → BitVec 64)
    (base : Fin BUF_BLOCK_NUM → Nat → UInt8) : Linked (opened access append size base) :=
  fun _ _ => iff_of_false (by simp [opened]) (by simp [opened])

omit [DecidableEq σ] in
theorem put_frame : Frame b s (put_buffer_block s b) := setBlock_frame rfl

theorem read_ends_frame {head : Head σ (List Copy)} {ret : Int} {buf : List Copy}
    (ends : fread_round io i b start head = .inl (s',ret,buf)) : Frame b head.state s' := by
  by_cases wanted : Wanted i head
  · rw [fread_wanted wanted] at ends
    split at ends
    · cases ends
    · cases ends
      exact make_valid_frame
  · rw [fread_done wanted] at ends
    cases ends
    exact .refl

theorem write_ends_frame {head : Head σ (Nat → UInt8)} {ret : Int}
    (ends : fwrite_round io i b start head = .inl (s',ret)) : Frame b head.state s' := by
  by_cases more : head.n_bytes > 0
  · rw [fwrite_wanted more] at ends
    split at ends
    · cases ends
      exact make_valid_frame
    · cases ends
  · rw [fwrite_done more] at ends
    cases ends
    exact .refl

theorem fclose_linked {ret : Int} (linked : Linked s) (done : stdio_fclose io s i = some (s',ret)) : Linked s' := by
  cases own : (s.stream i).block with
  | none =>
    simp only [stdio_fclose,own] at done
    cases done
    exact linked
  | some b =>
    rw [fclose_eq linked own] at done
    cases done
    have evicted := evicted_linked io linked ((linked i b).mp own)
    intro j c
    have before := evicted j c
    rw [filp_delete,setStream_stream,setStream_pool]
    by_cases here : j = i
    · subst here
      rw [evicted_block,if_pos rfl] at before
      simpa using before
    · rw [Function.update_of_ne here]
      exact before

/-- An operation leaves every block with the stream that has it. -/
theorem step_linked {rounds : Nat} {op : Op σ} {ret : Int} (linked : Linked s)
    (done : step io rounds s op = some (s',ret)) : Linked s' := by
  cases op with
  | fread i n_bytes =>
    obtain ⟨rfl,_⟩ | ⟨_,s₁,b,head,s₂,buf,got,reached,ends,rfl⟩ := fread_outcome done
    · exact linked
    exact ((read_ends_frame ends).trans put_frame).linked (read_reached linked got reached).linked
  | fwrite i n_bytes buf =>
    obtain ⟨rfl,_⟩ | ⟨_,s₁,b,head,s₂,got,reached,ends,rfl⟩ := fwrite_outcome done
    · exact linked
    exact ((write_ends_frame ends).trans put_frame).linked (write_reached linked got reached).linked
  | fseek i offset whence =>
    cases done
    cases own : (s.stream i).block with
    | none =>
      intro j c
      have before := linked j c
      by_cases here : j = i
      · subst here
        simpa [stdio_fseek,update_own_block,own] using before
      · simpa [stdio_fseek,update_own_block,own,here] using before
    | some b => exact (fseek_frame own).linked linked
  | fclose i => exact fclose_linked linked done

/-- The operations of a run answer after so many rounds each. -/
def Runs (io : Io) : State σ → State σ → Prop :=
  Relation.ReflTransGen (fun s s' => ∃ rounds op ret, step io rounds s op = some (s',ret))

theorem run_linked (linked : Linked s) (run : Runs io s s') : Linked s' := by
  induction run with
  | refl => exact linked
  | tail _ done ih =>
    obtain ⟨rounds,op,ret,done⟩ := done
    exact step_linked ih done

end Runs

/-! ### A write-back that fails -/

/-- Writes fail, and reads answer whole blocks of a file of two. -/
def failing : Io where
  read _ _ := ⟨BUF_BLOCK_SIZE,le_rfl,524288,fun _ => 7⟩
  write _ := -1
  eio _ := false

/-- The first block of a file of two was filled, and the position is behind it. -/
def first_filled : State Unit where
  buffer_pool b := if b = first_block then ⟨⟨BUF_BLOCK_SIZE,Nat.lt_succ_self _⟩,0,1,true,true,false,fun _ => 5,some ()⟩
    else free_block (fun _ => 0)
  stream _ := ⟨.O_RDWR,false,some first_block,262144,524288⟩
  freed _ := false
  reads := 1
  written := []

theorem first_filled_linked : Linked first_filled := by
  intro i b
  by_cases here : b = first_block
  · simp [first_filled,here]
  · simp [first_filled,here,Ne.symm here]

/-- A read of the second block overwrites the bytes of the first one, which were not written. -/
theorem failed_write_back_lost : ¬Right failing first_filled (.fread () 1) := by
  intro right
  have reaches : Reaches failing first_filled (.fread () 1)
      (.read () first_block (start_pos first_filled ()) (fread_head first_filled 1)) :=
    .read (by decide) (by decide) rfl .refl
  have careful := (part_safe_iff first_filled_linked reaches).mp (right.1 _ reaches)
  rcases careful (by decide) rfl (fun fails => absurd fails.2.2 (by decide)) with ⟨_,written⟩ | ⟨same,_⟩
  · exact absurd written (by decide)
  · exact absurd same (by decide)

/-- Every system call fails. -/
def broken : Io where
  read _ _ := ⟨-1,by decide,0,fun _ => 0⟩
  write _ := -1
  eio _ := true

theorem first_filled_block {s : State Unit} {b : Fin BUF_BLOCK_NUM} (got : with_block broken first_filled () = some (s,b)) :
    s = first_filled ∧ b = first_block := by
  have own : with_block broken first_filled () = some (first_filled,first_block) := rfl
  obtain ⟨rfl,rfl⟩ := Prod.mk.inj (Option.some.inj (own.symm.trans got))
  exact ⟨rfl,rfl⟩

/-- A read and a write that fail with the write-back of the first block keep it, and tell the caller. -/
theorem failed_calls_right : Right broken first_filled (.fread () 1) ∧ Right broken first_filled (.fwrite () 1 (fun _ => 9)) := by
  constructor
  · refine (errors_lose_nothing_iff _ first_filled_linked).mpr (fun p reaches => ?_)
    cases reaches with
    | read_attach => exact ⟨nofun,trivial⟩
    | read _ _ got reached =>
      obtain ⟨rfl,rfl⟩ := first_filled_block got
      have fails : ReadFails broken () first_block (fread_head first_filled 1) := ⟨by decide,by decide,by decide⟩
      obtain rfl := reached.ended (fread_fails fails.1 fails.2.1 fails.2.2)
      exact ⟨fun _ _ goes => absurd fails goes,fun _ => rfl⟩
  · refine (errors_lose_nothing_iff _ first_filled_linked).mpr (fun p reaches => ?_)
    cases reaches with
    | write_attach => exact ⟨nofun,trivial⟩
    | write _ got reached =>
      obtain ⟨rfl,rfl⟩ := first_filled_block got
      have up : WriteGivesUp broken () first_block ⟨first_filled,1,fun _ => 9⟩ := ⟨by decide,⟨by decide,by decide⟩,rfl⟩
      obtain rfl := reached.ended (fwrite_gives_up up)
      exact ⟨fun _ _ goes => absurd up goes,fun _ => rfl,fun none_left => absurd none_left (by decide)⟩

end GridOS.StreamErrors
