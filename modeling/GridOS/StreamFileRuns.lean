import GridOS.StreamFile

/-!
The streams over whole runs. `Coherent` ties the pool and the disk to the byte files: a valid block
holds the bytes of the block of the file that its `pre_id` names, a dirty one is in front of its
stream, and the disk holds every byte that no dirty block does. A run refines the byte files when
none of its steps leaves a dirty block behind, writes over the end, or meets a block that another
stream of the same file has dirty.
-/
namespace GridOS.StreamFile

section Fields
variable {σ φ : Type} (s : State σ φ) (b : Fin BUF_BLOCK_NUM) (block : buffer_block σ)

@[simp] theorem setBlock_pool : (setBlock s b block).buffer_pool = Function.update s.buffer_pool b block := rfl
@[simp] theorem setBlock_stream : (setBlock s b block).stream = s.stream := rfl
@[simp] theorem setBlock_disk : (setBlock s b block).disk = s.disk := rfl
@[simp] theorem setBlock_freed : (setBlock s b block).freed = s.freed := rfl

/-- A block that keeps its owner. -/
theorem file_update (same : block.file = (s.buffer_pool b).file) (c : Fin BUF_BLOCK_NUM) :
    (Function.update s.buffer_pool b block c).file = (s.buffer_pool c).file := by
  by_cases here : c = b
  · subst here
    simpa using same
  · simp [here]

variable [DecidableEq σ] (i : σ) (file : stdio_file φ)

@[simp] theorem setStream_pool : (setStream s i file).buffer_pool = s.buffer_pool := rfl
@[simp] theorem setStream_stream : (setStream s i file).stream = Function.update s.stream i file := rfl
@[simp] theorem setStream_disk : (setStream s i file).disk = s.disk := rfl
@[simp] theorem setStream_freed : (setStream s i file).freed = s.freed := rfl

end Fields

section Disk
variable {σ φ : Type} [DecidableEq φ] (s : State σ φ) (f g : φ) (user_buffer : Nat → UInt8) (file_pos p : Nat)

@[simp] theorem sys_write_pool : (sys_write s f user_buffer file_pos).buffer_pool = s.buffer_pool := rfl
@[simp] theorem sys_write_stream : (sys_write s f user_buffer file_pos).stream = s.stream := rfl
@[simp] theorem sys_write_freed : (sys_write s f user_buffer file_pos).freed = s.freed := rfl

@[simp] theorem sys_write_size : ((sys_write s f user_buffer file_pos).disk g).size = (s.disk g).size := by
  by_cases same : g = f
  · subst same
    simp [sys_write]
  · simp [sys_write,same]

theorem sys_write_data : ((sys_write s f user_buffer file_pos).disk g).data p =
    if g = f ∧ BUF_BLOCK_ID p = BUF_BLOCK_ID file_pos then user_buffer (BUF_BLOCK_OFFSET p) else (s.disk g).data p := by
  by_cases same : g = f
  · subst same
    simp [sys_write]
  · simp [sys_write,same]

end Disk

section Blocks

theorem block_size_pos : 0 < BUF_BLOCK_SIZE := by decide

theorem id_offset (pos : Nat) : BUF_BLOCK_ID pos * BUF_BLOCK_SIZE + BUF_BLOCK_OFFSET pos = pos := Nat.div_add_mod' pos _

theorem id_of_offset {id k : Nat} (inside : k < BUF_BLOCK_SIZE) : BUF_BLOCK_ID (id * BUF_BLOCK_SIZE + k) = id := by
  rw [BUF_BLOCK_ID,Nat.add_comm,Nat.add_mul_div_right _ _ block_size_pos,Nat.div_eq_of_lt inside,Nat.zero_add]

theorem id_block_start (id : Nat) : BUF_BLOCK_ID (id * BUF_BLOCK_SIZE) = id := Nat.mul_div_cancel id block_size_pos

theorem offset_lt (pos : Nat) : BUF_BLOCK_OFFSET pos < BUF_BLOCK_SIZE := Nat.mod_lt pos block_size_pos

theorem id_mono {p q : Nat} (le : p ≤ q) : BUF_BLOCK_ID p ≤ BUF_BLOCK_ID q := Nat.div_le_div_right le

/-- A position between two in one block is in the block. -/
theorem id_between {pos n k : Nat} (same : BUF_BLOCK_ID (pos + n) = BUF_BLOCK_ID pos) (le : k ≤ n) :
    BUF_BLOCK_ID (pos + k) = BUF_BLOCK_ID pos :=
  Nat.le_antisymm (same ▸ id_mono (Nat.add_le_add_left le pos)) (id_mono (Nat.le_add_right pos k))

theorem offset_fits {pos n : Nat} (same : BUF_BLOCK_ID (pos + n) = BUF_BLOCK_ID pos) :
    BUF_BLOCK_OFFSET pos + n < BUF_BLOCK_SIZE := by
  have before := id_offset pos
  have after := id_offset (pos + n)
  have inside := offset_lt (pos + n)
  rw [same] at after
  omega

theorem id_start (pos : Nat) : BUF_BLOCK_ID (pos - BUF_BLOCK_OFFSET pos) = BUF_BLOCK_ID pos := by
  have start : pos - BUF_BLOCK_OFFSET pos = BUF_BLOCK_ID pos * BUF_BLOCK_SIZE := by
    have whole := id_offset pos
    omega
  rw [start,id_block_start]

/-- Below 2^49 an `int` holds the number of every block. -/
theorem id_small {pos : Nat} (small : pos < 2^49) : BUF_BLOCK_ID pos < 2^31 := by
  rw [BUF_BLOCK_ID,Nat.div_lt_iff_lt_mul block_size_pos]
  exact small

theorem id_int_eq {pos : Nat} (small : pos < 2^49) : id_int pos = BUF_BLOCK_ID pos :=
  Nat.mod_eq_of_lt (Nat.lt_trans (id_small small) (by decide))

theorem as_uoffset_eq {id : Nat} (small : id < 2^31) : as_uoffset id = id := if_pos small

end Blocks

section Invariant
variable {σ φ : Type}

/-- A block holds what its flags say. -/
structure Sound (t : ByteFiles σ φ) (block : buffer_block σ) : Prop where
  free : block.file = none → block.valid = false ∧ block.dirty = false
  cached : ∀ i, block.file = some i → block.valid = true → block.pre_id < 2^31 ∧
    block.valid_size = min BUF_BLOCK_SIZE (t.size (t.handle i) - block.pre_id * BUF_BLOCK_SIZE) ∧
    ∀ k < BUF_BLOCK_SIZE, block.base k = t.content (t.handle i) (block.pre_id * BUF_BLOCK_SIZE + k)
  here : ∀ i, block.file = some i → block.dirty = true → block.valid = true ∧ block.pre_id = BUF_BLOCK_ID (t.pos i)

/-- A stream is where the byte files have it. -/
structure Follows (t : ByteFiles σ φ) (i : σ) (file : stdio_file φ) : Prop where
  access : file.access = .O_RDWR
  append : file.append = false
  handle : file.handle = t.handle i
  pos : file.pos = t.pos i
  size : file.size = t.size (t.handle i)

/-- A dirty block holds the block `id` of the file `f`. -/
def Unwritten (s : State σ φ) (handle : σ → φ) (f : φ) (id : Nat) : Prop :=
  ∃ b i, (s.buffer_pool b).file = some i ∧ handle i = f ∧ (s.buffer_pool b).dirty = true ∧
    (s.buffer_pool b).pre_id = id

/-- What holds between two operations. -/
structure Coherent (s : State σ φ) (t : ByteFiles σ φ) : Prop where
  own : ∀ i b, (s.stream i).block = some b ↔ (s.buffer_pool b).file = some i
  blocks : ∀ b, Sound t (s.buffer_pool b)
  streams : ∀ i, Follows t i (s.stream i)
  disk_size : ∀ f, (s.disk f).size = t.size f
  inside : ∀ i, t.pos i ≤ t.size (t.handle i)
  small : ∀ f, t.size f ≤ 2^49
  stored : ∀ f p, ¬Unwritten s t.handle f (BUF_BLOCK_ID p) → (s.disk f).data p = t.content f p

theorem Coherent.one_block {s : State σ φ} {t : ByteFiles σ φ} {i : σ} {b c : Fin BUF_BLOCK_NUM}
    (coherent : Coherent s t) (owned : (s.buffer_pool b).file = some i) (owned' : (s.buffer_pool c).file = some i) :
    b = c := by
  rw [← coherent.own] at owned owned'
  exact Option.some.inj (owned.symm.trans owned')

theorem Sound.clean {t : ByteFiles σ φ} {block : buffer_block σ} (sound : Sound t block) :
    Sound t { block with dirty := false } where
  free none_owns := ⟨(sound.free none_owns).1,rfl⟩
  cached := sound.cached
  here _ _ dirty := by cases dirty

end Invariant

section Steps
variable {σ φ : Type} [DecidableEq σ] [DecidableEq φ] {s : State σ φ} {t : ByteFiles σ φ} {i : σ}
  {b : Fin BUF_BLOCK_NUM}

section Dirty
omit [DecidableEq σ]

/-- A dirty block is written to the disk where it belongs. -/
theorem update_dirty_eq (coherent : Coherent s t) (dirty : (s.buffer_pool b).dirty = true) : update_dirty_buffer_block s i b =
    setBlock (sys_write s (t.handle i) (s.buffer_pool b).base (t.pos i - BUF_BLOCK_OFFSET (t.pos i))) b
      { s.buffer_pool b with dirty := false } := by
  have stream := coherent.streams i
  have not_past : ¬((s.stream i).append = true ∨ (s.stream i).pos > (s.stream i).size) := by
    rw [stream.append,stream.pos,stream.size]
    simpa using coherent.inside i
  rw [update_dirty_buffer_block,if_neg (by simp [dirty]),if_neg not_past,stream.handle,stream.pos]

theorem update_dirty_coherent (coherent : Coherent s t) (owner : (s.buffer_pool b).file = some i) :
    Coherent (update_dirty_buffer_block s i b) t := by
  cases dirty : (s.buffer_pool b).dirty with
  | false => simpa [update_dirty_buffer_block,dirty] using coherent
  | true =>
    obtain ⟨valid,here⟩ := (coherent.blocks b).here i owner dirty
    obtain ⟨_,_,cached⟩ := (coherent.blocks b).cached i owner valid
    rw [update_dirty_eq coherent dirty]
    refine ⟨?_,?_,coherent.streams,?_,coherent.inside,coherent.small,?_⟩
    · intro j c
      simpa [file_update] using coherent.own j c
    · simp only [setBlock_pool,Function.forall_update_iff]
      exact ⟨(coherent.blocks b).clean,fun c _ => coherent.blocks c⟩
    · simpa using coherent.disk_size
    · intro f p written
      rw [setBlock_disk,sys_write_data,id_start]
      by_cases of_block : f = t.handle i ∧ BUF_BLOCK_ID p = BUF_BLOCK_ID (t.pos i)
      · rw [if_pos of_block,cached _ (offset_lt p),here,of_block.1,← of_block.2,id_offset]
      · rw [if_neg of_block]
        refine coherent.stored f p (fun ⟨c,j,owned,of_file,still,id⟩ => ?_)
        by_cases same : c = b
        · subst same
          obtain rfl : i = j := Option.some.inj (owner.symm.trans owned)
          exact of_block ⟨of_file.symm,id.symm.trans here⟩
        · exact written ⟨c,j,by simpa [same] using owned,of_file,by simpa [same] using still,by simpa [same] using id⟩

theorem update_dirty_pool : (update_dirty_buffer_block s i b).buffer_pool =
    Function.update s.buffer_pool b { s.buffer_pool b with dirty := false } := by
  rw [update_dirty_buffer_block]
  cases dirty : (s.buffer_pool b).dirty with
  | false =>
    have same : { s.buffer_pool b with dirty := false } = s.buffer_pool b := by rw [← dirty]
    simp [same]
  | true =>
    simp only [Bool.true_eq_false,if_false]
    split <;> simp [append_stream_file]

theorem update_dirty_stream : (update_dirty_buffer_block s i b).stream = s.stream := by
  rw [update_dirty_buffer_block]
  split
  · rfl
  · simp only
    split <;> rfl

theorem update_dirty_freed : (update_dirty_buffer_block s i b).freed = s.freed := by
  rw [update_dirty_buffer_block]
  split
  · rfl
  · simp only
    split <;> rfl

end Dirty

omit [DecidableEq σ] [DecidableEq φ] in
/-- A change of a clean block leaves the dirty ones. -/
theorem Unwritten.of_clean {s' : State σ φ} {block : buffer_block σ} {handle : σ → φ} {f : φ} {id : Nat}
    (pool : s'.buffer_pool = Function.update s.buffer_pool b block) (clean : (s.buffer_pool b).dirty = false)
    (unwritten : Unwritten s handle f id) : Unwritten s' handle f id := by
  obtain ⟨c,j,owned,of_file,dirty,same_id⟩ := unwritten
  have other : c ≠ b := by
    rintro rfl
    rw [clean] at dirty
    cases dirty
  have same : s'.buffer_pool c = s.buffer_pool c := by rw [pool,Function.update_of_ne other]
  exact ⟨c,j,by rwa [same],of_file,by rwa [same],by rwa [same]⟩

omit [DecidableEq φ] in
theorem release_coherent (coherent : Coherent s t) (owner : (s.buffer_pool b).file = some i)
    (clean : (s.buffer_pool b).dirty = false) : Coherent (release s i b) t := by
  refine ⟨?_,?_,?_,coherent.disk_size,coherent.inside,coherent.small,?_⟩
  · intro j c
    have mine : (s.stream i).block = some b := (coherent.own i b).mpr owner
    have own := coherent.own j c
    by_cases same_stream : j = i
    · subst same_stream
      by_cases same_block : c = b
      · simp [release,same_block]
      · have other : ¬(s.buffer_pool c).file = some j := by
          rw [← own,mine]
          exact fun same => same_block (Option.some.inj same).symm
        simp [release,same_block,other]
    · by_cases same_block : c = b
      · subst same_block
        have other : ¬(s.stream j).block = some c := by
          rw [own,owner]
          exact fun same => same_stream (Option.some.inj same).symm
        simp [release,same_stream,other]
      · simpa [release,same_stream,same_block] using own
  · simp only [release,setBlock_pool,Function.forall_update_iff]
    refine ⟨⟨fun _ => ⟨rfl,rfl⟩,?_,?_⟩,fun c _ => coherent.blocks c⟩
    · intro i owned
      cases owned
    · intro i owned
      cases owned
  · simp only [release,setBlock_stream,setStream_stream,Function.forall_update_iff]
    have stream := coherent.streams i
    exact ⟨⟨stream.access,stream.append,stream.handle,stream.pos,stream.size⟩,fun j _ => coherent.streams j⟩
  · intro f p written
    exact coherent.stored f p (fun unwritten => written (unwritten.of_clean rfl clean))

omit [DecidableEq φ] in
theorem assign_coherent (coherent : Coherent s t) (free : (s.buffer_pool b).file = none)
    (without : (s.stream i).block = none) : Coherent (assign s i b) t := by
  obtain ⟨invalid,clean⟩ := (coherent.blocks b).free free
  refine ⟨?_,?_,?_,coherent.disk_size,coherent.inside,coherent.small,?_⟩
  · intro j c
    have own := coherent.own j c
    by_cases same_stream : j = i
    · subst same_stream
      rw [without] at own
      by_cases same_block : c = b
      · simp [assign,same_block]
      · have other : ¬(s.buffer_pool c).file = some j := fun owned => by cases own.mpr owned
        simp [assign,same_block,other,Ne.symm same_block]
    · by_cases same_block : c = b
      · subst same_block
        rw [free] at own
        have other : ¬(s.stream j).block = some c := fun owned => by cases own.mp owned
        simp [assign,same_stream,other,Ne.symm same_stream]
      · simpa [assign,same_stream,same_block] using own
  · simp only [assign,setBlock_pool,setStream_pool,Function.forall_update_iff]
    refine ⟨⟨?_,?_,?_⟩,fun c _ => coherent.blocks c⟩
    · intro nobody
      cases nobody
    · intro j _ valid
      rw [invalid] at valid
      cases valid
    · intro j _ dirty
      rw [clean] at dirty
      cases dirty
  · simp only [assign,setBlock_stream,setStream_stream,Function.forall_update_iff]
    have stream := coherent.streams i
    exact ⟨⟨stream.access,stream.append,stream.handle,stream.pos,stream.size⟩,fun j _ => coherent.streams j⟩
  · intro f p written
    exact coherent.stored f p (fun unwritten => written (unwritten.of_clean rfl clean))

/-- A block is taken from its stream, its data on disk. -/
theorem swap_out_eq (coherent : Coherent s t) (owner : (s.buffer_pool b).file = some i) :
    swap_out_buffer_block s b = some (release (update_dirty_buffer_block s i b) i b) := by
  have mine : (s.stream i).block = some b := (coherent.own i b).mpr owner
  simp [swap_out_buffer_block,owner,mine]

theorem swap_out_coherent (coherent : Coherent s t) (owner : (s.buffer_pool b).file = some i) :
    Coherent (release (update_dirty_buffer_block s i b) i b) t := by
  have pool : (update_dirty_buffer_block s i b).buffer_pool b = { s.buffer_pool b with dirty := false } := by
    rw [update_dirty_pool,Function.update_self]
  refine release_coherent (update_dirty_coherent coherent owner) ?_ ?_
  · rw [pool]
    exact owner
  · rw [pool]

/-- No block is in use by an operation. -/
def Idle (s : State σ φ) : Prop := ∀ b, (s.buffer_pool b).busy = false

/-- A stream without a block gets one; no other block changes. -/
theorem get_buffer_block_spec (coherent : Coherent s t) (idle : Idle s) (without : (s.stream i).block = none) :
    ∃ s' b, get_buffer_block s i = some (s',b) ∧ Coherent s' t ∧ (s'.buffer_pool b).file = some i ∧
      (s'.buffer_pool b).dirty = false ∧ (∀ c, c ≠ b → s'.buffer_pool c = s.buffer_pool c) ∧ s'.freed = s.freed := by
  rw [get_buffer_block]
  cases found : get_free_buffer_block s with
  | some b =>
    have free : (s.buffer_pool b).file = none := by simpa using List.find?_some found
    refine ⟨_,b,rfl,assign_coherent coherent free without,?_,?_,?_,rfl⟩
    · simp [assign]
    · simpa [assign] using ((coherent.blocks b).free free).2
    · intro c other
      simp [assign,other]
  | none =>
    have taken : (s.buffer_pool (mix_index s)).file ≠ none := by
      simpa using List.find?_eq_none.mp found (mix_index s) (List.mem_finRange _)
    obtain ⟨j,owner⟩ := Option.ne_none_iff_exists'.mp taken
    have other_stream : i ≠ j := by
      rintro rfl
      rw [(coherent.own i _).mpr owner] at without
      cases without
    rw [get_rebirth_buffer_block,idle (mix_index s),swap_out_eq coherent owner]
    generalize mix_index s = b at owner
    have swapped := swap_out_coherent coherent owner
    have free : ((release (update_dirty_buffer_block s j b) j b).buffer_pool b).file = none := by simp [release]
    have still_without : ((release (update_dirty_buffer_block s j b) j b).stream i).block = none := by
      simpa [release,other_stream,update_dirty_stream] using without
    refine ⟨_,b,rfl,assign_coherent swapped free still_without,?_,?_,?_,?_⟩
    · simp [assign]
    · simp [assign,release]
    · intro c other
      simp [assign,release,other,update_dirty_pool]
    · simp [assign,release,update_dirty_freed]

omit [DecidableEq σ] [DecidableEq φ] in
/-- A sound block in the place of one that it keeps the unwritten data of. -/
theorem Coherent.replace {s' : State σ φ} {block : buffer_block σ} (coherent : Coherent s t)
    (pool : s'.buffer_pool = Function.update s.buffer_pool b block) (streams : s'.stream = s.stream)
    (disk : s'.disk = s.disk) (same_owner : block.file = (s.buffer_pool b).file) (sound : Sound t block)
    (keeps : (s.buffer_pool b).dirty = true → block.dirty = true ∧ block.pre_id = (s.buffer_pool b).pre_id) :
    Coherent s' t := by
  refine ⟨?_,?_,by rw [streams]; exact coherent.streams,by rw [disk]; exact coherent.disk_size,coherent.inside,
    coherent.small,?_⟩
  · intro j c
    rw [streams,pool,file_update s b block same_owner]
    exact coherent.own j c
  · rw [pool]
    simp only [Function.forall_update_iff]
    exact ⟨sound,fun c _ => coherent.blocks c⟩
  · intro f p written
    rw [disk]
    refine coherent.stored f p (fun ⟨c,j,owned,of_file,dirty,id⟩ => written ?_)
    by_cases same : c = b
    · subst same
      obtain ⟨still,same_id⟩ := keeps dirty
      exact ⟨c,j,by rw [pool]; simpa [same_owner] using owned,of_file,by rw [pool]; simpa using still,
        by rw [pool]; simpa [same_id] using id⟩
    · exact ⟨c,j,by rw [pool]; simpa [same] using owned,of_file,by rw [pool]; simpa [same] using dirty,
        by rw [pool]; simpa [same] using id⟩

/-- No other dirty block is the block `id` of the file of `i`. -/
def Apart (s : State σ φ) (t : ByteFiles σ φ) (i : σ) (b : Fin BUF_BLOCK_NUM) (id : Nat) : Prop :=
  ∀ c j, c ≠ b → (s.buffer_pool c).file = some j → t.handle j = t.handle i → (s.buffer_pool c).dirty = true →
    (s.buffer_pool c).pre_id ≠ id

omit [DecidableEq σ] [DecidableEq φ] in
/-- The block in which the position is, read from the disk. -/
theorem loaded_sound (coherent : Coherent s t) (owner : (s.buffer_pool b).file = some i)
    (clean : (s.buffer_pool b).dirty = false) (more : t.pos i < t.size (t.handle i))
    (apart : Apart s t i b (BUF_BLOCK_ID (t.pos i))) : Sound t { s.buffer_pool b with
      base := fun k => (s.disk (t.handle i)).data (BUF_BLOCK_ID (t.pos i) * BUF_BLOCK_SIZE + k)
      valid_size := min BUF_BLOCK_SIZE (t.size (t.handle i) - BUF_BLOCK_ID (t.pos i) * BUF_BLOCK_SIZE)
      valid := true
      pre_id := id_int (t.pos i) } := by
  have small : t.pos i < 2^49 := Nat.lt_of_lt_of_le more (coherent.small _)
  refine ⟨?_,?_,?_⟩
  · intro nobody
    rw [owner] at nobody
    cases nobody
  · intro j owned _
    obtain rfl : i = j := Option.some.inj (owner.symm.trans owned)
    simp only [id_int_eq small]
    refine ⟨id_small small,trivial,fun k inside => ?_⟩
    refine coherent.stored _ _ (fun ⟨c,j,owned,of_file,dirty,id⟩ => ?_)
    rw [id_of_offset inside] at id
    by_cases same : c = b
    · subst same
      rw [clean] at dirty
      cases dirty
    · exact apart c j same owned of_file dirty id
  · intro j _ dirty
    rw [clean] at dirty
    cases dirty

/-- What `make_valid_data` leaves: the block in which the position is, once `pre_id` names it. -/
structure Loaded (s s' : State σ φ) (t : ByteFiles σ φ) (i : σ) (b : Fin BUF_BLOCK_NUM) : Prop where
  coherent : Coherent (setBlock s' b { s'.buffer_pool b with pre_id := id_int (t.pos i) }) t
  valid : (s'.buffer_pool b).valid = true
  owner : (s'.buffer_pool b).file = some i
  dirty : (s'.buffer_pool b).dirty = (s.buffer_pool b).dirty
  others : ∀ c, c ≠ b → s'.buffer_pool c = s.buffer_pool c
  freed : s'.freed = s.freed

omit [DecidableEq φ] in
theorem disk_to_block_spec (coherent : Coherent s t) (owner : (s.buffer_pool b).file = some i)
    (clean : (s.buffer_pool b).dirty = false) (more : t.pos i < t.size (t.handle i))
    (apart : Apart s t i b (BUF_BLOCK_ID (t.pos i))) :
    ∃ s', disk_to_block s i b (t.pos i) = (s',true) ∧ Loaded s s' t i b := by
  have stream := coherent.streams i
  have some_valid : min BUF_BLOCK_SIZE (t.size (t.handle i) - BUF_BLOCK_ID (t.pos i) * BUF_BLOCK_SIZE) > 0 := by
    have whole := id_offset (t.pos i)
    exact Nat.lt_min.mpr ⟨block_size_pos,by omega⟩
  have same_stream : Function.update s.stream i { s.stream i with size := (s.disk (t.handle i)).size } = s.stream := by
    rw [coherent.disk_size,← stream.size]
    exact Function.update_eq_self i s.stream
  rw [disk_to_block,sys_read]
  simp only [stream.handle,id_block_start,coherent.disk_size,some_valid,if_true]
  refine ⟨_,rfl,?_,by simp,by simp [owner],by simp,?_,by simp⟩
  · have sound := loaded_sound coherent owner clean more apart
    refine coherent.replace (b := b) ?_ ?_ rfl ?_ sound (by simp [clean])
    · simp
    · simpa [coherent.disk_size] using same_stream
    · rfl
  · intro c other
    simp [other]

theorem make_valid_spec (coherent : Coherent s t) (owner : (s.buffer_pool b).file = some i)
    (more : t.pos i < t.size (t.handle i)) (apart : Apart s t i b (BUF_BLOCK_ID (t.pos i))) :
    ∃ s', make_valid_data s i b = (s',true) ∧ Loaded s s' t i b := by
  have small : t.pos i < 2^49 := Nat.lt_of_lt_of_le more (coherent.small _)
  rw [make_valid_data,(coherent.streams i).pos]
  by_cases there : as_uoffset (s.buffer_pool b).pre_id = BUF_BLOCK_ID (t.pos i)
  · simp only [there,ne_eq,not_true,if_false]
    cases valid : (s.buffer_pool b).valid with
    | true =>
      have same : { s.buffer_pool b with pre_id := id_int (t.pos i) } = s.buffer_pool b := by
        rw [id_int_eq small,← there,as_uoffset_eq ((coherent.blocks b).cached i owner valid).1]
      refine ⟨s,if_pos rfl,?_,valid,owner,rfl,fun _ _ => rfl,rfl⟩
      rw [same,setBlock,Function.update_eq_self]
      exact coherent
    | false =>
      have clean : (s.buffer_pool b).dirty = false := by
        by_contra dirty
        rw [((coherent.blocks b).here i owner (Bool.eq_true_of_not_eq_false dirty)).1] at valid
        cases valid
      rw [if_neg Bool.false_ne_true]
      exact disk_to_block_spec coherent owner clean more apart
  · -- a dirty block would be in front of the stream
    have clean : (s.buffer_pool b).dirty = false := by
      by_contra dirty
      obtain ⟨valid,here⟩ := (coherent.blocks b).here i owner (Bool.eq_true_of_not_eq_false dirty)
      rw [as_uoffset_eq ((coherent.blocks b).cached i owner valid).1] at there
      exact there here
    have nothing : update_dirty_buffer_block s i b = s := by simp [update_dirty_buffer_block,clean]
    simp only [there,ne_eq,not_false_eq_true,if_true,nothing]
    have invalid : Sound t { s.buffer_pool b with valid := false } := by
      refine ⟨?_,?_,?_⟩
      · intro nobody
        rw [show (s.buffer_pool b).file = none from nobody] at owner
        cases owner
      · intro j _ valid
        cases valid
      · intro j _ dirty
        rw [show (s.buffer_pool b).dirty = true from dirty] at clean
        cases clean
    have dropped : Coherent (setBlock s b { s.buffer_pool b with valid := false }) t :=
      coherent.replace rfl rfl rfl rfl invalid (by simp [clean])
    have still_apart : Apart (setBlock s b { s.buffer_pool b with valid := false }) t i b (BUF_BLOCK_ID (t.pos i)) := by
      intro c j other
      simpa [other] using apart c j other
    obtain ⟨s',fetched,loaded⟩ := disk_to_block_spec dropped (by simpa using owner) (by simpa using clean) more still_apart
    refine ⟨s',?_,loaded.coherent,loaded.valid,loaded.owner,?_,?_,loaded.freed⟩
    · simpa using fetched
    · simpa using loaded.dirty
    · intro c other
      simpa [other] using loaded.others c other

section Moves
omit [DecidableEq φ]

@[simp] theorem move_handle (pos : Nat) : (t.move i pos).handle = t.handle := rfl
@[simp] theorem move_size (pos : Nat) : (t.move i pos).size = t.size := rfl
@[simp] theorem move_content (pos : Nat) : (t.move i pos).content = t.content := rfl
@[simp] theorem move_pos (pos : Nat) : (t.move i pos).pos i = pos := by simp [ByteFiles.move]

@[simp] theorem move_move (pos pos' : Nat) : (t.move i pos).move i pos' = t.move i pos' := by simp [ByteFiles.move]

/-- A stream moves, but not away from a dirty block. -/
theorem Coherent.moved {pos : Nat} (coherent : Coherent s t) (inside : pos ≤ t.size (t.handle i))
    (stays : ∀ b, (s.buffer_pool b).file = some i → (s.buffer_pool b).dirty = true →
      BUF_BLOCK_ID pos = (s.buffer_pool b).pre_id) :
    Coherent (setStream s i { s.stream i with pos := pos }) (t.move i pos) := by
  refine ⟨?_,?_,?_,coherent.disk_size,?_,coherent.small,coherent.stored⟩
  · intro j c
    have own := coherent.own j c
    by_cases same : j = i
    · subst same
      simpa using own
    · simpa [same] using own
  · intro c
    have sound := coherent.blocks c
    refine ⟨sound.free,sound.cached,fun j owned dirty => ?_⟩
    obtain ⟨valid,here⟩ := sound.here j owned dirty
    refine ⟨valid,?_⟩
    by_cases same : j = i
    · subst same
      simpa [ByteFiles.move] using (stays c owned dirty).symm
    · simpa [ByteFiles.move,same] using here
  · intro j
    have stream := coherent.streams j
    by_cases same : j = i
    · subst same
      refine ⟨?_,?_,?_,?_,?_⟩
      · simpa using stream.access
      · simpa using stream.append
      · simpa using stream.handle
      · simp [ByteFiles.move]
      · simpa using stream.size
    · rw [setStream_stream,Function.update_of_ne same]
      exact ⟨stream.access,stream.append,stream.handle,by simpa [ByteFiles.move,same] using stream.pos,stream.size⟩
  · intro j
    by_cases same : j = i
    · subst same
      simpa [ByteFiles.move] using inside
    · simpa [ByteFiles.move,same] using coherent.inside j

theorem move_self : t.move i (t.pos i) = t := by simp [ByteFiles.move]

end Moves

theorem left_eq {block offset start size pos : Nat} (whole : start + offset = pos) (inside : offset < block)
    (more : pos < size) (small : block < 2^64) :
    (min block (size - start) + 2^64 - offset) % 2^64 = min (block - offset) (size - pos) := by
  omega

omit [DecidableEq σ] [DecidableEq φ] in
/-- What one round of reading finds in a valid block. -/
theorem round_length (coherent : Coherent s t) (owner : (s.buffer_pool b).file = some i)
    (valid : (s.buffer_pool b).valid = true) (here : (s.buffer_pool b).pre_id = BUF_BLOCK_ID (t.pos i))
    (more : t.pos i < t.size (t.handle i)) :
    ((s.buffer_pool b).valid_size + 2^64 - BUF_BLOCK_OFFSET (t.pos i)) % 2^64 =
      min (BUF_BLOCK_SIZE - BUF_BLOCK_OFFSET (t.pos i)) (t.size (t.handle i) - t.pos i) := by
  obtain ⟨_,valid_size,_⟩ := (coherent.blocks b).cached i owner valid
  rw [valid_size,here]
  exact left_eq (id_offset (t.pos i)) (offset_lt (t.pos i)) more (by decide)

/-- A change of the block `b` of the stream `i` only. -/
structure Frame (s s' : State σ φ) (i : σ) (b : Fin BUF_BLOCK_NUM) : Prop where
  owner : (s'.buffer_pool b).file = some i
  others : ∀ c, c ≠ b → s'.buffer_pool c = s.buffer_pool c
  freed : s'.freed = s.freed

omit [DecidableEq σ] [DecidableEq φ] in
theorem Frame.trans {s' s'' : State σ φ} (first : Frame s s' i b) (second : Frame s' s'' i b) : Frame s s'' i b :=
  ⟨second.owner,fun c other => (second.others c other).trans (first.others c other),second.freed.trans first.freed⟩

omit [DecidableEq φ] in
theorem Apart.frame {s' : State σ φ} {id pos : Nat} (apart : Apart s t i b id) (frame : Frame s s' i b) :
    Apart s' (t.move i pos) i b id := by
  intro c j other
  rw [frame.others c other]
  exact apart c j other

/-- One round of reading. -/
theorem fread_round {n : Nat} (start_pos : Nat) (coherent : Coherent s t) (owner : (s.buffer_pool b).file = some i)
    (more : t.pos i < t.size (t.handle i)) (some_left : 0 < n) (apart : Apart s t i b (BUF_BLOCK_ID (t.pos i)))
    (stays : (s.buffer_pool b).dirty = true → BUF_BLOCK_ID (t.pos i + t.readable i n) = BUF_BLOCK_ID (t.pos i)) :
    ∃ s' len, 0 < len ∧ len ≤ t.readable i n ∧
      (∀ rounds buf, fread_loop i b start_pos (rounds + 1) s n buf = fread_loop i b start_pos rounds s' (n - len)
        (buf ++ (List.range len).map (fun k => t.content (t.handle i) (t.pos i + k)))) ∧
      Coherent s' (t.move i (t.pos i + len)) ∧ Frame s s' i b ∧
      (s'.buffer_pool b).dirty = (s.buffer_pool b).dirty := by
  have stream := coherent.streams i
  have small : t.pos i < 2^49 := Nat.lt_of_lt_of_le more (coherent.small _)
  obtain ⟨s',made,loaded⟩ := make_valid_spec coherent owner more apart
  have pos : (s'.stream i).pos = t.pos i := (loaded.coherent.streams i).pos
  have left : ((s'.buffer_pool b).valid_size + 2^64 - BUF_BLOCK_OFFSET (t.pos i)) % 2^64 =
      min (BUF_BLOCK_SIZE - BUF_BLOCK_OFFSET (t.pos i)) (t.size (t.handle i) - t.pos i) := by
    have round := round_length (b := b) loaded.coherent (by simpa using loaded.owner) (by simpa using loaded.valid)
      (by simpa using id_int_eq small) more
    simpa using round
  have offset := offset_lt (t.pos i)
  obtain ⟨len,length⟩ : ∃ len, len = min n (min (BUF_BLOCK_SIZE - BUF_BLOCK_OFFSET (t.pos i))
    (t.size (t.handle i) - t.pos i)) := ⟨_,rfl⟩
  have positive : 0 < len := by omega
  have bounded : len ≤ t.readable i n := by
    rw [ByteFiles.readable]
    omega
  have named : id_int (t.pos i) = BUF_BLOCK_ID (t.pos i) := id_int_eq small
  have bytes : (List.range len).map (fun k => (s'.buffer_pool b).base (BUF_BLOCK_OFFSET (t.pos i) + k)) =
      (List.range len).map (fun k => t.content (t.handle i) (t.pos i + k)) := by
    refine List.map_congr_left (fun k member => ?_)
    have inside : BUF_BLOCK_OFFSET (t.pos i) + k < BUF_BLOCK_SIZE := by
      have below := List.mem_range.mp member
      omega
    have cached := ((loaded.coherent.blocks b).cached i (by simpa using loaded.owner) (by simpa using loaded.valid)).2.2
    have byte := cached _ inside
    simp only [setBlock_pool,Function.update_self,named] at byte
    rw [byte,← Nat.add_assoc,id_offset]
  refine ⟨setStream (setBlock s' b { s'.buffer_pool b with pre_id := id_int (t.pos i) }) i
    { s'.stream i with pos := t.pos i + len },len,positive,bounded,?_,?_,?_,?_⟩
  · intro rounds buf
    have capped : (if min (BUF_BLOCK_SIZE - BUF_BLOCK_OFFSET (t.pos i)) (t.size (t.handle i) - t.pos i) > n then n
        else min (BUF_BLOCK_SIZE - BUF_BLOCK_OFFSET (t.pos i)) (t.size (t.handle i) - t.pos i)) = len := by
      rw [length]
      split <;> omega
    rw [fread_loop,stream.pos,stream.size,if_pos ⟨more,some_left⟩,made]
    simp only [pos,left,capped,bytes,setBlock_stream]
  · refine loaded.coherent.moved ?_ ?_
    · have readable := bounded
      rw [ByteFiles.readable] at readable
      omega
    · intro c owned dirty
      obtain rfl : b = c := loaded.coherent.one_block (by simpa using loaded.owner) owned
      simp only [setBlock_pool,Function.update_self] at dirty ⊢
      rw [named,id_between (stays (loaded.dirty ▸ dirty)) bounded]
  · refine ⟨by simpa using loaded.owner,fun c other => ?_,loaded.freed⟩
    simpa [other] using loaded.others c other
  · simpa using loaded.dirty

/-- The loop reads what is in front of the end of the file. -/
theorem fread_loop_spec (start_pos rounds : Nat) {n : Nat} (buf : List UInt8) (coherent : Coherent s t)
    (owner : (s.buffer_pool b).file = some i) (enough : n ≤ rounds)
    (apart : ∀ p, t.pos i ≤ p → p < t.pos i + t.readable i n → Apart s t i b (BUF_BLOCK_ID p))
    (stays : (s.buffer_pool b).dirty = true → BUF_BLOCK_ID (t.pos i + t.readable i n) = BUF_BLOCK_ID (t.pos i)) :
    ∃ s', fread_loop i b start_pos rounds s n buf = some (s',((t.pos i + t.readable i n : Nat) : Int) - start_pos,
        buf ++ (List.range (t.readable i n)).map (fun k => t.content (t.handle i) (t.pos i + k))) ∧
      Coherent s' (t.move i (t.pos i + t.readable i n)) ∧ Frame s s' i b := by
  have stream := coherent.streams i
  induction rounds generalizing s t n buf with
  | zero =>
    obtain rfl : n = 0 := Nat.le_zero.mp enough
    have nothing : t.readable i 0 = 0 := by simp [ByteFiles.readable]
    refine ⟨s,?_,?_,owner,fun _ _ => rfl,rfl⟩
    · rw [fread_loop,if_neg (by simp)]
      simp [nothing,stream.pos]
    · rw [nothing,Nat.add_zero,move_self]
      exact coherent
  | succ rounds ih =>
    by_cases reads : t.pos i < t.size (t.handle i) ∧ 0 < n
    · have first : Apart s t i b (BUF_BLOCK_ID (t.pos i)) := by
        refine apart _ (Nat.le_refl _) ?_
        rw [ByteFiles.readable]
        omega
      obtain ⟨s₁,len,positive,bounded,loop,coherent₁,frame,dirty⟩ :=
        fread_round start_pos coherent owner reads.1 reads.2 first stays
      have rest : (t.move i (t.pos i + len)).readable i (n - len) = t.readable i n - len := by
        simp only [ByteFiles.readable,move_size,move_handle,move_pos]
        omega
      have ending : t.pos i + len + (t.readable i n - len) = t.pos i + t.readable i n := by omega
      have apart₁ : ∀ p, (t.move i (t.pos i + len)).pos i ≤ p →
          p < (t.move i (t.pos i + len)).pos i + (t.move i (t.pos i + len)).readable i (n - len) →
          Apart s₁ (t.move i (t.pos i + len)) i b (BUF_BLOCK_ID p) := by
        intro p above below
        rw [rest,move_pos,ending] at below
        rw [move_pos] at above
        exact (apart p (by omega) below).frame frame
      have stays₁ : (s₁.buffer_pool b).dirty = true →
          BUF_BLOCK_ID ((t.move i (t.pos i + len)).pos i + (t.move i (t.pos i + len)).readable i (n - len)) =
            BUF_BLOCK_ID ((t.move i (t.pos i + len)).pos i) := by
        intro still
        rw [rest,move_pos,ending,stays (dirty ▸ still),id_between (stays (dirty ▸ still)) bounded]
      obtain ⟨s₂,looped,coherent₂,frame₂⟩ :=
        ih _ coherent₁ frame.owner (by omega) apart₁ stays₁ (coherent₁.streams i)
      rw [rest,move_pos,ending] at looped coherent₂
      refine ⟨s₂,?_,by simpa using coherent₂,frame.trans frame₂⟩
      have all_bytes : (List.range (t.readable i n)).map (fun k => t.content (t.handle i) (t.pos i + k)) =
          (List.range len).map (fun k => t.content (t.handle i) (t.pos i + k)) ++
          (List.range (t.readable i n - len)).map (fun k => t.content (t.handle i) (t.pos i + len + k)) := by
        have sum : t.readable i n = len + (t.readable i n - len) := by omega
        nth_rewrite 1 [sum]
        rw [List.range_add,List.map_append,List.map_map]
        simp [Function.comp_def,Nat.add_assoc]
      rw [loop,looped,all_bytes]
      simp
    · have nothing : t.readable i n = 0 := by
        rw [ByteFiles.readable]
        omega
      refine ⟨s,?_,?_,owner,fun _ _ => rfl,rfl⟩
      · rw [fread_loop,stream.pos,stream.size,if_neg reads]
        simp [nothing]
      · rw [nothing,Nat.add_zero,move_self]
        exact coherent

section Writes
omit [DecidableEq σ]

@[simp] theorem write_handle (buf : List UInt8) : (t.write i buf).handle = t.handle := rfl
@[simp] theorem write_size (buf : List UInt8) : (t.write i buf).size = t.size := rfl
@[simp] theorem write_pos (buf : List UInt8) : (t.write i buf).pos = t.pos := rfl

theorem write_content (buf : List UInt8) (f : φ) (p : Nat) : (t.write i buf).content f p =
    if f = t.handle i ∧ t.pos i ≤ p ∧ p < t.pos i + buf.length then buf.getD (p - t.pos i) 0 else t.content f p := by
  by_cases same : f = t.handle i
  · subst same
    simp [ByteFiles.write]
  · simp [ByteFiles.write,same]

end Writes

/-- No other valid block is the block `id` of the file of `i`. -/
def Alone (s : State σ φ) (t : ByteFiles σ φ) (i : σ) (b : Fin BUF_BLOCK_NUM) (id : Nat) : Prop :=
  ∀ c j, c ≠ b → (s.buffer_pool c).file = some j → t.handle j = t.handle i → (s.buffer_pool c).valid = true →
    (s.buffer_pool c).pre_id ≠ id

omit [DecidableEq σ] [DecidableEq φ] in
theorem Alone.apart {id : Nat} (alone : Alone s t i b id) (coherent : Coherent s t) : Apart s t i b id :=
  fun c j other owned of_file dirty =>
    alone c j other owned of_file ((coherent.blocks c).here j owned dirty).1

omit [DecidableEq σ] in
/-- Bytes that are written into the block in front of the stream. -/
theorem Coherent.written (coherent : Coherent s t) (buf : List UInt8) (owner : (s.buffer_pool b).file = some i)
    (valid : (s.buffer_pool b).valid = true) (here : (s.buffer_pool b).pre_id = BUF_BLOCK_ID (t.pos i))
    (alone : Alone s t i b (BUF_BLOCK_ID (t.pos i)))
    (stays : BUF_BLOCK_ID (t.pos i + buf.length) = BUF_BLOCK_ID (t.pos i)) :
    Coherent (setBlock s b { s.buffer_pool b with
      base := fun k => if BUF_BLOCK_OFFSET (t.pos i) ≤ k ∧ k < BUF_BLOCK_OFFSET (t.pos i) + buf.length
        then buf.getD (k - BUF_BLOCK_OFFSET (t.pos i)) 0 else (s.buffer_pool b).base k
      dirty := true }) (t.write i buf) := by
  obtain ⟨id_fits,valid_size,cached⟩ := (coherent.blocks b).cached i owner valid
  -- what is written is in that block
  have in_block : ∀ p, t.pos i ≤ p → p < t.pos i + buf.length → BUF_BLOCK_ID p = BUF_BLOCK_ID (t.pos i) := by
    intro p above below
    obtain ⟨k,rfl⟩ := Nat.exists_eq_add_of_le above
    exact id_between stays (by omega)
  refine ⟨?_,?_,?_,coherent.disk_size,coherent.inside,coherent.small,?_⟩
  · intro j c
    simpa [file_update] using coherent.own j c
  · simp only [setBlock_pool,Function.forall_update_iff]
    refine ⟨⟨?_,?_,?_⟩,fun c other => ?_⟩
    · intro nobody
      rw [show (s.buffer_pool b).file = none from nobody] at owner
      cases owner
    · intro j owned _
      obtain rfl : i = j := Option.some.inj (owner.symm.trans owned)
      refine ⟨id_fits,valid_size,fun k inside => ?_⟩
      have whole := id_offset (t.pos i)
      simp only [write_handle,write_content,true_and,here,cached k inside]
      have aligned : BUF_BLOCK_ID (t.pos i) * BUF_BLOCK_SIZE + k - t.pos i = k - BUF_BLOCK_OFFSET (t.pos i) := by omega
      have same_range : t.pos i ≤ BUF_BLOCK_ID (t.pos i) * BUF_BLOCK_SIZE + k ∧
          BUF_BLOCK_ID (t.pos i) * BUF_BLOCK_SIZE + k < t.pos i + buf.length ↔
          BUF_BLOCK_OFFSET (t.pos i) ≤ k ∧ k < BUF_BLOCK_OFFSET (t.pos i) + buf.length := by omega
      simp only [aligned,same_range]
    · intro j owned _
      obtain rfl : i = j := Option.some.inj (owner.symm.trans owned)
      exact ⟨valid,here⟩
    · have sound := coherent.blocks c
      refine ⟨sound.free,fun j owned is_valid => ?_,sound.here⟩
      obtain ⟨fits,size,held⟩ := sound.cached j owned is_valid
      refine ⟨fits,size,fun k inside => ?_⟩
      rw [held k inside,write_handle,write_content,if_neg]
      rintro ⟨of_file,above,below⟩
      have same_id := in_block _ above below
      rw [id_of_offset inside] at same_id
      exact alone c j other owned of_file is_valid same_id
  · intro j
    have stream := coherent.streams j
    exact ⟨stream.access,stream.append,stream.handle,stream.pos,stream.size⟩
  · intro f p written
    rw [write_content,if_neg]
    · refine coherent.stored f p (fun ⟨c,j,owned,of_file,dirty,id⟩ => written ⟨c,j,?_,of_file,?_,?_⟩)
      · simpa [file_update] using owned
      · by_cases same : c = b
        · simp [same]
        · simpa [same] using dirty
      · by_cases same : c = b
        · subst same
          simpa using id
        · simpa [same] using id
    · rintro ⟨of_file,above,below⟩
      refine written ⟨b,i,by simpa using owner,of_file.symm,by simp,?_⟩
      rw [in_block p above below]
      simpa using here

theorem fwrite_loop_nil (start_pos rounds : Nat) :
    fwrite_loop i b start_pos rounds s [] = some (s,((s.stream i).pos : Int) - start_pos) := by
  cases rounds <;> simp [fwrite_loop]

/-- The loop writes into one block, in one round. -/
theorem fwrite_loop_spec {buf : List UInt8} (start_pos : Nat) (coherent : Coherent s t)
    (owner : (s.buffer_pool b).file = some i) (fits : t.pos i + buf.length ≤ t.size (t.handle i))
    (alone : buf ≠ [] → Alone s t i b (BUF_BLOCK_ID (t.pos i)))
    (stays : BUF_BLOCK_ID (t.pos i + buf.length) = BUF_BLOCK_ID (t.pos i)) :
    ∃ s', fwrite_loop i b start_pos buf.length s buf =
        some (s',((t.pos i + buf.length : Nat) : Int) - start_pos) ∧
      Coherent s' ((t.write i buf).move i (t.pos i + buf.length)) ∧ Frame s s' i b := by
  cases buf with
  | nil =>
    have same : t.write i [] = t := by
      have content : (t.write i []).content = t.content := by
        funext f p
        rw [write_content,if_neg (by simp)]
      calc t.write i [] = { t with content := (t.write i []).content } := rfl
        _ = t := by rw [content]
    refine ⟨s,?_,?_,owner,fun _ _ => rfl,rfl⟩
    · simp [fwrite_loop,(coherent.streams i).pos]
    · rw [same,List.length_nil,Nat.add_zero,move_self]
      exact coherent
  | cons byte bytes =>
    generalize whole_buf : byte :: bytes = buf at fits alone stays ⊢
    have some_bytes : buf ≠ [] := by simp [← whole_buf]
    have count : buf.length = bytes.length + 1 := by rw [← whole_buf,List.length_cons]
    have alone := alone some_bytes
    have more : t.pos i < t.size (t.handle i) := by omega
    have small : t.pos i < 2^49 := Nat.lt_of_lt_of_le more (coherent.small _)
    obtain ⟨s',made,loaded⟩ := make_valid_spec coherent owner more (alone.apart coherent)
    have pos : (s'.stream i).pos = t.pos i := (loaded.coherent.streams i).pos
    have room : BUF_BLOCK_OFFSET (t.pos i) + buf.length < BUF_BLOCK_SIZE := offset_fits stays
    have alone' : Alone (setBlock s' b { s'.buffer_pool b with pre_id := id_int (t.pos i) }) t i b
        (BUF_BLOCK_ID (t.pos i)) := by
      intro c j other
      simpa [other,loaded.others c other] using alone c j other
    have written := loaded.coherent.written buf (by simpa using loaded.owner) (by simpa using loaded.valid)
      (by simpa using id_int_eq small) alone' stays
    have moved := written.moved fits (by
      intro c owned _
      obtain rfl : b = c := written.one_block (by simpa using loaded.owner) owned
      simpa [stays] using (id_int_eq small).symm)
    refine ⟨_,?_,moved,by simpa using loaded.owner,fun c other => ?_,loaded.freed⟩
    · have capped : (if BUF_BLOCK_SIZE - BUF_BLOCK_OFFSET (t.pos i) > buf.length then buf.length
          else BUF_BLOCK_SIZE - BUF_BLOCK_OFFSET (t.pos i)) = buf.length := if_pos (by omega)
      rw [count,fwrite_loop,if_pos some_bytes]
      simp only [made,pos,capped,List.drop_length]
      rw [fwrite_loop_nil]
      simp [setBlock,setStream,count]
    · simpa [other] using loaded.others c other

/-! ### The operations -/

/-- Only open streams have blocks. -/
def Held (s : State σ φ) : Prop := ∀ b j, (s.buffer_pool b).file = some j → s.freed j = false

omit [DecidableEq σ] [DecidableEq φ] in
/-- A change of the block `b` of an open stream `i`. -/
theorem Held.frame {s' : State σ φ} (held : Held s) (frame : Frame s s' i b) (is_open : s.freed i = false) : Held s' := by
  intro c j owned
  rw [frame.freed]
  by_cases same : c = b
  · subst same
    rw [frame.owner] at owned
    rwa [← Option.some.inj owned]
  · rw [frame.others c same] at owned
    exact held c j owned

/-- The stream has a block, and a dirty one only if it had it before. -/
theorem with_block_spec (coherent : Coherent s t) (idle : Idle s) : ∃ s' b, with_block s i = some (s',b) ∧
    Coherent s' t ∧ Frame s s' i b ∧
    ((s'.buffer_pool b).dirty = true → (s.stream i).block = some b ∧ (s.buffer_pool b).dirty = true) := by
  rw [with_block]
  cases block : (s.stream i).block with
  | some b =>
    have owner := (coherent.own i b).mp block
    exact ⟨s,b,rfl,coherent,⟨owner,fun _ _ => rfl,rfl⟩,fun dirty => ⟨rfl,dirty⟩⟩
  | none =>
    obtain ⟨s',b,got,coherent',owner,clean,others,freed⟩ := get_buffer_block_spec coherent idle block
    exact ⟨s',b,got,coherent',⟨owner,others,freed⟩,fun dirty => by rw [clean] at dirty; cases dirty⟩

section Put
omit [DecidableEq σ] [DecidableEq φ]

theorem put_coherent (coherent : Coherent s t) : Coherent (put_buffer_block s b) t := by
  have sound := coherent.blocks b
  have same : Sound t { s.buffer_pool b with busy := false } := ⟨sound.free,sound.cached,sound.here⟩
  exact coherent.replace rfl rfl rfl rfl same (fun dirty => ⟨dirty,rfl⟩)

/-- After the block is put back no block is in use. -/
theorem put_idle {s' : State σ φ} (idle : Idle s) (frame : Frame s s' i b) : Idle (put_buffer_block s' b) := by
  intro c
  by_cases same : c = b
  · simp [put_buffer_block,same]
  · simpa [put_buffer_block,same,frame.others c same] using idle c

theorem put_frame {s' : State σ φ} (frame : Frame s s' i b) : Frame s (put_buffer_block s' b) i b := by
  refine ⟨by simpa [put_buffer_block] using frame.owner,fun c other => ?_,frame.freed⟩
  simpa [put_buffer_block,other] using frame.others c other

end Put

/-- What an operation must not do. Reading does not go on from a dirty block, and does not meet a
    block that another stream of the file has dirty; writing does not go over the end of the file,
    ends in the block that it begins in, and not in one that another stream of the file has; and a
    seek stays in the file. -/
def Tame (s : State σ φ) : Op σ → Prop
  | .fread i n => s.freed i = false ∧
    (∀ b, (s.stream i).block = some b → (s.buffer_pool b).dirty = true →
      BUF_BLOCK_ID ((s.stream i).pos + min n ((s.stream i).size - (s.stream i).pos)) = BUF_BLOCK_ID (s.stream i).pos) ∧
    ∀ b j, (s.buffer_pool b).file = some j → j ≠ i → (s.stream j).handle = (s.stream i).handle →
      (s.buffer_pool b).dirty = true → ∀ p, (s.stream i).pos ≤ p →
        p < (s.stream i).pos + min n ((s.stream i).size - (s.stream i).pos) → (s.buffer_pool b).pre_id ≠ BUF_BLOCK_ID p
  | .fwrite i buf => s.freed i = false ∧ (s.stream i).pos + buf.length ≤ (s.stream i).size ∧
    BUF_BLOCK_ID ((s.stream i).pos + buf.length) = BUF_BLOCK_ID (s.stream i).pos ∧
    (buf ≠ [] → ∀ b j, (s.buffer_pool b).file = some j → j ≠ i → (s.stream j).handle = (s.stream i).handle →
      (s.buffer_pool b).valid = true → (s.buffer_pool b).pre_id ≠ BUF_BLOCK_ID (s.stream i).pos)
  | .fseek i offset whence => s.freed i = false ∧
    ∃ pos : Nat, target (s.stream i).pos (s.stream i).size offset whence = some (pos : Int) ∧ pos ≤ (s.stream i).size
  | .fclose i => s.freed i = false

/-- What an operation keeps. -/
structure Serves (s : State σ φ) (t : ByteFiles σ φ) : Prop where
  coherent : Coherent s t
  idle : Idle s
  held : Held s

omit [DecidableEq σ] [DecidableEq φ] in
/-- Only the blocks of other streams are to be kept away from. -/
theorem other_stream {s' : State σ φ} {c : Fin BUF_BLOCK_NUM} {j : σ} (coherent : Coherent s' t) (frame : Frame s s' i b)
    (other : c ≠ b) (owned : (s'.buffer_pool c).file = some j) : (s.buffer_pool c).file = some j ∧ j ≠ i := by
  refine ⟨by rwa [← frame.others c other],?_⟩
  rintro rfl
  exact other (coherent.one_block owned frame.owner)

theorem fread_spec {n : Nat} (serves : Serves s t) (tame : Tame s (.fread i n)) :
    ∃ s', step s (.fread i n) = some (s',(t.step (.fread i n)).2) ∧ Serves s' (t.step (.fread i n)).1 := by
  obtain ⟨coherent,idle,held⟩ := serves
  obtain ⟨is_open,stays,apart⟩ := tame
  have stream := coherent.streams i
  rw [stream.pos,stream.size] at stays apart
  by_cases empty : t.size (t.handle i) = 0
  · have nothing : t.readable i n = 0 := by simp [ByteFiles.readable,empty]
    have same : (t.step (.fread i n)).1 = t := by
      rw [ByteFiles.step,nothing,Nat.add_zero,move_self]
    refine ⟨s,?_,by rw [same]; exact ⟨coherent,idle,held⟩⟩
    simp [step,stdio_fread,stream.access,stream.size,empty,ByteFiles.step,nothing]
  · obtain ⟨s₁,b,got,coherent₁,frame₁,dirty⟩ := with_block_spec (i := i) coherent idle
    have apart₁ : ∀ p, t.pos i ≤ p → p < t.pos i + t.readable i n → Apart s₁ t i b (BUF_BLOCK_ID p) := by
      intro p above below c j other owned of_file is_dirty
      obtain ⟨owned',other_owner⟩ := other_stream coherent₁ frame₁ other owned
      rw [frame₁.others c other] at is_dirty ⊢
      exact apart c j owned' other_owner (by rwa [(coherent.streams j).handle,stream.handle]) is_dirty p above below
    obtain ⟨s₂,looped,coherent₂,frame₂⟩ :=
      fread_loop_spec (t.pos i) n [] coherent₁ frame₁.owner (Nat.le_refl n) apart₁
      (fun is_dirty => stays b (dirty is_dirty).1 (dirty is_dirty).2)
    have frame := frame₁.trans frame₂
    refine ⟨put_buffer_block s₂ b,?_,put_coherent coherent₂,put_idle idle frame,held.frame (put_frame frame) is_open⟩
    simp [step,stdio_fread,stream.access,stream.size,empty,got,(coherent₁.streams i).pos,looped,ByteFiles.step]

theorem fwrite_spec {buf : List UInt8} (serves : Serves s t) (tame : Tame s (.fwrite i buf)) :
    ∃ s', step s (.fwrite i buf) = some (s',(t.step (.fwrite i buf)).2) ∧ Serves s' (t.step (.fwrite i buf)).1 := by
  obtain ⟨coherent,idle,held⟩ := serves
  obtain ⟨is_open,fits,stays,alone⟩ := tame
  have stream := coherent.streams i
  rw [stream.pos] at fits stays alone
  rw [stream.size] at fits
  obtain ⟨s₁,b,got,coherent₁,frame₁,_⟩ := with_block_spec (i := i) coherent idle
  have alone₁ : buf ≠ [] → Alone s₁ t i b (BUF_BLOCK_ID (t.pos i)) := by
    intro some_bytes c j other owned of_file is_valid
    obtain ⟨owned',other_owner⟩ := other_stream coherent₁ frame₁ other owned
    rw [frame₁.others c other] at is_valid ⊢
    exact alone some_bytes c j owned' other_owner (by rwa [(coherent.streams j).handle,stream.handle]) is_valid
  obtain ⟨s₂,looped,coherent₂,frame₂⟩ := fwrite_loop_spec (t.pos i) coherent₁ frame₁.owner fits alone₁ stays
  have frame := frame₁.trans frame₂
  refine ⟨put_buffer_block s₂ b,?_,put_coherent coherent₂,put_idle idle frame,held.frame (put_frame frame) is_open⟩
  have stream₁ := coherent₁.streams i
  simp [step,stdio_fwrite,stream.access,got,stream₁.append,stream₁.pos,looped,ByteFiles.step]

omit [DecidableEq σ] in
/-- After its block is written a stream has no dirty one. -/
theorem update_own_spec (coherent : Coherent s t) : ∃ s', update_own_block s i = s' ∧ Coherent s' t ∧
    s'.freed = s.freed ∧
    (∀ b, (s'.buffer_pool b).busy = (s.buffer_pool b).busy ∧ (s'.buffer_pool b).file = (s.buffer_pool b).file) ∧
    ∀ b, (s'.buffer_pool b).file = some i → (s'.buffer_pool b).dirty = false := by
  rw [update_own_block]
  cases block : (s.stream i).block with
  | some b =>
    have owner := (coherent.own i b).mp block
    have coherent' := update_dirty_coherent coherent owner
    refine ⟨_,rfl,coherent',update_dirty_freed,fun c => ?_,fun c owned => ?_⟩
    · rw [update_dirty_pool]
      by_cases same : c = b
      · subst same
        simp
      · simp [same]
    · obtain rfl : b = c := by
        refine coherent'.one_block ?_ owned
        rw [update_dirty_pool]
        simpa using owner
      rw [update_dirty_pool]
      simp
  | none =>
    refine ⟨s,rfl,coherent,rfl,fun _ => ⟨rfl,rfl⟩,fun b owned => ?_⟩
    rw [← coherent.own,block] at owned
    cases owned

theorem to_uoffset_nat {pos : Nat} (small : pos ≤ 2^49) : to_uoffset (pos : Int) = pos := by
  rw [to_uoffset]
  omega

/-- The position that a seek in the file computes. -/
theorem tmp_pos_eq {here size pos : Nat} {offset : Int} {whence : Whence} (small : pos ≤ 2^49)
    (leads : target here size offset whence = some (pos : Int)) : tmp_pos here size offset whence = pos := by
  have kept := to_uoffset_nat small
  cases whence with
  | other => cases leads
  | _ =>
    rw [tmp_pos,Option.some.inj leads]
    exact kept

theorem fseek_spec {offset : Int} {whence : Whence} (serves : Serves s t) (tame : Tame s (.fseek i offset whence)) :
    ∃ s', step s (.fseek i offset whence) = some (s',(t.step (.fseek i offset whence)).2) ∧
      Serves s' (t.step (.fseek i offset whence)).1 := by
  obtain ⟨coherent,idle,held⟩ := serves
  obtain ⟨_,pos,leads,inside⟩ := tame
  have stream := coherent.streams i
  rw [stream.pos,stream.size] at leads
  rw [stream.size] at inside
  obtain ⟨s',flush,coherent',freed,same,clean⟩ := update_own_spec (i := i) coherent
  have moved : Coherent (setStream s' i { s'.stream i with pos := pos }) (t.move i pos) := by
    refine coherent'.moved inside (fun b owned dirty => ?_)
    rw [clean b owned] at dirty
    cases dirty
  have reached := tmp_pos_eq (Nat.le_trans inside (coherent.small _)) leads
  refine ⟨setStream s' i { s'.stream i with pos := pos },?_,?_,?_,?_⟩
  · have stream' := coherent'.streams i
    simp only [step,stdio_fseek,flush,stream'.pos,stream'.size,reached,ByteFiles.step]
  · simpa [ByteFiles.step,leads] using moved
  · exact fun b => (same b).1.trans (idle b)
  · intro b j owned
    rw [setStream_freed,freed]
    exact held b j ((same b).2 ▸ owned)

theorem fclose_spec (serves : Serves s t) : ∃ s', step s (.fclose i) = some (s',(t.step (.fclose i)).2) ∧
    Serves s' (t.step (.fclose i)).1 := by
  obtain ⟨coherent,idle,held⟩ := serves
  cases block : (s.stream i).block with
  | none =>
    refine ⟨filp_delete s i,by simp [step,stdio_fclose,block,ByteFiles.step],?_,idle,?_⟩
    · exact ⟨coherent.own,coherent.blocks,coherent.streams,coherent.disk_size,coherent.inside,coherent.small,
        coherent.stored⟩
    · intro b j owned
      have other : j ≠ i := by
        rintro rfl
        rw [(coherent.own j b).mpr owned] at block
        cases block
      simpa [filp_delete,other] using held b j owned
  | some b =>
    have owner := (coherent.own i b).mp block
    have swapped := swap_out_coherent coherent owner
    generalize after : release (update_dirty_buffer_block s i b) i b = s' at swapped
    have pool : s'.buffer_pool = Function.update s.buffer_pool b { s.buffer_pool b with
        file := none, access_count := 0, valid := false, dirty := false, busy := false, valid_size := 0, pre_id := 0 } := by
      rw [← after,release,setBlock_pool,setStream_pool,update_dirty_pool]
      simp
    have released : setStream s' i { s'.stream i with block := none } = s' := by
      have without : (s'.stream i).block = none := by simp [← after,release]
      have same : { s'.stream i with block := none } = s'.stream i := by rw [← without]
      rw [same,setStream,Function.update_eq_self]
    refine ⟨filp_delete s' i,?_,?_,?_,?_⟩
    · simp [step,stdio_fclose,block,swap_out_eq coherent owner,after,released,ByteFiles.step]
    · exact ⟨swapped.own,swapped.blocks,swapped.streams,swapped.disk_size,swapped.inside,swapped.small,swapped.stored⟩
    · intro c
      by_cases same : c = b
      · simp [filp_delete,pool,same]
      · simpa [filp_delete,pool,same] using idle c
    · intro c j owned
      have of_rest : c ≠ b := by
        rintro rfl
        simp [filp_delete,pool] at owned
      have owned' : (s.buffer_pool c).file = some j := by simpa [filp_delete,pool,of_rest] using owned
      have other : j ≠ i := by
        rintro rfl
        exact of_rest (coherent.one_block owned' owner)
      have freed : s'.freed = s.freed := by simp [← after,release,update_dirty_freed]
      simpa [filp_delete,other,freed] using held c j owned'

theorem step_spec {op : Op σ} (serves : Serves s t) (tame : Tame s op) :
    ∃ s', step s op = some (s',(t.step op).2) ∧ Serves s' (t.step op).1 := by
  cases op with
  | fread i n => exact fread_spec serves tame
  | fwrite i buf => exact fwrite_spec serves tame
  | fseek i offset whence => exact fseek_spec serves tame
  | fclose i => exact fclose_spec serves

/-- Every operation of the run is tame where it is done. -/
def TameRun : State σ φ → List (Op σ) → Prop
  | _, [] => True
  | s, op :: ops => Tame s op ∧ ∀ s' answer, step s op = some (s',answer) → TameRun s' ops

theorem run_spec {ops : List (Op σ)} (serves : Serves s t) (tame : TameRun s ops) :
    ∃ s', run s ops = some (s',(t.run ops).2) ∧ Serves s' (t.run ops).1 := by
  induction ops generalizing s t with
  | nil => exact ⟨s,rfl,serves⟩
  | cons op ops ih =>
    obtain ⟨s₁,stepped,serves₁⟩ := step_spec serves tame.1
    obtain ⟨s₂,ran,serves₂⟩ := ih serves₁ (tame.2 s₁ _ stepped)
    exact ⟨s₂,by simp [run,stepped,ran,ByteFiles.run],serves₂⟩

/-- A run that begins with an operation that ends. -/
theorem tame_cons {op : Op σ} {ops : List (Op σ)} (ends : (step s op).isSome = true) (first : Tame s op)
    (rest : TameRun ((step s op).get ends).1 ops) : TameRun s (op :: ops) := by
  refine ⟨first,fun s' answer stepped => ?_⟩
  have result : (step s op).get ends = (s',answer) := by simp [stepped]
  rwa [result] at rest

omit [DecidableEq σ] [DecidableEq φ] in
theorem opened_serves {handle : σ → φ} {disk : φ → disk_file} (base : Fin BUF_BLOCK_NUM → Nat → UInt8)
    (small : ∀ f, (disk f).size ≤ 2^49) : Serves (opened handle disk base) (ByteFiles.opened handle disk) := by
  refine ⟨⟨?_,?_,?_,fun _ => rfl,fun _ => Nat.zero_le _,small,fun _ _ _ => rfl⟩,fun _ => rfl,?_⟩
  · intro i b
    simp [opened]
  · intro b
    refine ⟨fun _ => ⟨rfl,rfl⟩,?_,?_⟩
    · intro i owned
      cases owned
    · intro i owned
      cases owned
  · exact fun i => ⟨rfl,rfl,rfl,rfl,rfl⟩
  · intro b j owned
    cases owned

theorem run_handle (ops : List (Op σ)) : (t.run ops).1.handle = t.handle ∧ (t.run ops).1.size = t.size := by
  induction ops generalizing t with
  | nil => exact ⟨rfl,rfl⟩
  | cons op ops ih =>
    obtain ⟨handle,size⟩ := ih (t := (t.step op).1)
    rw [ByteFiles.run]
    constructor
    · refine handle.trans ?_
      cases op <;> rfl
    · refine size.trans ?_
      cases op <;> rfl

end Steps

section Runs
variable {σ φ : Type} [DecidableEq σ] [DecidableEq φ]

/-- A run of tame operations ends, and answers what the byte files answer. The files keep their
    sizes; a file whose streams are closed has exactly the bytes of the byte file, and so has every
    other one except in the blocks that its streams have not written yet. -/
theorem tame_run_refines (handle : σ → φ) (disk : φ → disk_file) (base : Fin BUF_BLOCK_NUM → Nat → UInt8)
    (small : ∀ f, (disk f).size ≤ 2^49) (ops : List (Op σ)) (tame : TameRun (opened handle disk base) ops) :
    ∃ s, run (opened handle disk base) ops = some (s,((ByteFiles.opened handle disk).run ops).2) ∧
      (∀ f, (s.disk f).size = (disk f).size) ∧
      (∀ f, (∀ i, handle i = f → s.freed i = true) →
        (s.disk f).data = ((ByteFiles.opened handle disk).run ops).1.content f) ∧
      ∀ f p, ¬Unwritten s handle f (BUF_BLOCK_ID p) →
        (s.disk f).data p = ((ByteFiles.opened handle disk).run ops).1.content f p := by
  obtain ⟨s,ran,serves⟩ := run_spec (opened_serves base small) tame
  obtain ⟨same_handle,same_size⟩ := run_handle (t := ByteFiles.opened handle disk) ops
  have stored := serves.coherent.stored
  have sizes := serves.coherent.disk_size
  rw [same_handle] at stored
  rw [same_size] at sizes
  refine ⟨s,ran,sizes,fun f closed => ?_,stored⟩
  funext p
  refine stored f p (fun ⟨b,i,owned,of_file,_⟩ => ?_)
  have is_open := serves.held b i owned
  rw [closed i of_file] at is_open
  cases is_open

end Runs

/-- One stream of a file of two blocks with equal bytes. -/
def sevens : Unit → disk_file := fun _ => ⟨2 * BUF_BLOCK_SIZE,fun _ => 7⟩

theorem tame_run_refines_one : ∃ s, run (opened (fun _ : Unit => ()) sevens (fun _ _ => 0))
      [.fwrite () [1,2],.fseek () 0 .SEEK_SET,.fread () 2,.fclose ()] =
        some (s,[⟨2,[]⟩,⟨0,[]⟩,⟨2,[1,2]⟩,⟨0,[]⟩]) ∧ (s.disk ()).data 1 = 2 := by
  have tame : TameRun (opened (fun _ : Unit => ()) sevens (fun _ _ => 0))
      [.fwrite () [1,2],.fseek () 0 .SEEK_SET,.fread () 2,.fclose ()] := by
    refine tame_cons (by decide +kernel) ⟨rfl,by decide +kernel,by decide +kernel,?_⟩ ?_
    · exact fun _ _ _ _ other => absurd rfl other
    refine tame_cons (by decide +kernel) ⟨by decide +kernel,0,rfl,Nat.zero_le _⟩ ?_
    refine tame_cons (by decide +kernel) ⟨by decide +kernel,?_,?_⟩ ?_
    · intro _ _ _
      decide +kernel
    · exact fun _ _ _ other => absurd rfl other
    refine tame_cons (by decide +kernel) ?_ trivial
    show _ = _
    decide +kernel
  obtain ⟨s,ran,_,closed,_⟩ := tame_run_refines (fun _ : Unit => ()) sevens (fun _ _ => 0) (by decide +kernel) _ tame
  refine ⟨s,?_,?_⟩
  · rw [ran]
    rfl
  · have freed : (run (opened (fun _ : Unit => ()) sevens (fun _ _ => 0))
        [.fwrite () [1,2],.fseek () 0 .SEEK_SET,.fread () 2,.fclose ()]).map (fun r => r.1.freed ()) = some true := by
      decide +kernel
    rw [ran] at freed
    rw [closed () (fun _ _ => Option.some.inj freed)]
    rfl

/-- Two bytes that are written at the end of a block are not read back, and one of them is lost: the
    block goes to where the position is when it is left. -/
theorem left_block_misplaced : ((run (opened (fun _ : Unit => ()) sevens (fun _ _ => 0))
      [.fseek () (BUF_BLOCK_SIZE - 1) .SEEK_SET,.fwrite () [1],.fwrite () [2],
        .fseek () (BUF_BLOCK_SIZE - 1) .SEEK_SET,.fread () 2,.fclose ()]).map
      (fun r => (r.2.map Answer.buf,(r.1.disk ()).data (BUF_BLOCK_SIZE - 1)))) =
      some ([[],[],[],[],[7,2],[]],7) ∧
    (((ByteFiles.opened (fun _ : Unit => ()) sevens).run
      [.fseek () (BUF_BLOCK_SIZE - 1) .SEEK_SET,.fwrite () [1],.fwrite () [2],
        .fseek () (BUF_BLOCK_SIZE - 1) .SEEK_SET,.fread () 2,.fclose ()]).2.map Answer.buf) =
      [[],[],[],[],[1,2],[]] := by
  decide +kernel

end GridOS.StreamFile
