import GridOS.Tree

/-!
Reading a directory, `req_readdir` of `source/subsystem/fs/main.c` and `source/libs/grid/dirent`, on
a directory whose entries are all in memory. A name is the list of its bytes in front of the
terminating zero, and an address inside of `dir_buffer` is its distance from the start.
-/
namespace GridOS.Dirent
open GridOS.Tree (fss_file_type)

structure fss_file where
  name : List UInt8
  type : fss_file_type
  ends : ∀ b ∈ name, b ≠ 0

def NAME_MAX : Nat := 256
def POSIX_END_CHAR_SIZE : Nat := 1
def DIR_BUFF_LEN : Nat := 4 * 1024

/-- `sizeof(struct dirent_buffer)`: two shorts, and the name behind them. -/
def sizeof_dirent_buffer : Nat := 4

inductive Errno
  | EINVAL
  deriving DecidableEq

/-! ### The kernel side -/

def put_short (n : Nat) : List UInt8 := [UInt8.ofNat n,UInt8.ofNat (n / 256)]

def entry_type : fss_file_type → Nat
  | .FSS_FILE_TYPE_NORMAL => 0
  | .FSS_FILE_TYPE_DIR => 1

/-- The variables of the loop over the children, and the buffer of the request. -/
structure Packing where
  rd_count : Nat
  cpy_count : Nat
  cpy_len : Nat
  buffer : List UInt8

/-- The loop over the children. -/
def pack (max_size start_entry : Nat) (s : Packing) : List fss_file → Packing
  | [] => s
  | child_file :: rest =>
    if s.rd_count < start_entry then
      pack max_size start_entry { s with rd_count := s.rd_count + 1 } rest
    else if s.cpy_len + sizeof_dirent_buffer > max_size then s
    else
      let room := max_size - s.cpy_len - sizeof_dirent_buffer
      let name_len := if child_file.name.length > room then room else child_file.name.length
      let entry := put_short name_len ++ put_short (entry_type child_file.type) ++ child_file.name.take name_len
      pack max_size start_entry { s with
        buffer := s.buffer.take s.cpy_len ++ entry
        -- the length is read back from the short
        cpy_len := s.cpy_len + sizeof_dirent_buffer + name_len % 65536
        cpy_count := s.cpy_count + 1 } rest

/-- The bytes in the buffer, how many of them are used, and `next_entry`. -/
def req_readdir (children : List fss_file) (max_size start_entry : Nat) : Except Errno (List UInt8 × Nat × Nat) :=
  if max_size = 0 then .error .EINVAL else
  let s := pack max_size start_entry ⟨0,0,0,[]⟩ children
  .ok (s.buffer,s.cpy_len,start_entry + s.rd_count + s.cpy_count)

/-! ### The side of the user -/

/-- `struct __dirstream`; its handle is that of the directory with the given children. -/
structure DIR where
  dir_buffer : List UInt8
  current_entry : Option Nat
  total_size : Nat
  used_size : Nat
  next_bulk : Nat

/-- `opendir` with a buffer of any size. -/
def opendir_with (total_size : Nat) : DIR := ⟨[],none,total_size,0,0⟩

def opendir : DIR := opendir_with DIR_BUFF_LEN

def sys_readdir (children : List fss_file) (dirp : DIR) : Except Errno (List UInt8 × Nat × Nat) :=
  req_readdir children dirp.total_size dirp.next_bulk

def get_short (buffer : List UInt8) (i : Nat) : Nat := (buffer.getD i 0).toNat + 256 * (buffer.getD (i + 1) 0).toNat

/-- The string in `d_name`. -/
def fill_dirent (buffer : List UInt8) (entry : Nat) : List UInt8 :=
  let stored := get_short buffer entry
  let name_length := if stored ≥ NAME_MAX then NAME_MAX - POSIX_END_CHAR_SIZE else stored
  ((buffer.drop (entry + sizeof_dirent_buffer)).take name_length).takeWhile (fun b => b ≠ 0)

def fill_32bits_dirent : List UInt8 → Nat → List UInt8 := fill_dirent
def fill_64bits_dirent : List UInt8 → Nat → List UInt8 := fill_dirent

/-- Fills the buffer when there is no current entry, unless nothing is left to read. -/
def refill (children : List fss_file) (dirp : DIR) : Option (DIR × Nat) :=
  match dirp.current_entry with
  | some entry => some (dirp,entry)
  | none =>
    match sys_readdir children dirp with
    | .error _ => none
    | .ok (buffer,bulk,next) =>
      if bulk = 0 then none
      else some ({ dirp with dir_buffer := buffer, current_entry := some 0, used_size := bulk, next_bulk := next },0)

def read_dir (children : List fss_file) (dirp : DIR) (bits : Nat) : DIR × Option (List UInt8) :=
  match refill children dirp with
  | none => (dirp,none)
  | some (dirp,entry) =>
    if bits = 32 ∨ bits = 64 then
      let d_name := if bits = 32 then fill_32bits_dirent dirp.dir_buffer entry
        else fill_64bits_dirent dirp.dir_buffer entry
      let next := entry + sizeof_dirent_buffer + get_short dirp.dir_buffer entry
      ({ dirp with current_entry := if next ≥ dirp.used_size then none else some next },some d_name)
    else (dirp,none)

def readdir (children : List fss_file) (dirp : DIR) : DIR × Option (List UInt8) := read_dir children dirp 32
def readdir64 (children : List fss_file) (dirp : DIR) : DIR × Option (List UInt8) := read_dir children dirp 64

/-- The names that `readdir` yields until it returns no more. -/
inductive Yields (children : List fss_file) : DIR → List (List UInt8) → Prop
  | done {dirp dirp' : DIR} : readdir children dirp = (dirp',none) → Yields children dirp []
  | more {dirp dirp' : DIR} {name : List UInt8} {names : List (List UInt8)} :
      readdir children dirp = (dirp',some name) → Yields children dirp' names → Yields children dirp (name :: names)

/-! ### What fits one buffer -/

/-- The bytes that entries take. -/
def packed (files : List fss_file) : Nat := (files.map (fun f => sizeof_dirent_buffer + f.name.length)).sum

/-- The entries fill at most two buffers, the first without room for one more header behind it. -/
def TwoBulks (total_size : Nat) (children : List fss_file) : Prop :=
  ∃ first second, children = first ++ second ∧ packed first ≤ total_size ∧ packed second ≤ total_size ∧
    (second = [] ∨ total_size < packed first + sizeof_dirent_buffer)

/-- The entries that go into `room` bytes, the name of the last cut off where the room ends. -/
def bulk : Nat → List fss_file → List (List UInt8 × fss_file_type)
  | _, [] => []
  | room, f :: files =>
    if room < sizeof_dirent_buffer then [] else
    let name := f.name.take (room - sizeof_dirent_buffer)
    (name,f.type) :: bulk (room - sizeof_dirent_buffer - name.length) files

def encode (entry : List UInt8 × fss_file_type) : List UInt8 :=
  put_short entry.1.length ++ put_short (entry_type entry.2) ++ entry.1

theorem encode_length (entry : List UInt8 × fss_file_type) :
    (encode entry).length = sizeof_dirent_buffer + entry.1.length := by
  simp [encode,put_short,sizeof_dirent_buffer]
  omega

section Packing
variable {max_size start_entry : Nat}

/-- The children in front of `start_entry` are only counted. -/
theorem pack_skip (children : List fss_file) (s : Packing) (behind : s.rd_count ≤ start_entry) :
    pack max_size start_entry s children =
      pack max_size start_entry { s with rd_count := s.rd_count + min (start_entry - s.rd_count) children.length }
        (children.drop (start_entry - s.rd_count)) := by
  induction children generalizing s with
  | nil => simp [pack]
  | cons f files ih =>
    by_cases skipped : s.rd_count < start_entry
    · obtain ⟨k,count⟩ : ∃ k, start_entry - s.rd_count = k + 1 := ⟨start_entry - s.rd_count - 1,by omega⟩
      have left : start_entry - (s.rd_count + 1) = k := by omega
      rw [pack,if_pos skipped,ih { s with rd_count := s.rd_count + 1 } skipped,count,List.drop_succ_cons]
      simp only [left,List.length_cons]
      congr 2
      omega
    · have here : start_entry - s.rd_count = 0 := Nat.sub_eq_zero_of_le (Nat.le_of_not_lt skipped)
      simp [here]

/-- From there on the entries that fit are copied. -/
theorem pack_copy (files : List fss_file) (s : Packing) (reached : ¬s.rd_count < start_entry)
    (filled : s.cpy_len = s.buffer.length) (short : ∀ f ∈ files, f.name.length < NAME_MAX) :
    pack max_size start_entry s files =
      ⟨s.rd_count,s.cpy_count + (bulk (max_size - s.cpy_len) files).length,
        s.cpy_len + ((bulk (max_size - s.cpy_len) files).flatMap encode).length,
        s.buffer ++ (bulk (max_size - s.cpy_len) files).flatMap encode⟩ := by
  induction files generalizing s with
  | nil => simp [pack,bulk]
  | cons f files ih =>
    have four : sizeof_dirent_buffer = 4 := rfl
    rw [pack,if_neg reached,bulk]
    by_cases full : s.cpy_len + sizeof_dirent_buffer > max_size
    · rw [if_pos full,if_pos (by omega)]
      simp
    · rw [if_neg full,if_neg (by omega)]
      have fits : f.name.length < NAME_MAX := short f List.mem_cons_self
      have in_short : f.name.length < 65536 := Nat.lt_trans fits (by decide)
      -- what is copied of the name is what its length says
      have copied : (if f.name.length > max_size - s.cpy_len - sizeof_dirent_buffer
          then max_size - s.cpy_len - sizeof_dirent_buffer else f.name.length) =
          (f.name.take (max_size - s.cpy_len - sizeof_dirent_buffer)).length := by
        rw [List.length_take]
        split <;> omega
      have taken : f.name.take (f.name.take (max_size - s.cpy_len - sizeof_dirent_buffer)).length =
          f.name.take (max_size - s.cpy_len - sizeof_dirent_buffer) := by
        rw [List.length_take,← List.take_take,List.take_length]
      have small : (f.name.take (max_size - s.cpy_len - sizeof_dirent_buffer)).length < 65536 :=
        Nat.lt_of_le_of_lt (List.length_take_le' _ _) in_short
      simp only [copied,taken,Nat.mod_eq_of_lt small]
      generalize f.name.take (max_size - s.cpy_len - sizeof_dirent_buffer) = name
      have whole : s.buffer.take s.cpy_len = s.buffer := by rw [filled,List.take_length]
      have room : max_size - (s.cpy_len + sizeof_dirent_buffer + name.length) =
          max_size - s.cpy_len - sizeof_dirent_buffer - name.length := by omega
      have next := ih ⟨s.rd_count,s.cpy_count + 1,s.cpy_len + sizeof_dirent_buffer + name.length,
        s.buffer ++ encode (name,f.type)⟩ reached (by simp [filled,encode_length]; omega)
        (fun g member => short g (List.mem_cons_of_mem f member))
      simp only [room] at next
      rw [whole]
      refine next.trans ?_
      simp only [List.length_cons,List.flatMap_cons,List.length_append,List.append_assoc,encode_length]
      congr 1 <;> omega

/-- What a request for the children from `start_entry` on answers. -/
theorem req_readdir_eq {children : List fss_file} (short : ∀ f ∈ children, f.name.length < NAME_MAX)
    (some_size : max_size ≠ 0) : req_readdir children max_size start_entry =
    .ok ((bulk max_size (children.drop start_entry)).flatMap encode,
      ((bulk max_size (children.drop start_entry)).flatMap encode).length,
      start_entry + min start_entry children.length + (bulk max_size (children.drop start_entry)).length) := by
  rw [req_readdir,if_neg some_size,pack_skip children _ (Nat.zero_le _)]
  simp only [Nat.sub_zero,Nat.zero_add]
  have left : ∀ f ∈ children.drop start_entry, f.name.length < NAME_MAX :=
    fun f member => short f (List.mem_of_mem_drop member)
  by_cases reached : min start_entry children.length < start_entry
  · have nothing : children.drop start_entry = [] := List.drop_eq_nil_of_le (by omega)
    simp [nothing,pack,bulk]
  · rw [pack_copy _ _ reached rfl left]
    simp

end Packing

/-- A valid entry: the name is a string, and it fits `d_name`. -/
def Readable (entry : List UInt8 × fss_file_type) : Prop := (∀ b ∈ entry.1, b ≠ 0) ∧ entry.1.length < NAME_MAX

theorem bulk_readable (room : Nat) {files : List fss_file} (short : ∀ f ∈ files, f.name.length < NAME_MAX) :
    ∀ entry ∈ bulk room files, Readable entry := by
  induction files generalizing room with
  | nil => simp [bulk]
  | cons f files ih =>
    intro entry member
    rw [bulk] at member
    split at member
    case isTrue => cases member
    case isFalse =>
      rcases List.mem_cons.mp member with rfl | later
      · constructor
        · exact fun b inside => f.ends b (List.mem_of_mem_take inside)
        · exact Nat.lt_of_le_of_lt (List.length_take_le' _ _) (short f List.mem_cons_self)
      · exact ih _ (fun g inside => short g (List.mem_cons_of_mem f inside)) entry later

/-! ### Reading the entries of one buffer -/

section Reading
variable {children : List fss_file} {dirp dirp' : DIR} {names : List (List UInt8)}

theorem yields_none (ended : readdir children dirp = (dirp',none)) : Yields children dirp names ↔ names = [] := by
  constructor
  · intro yields
    cases yields with
    | done => rfl
    | more read rest =>
      rw [ended] at read
      cases read
  · rintro rfl
    exact .done ended

theorem yields_some {name : List UInt8} (read : readdir children dirp = (dirp',some name)) :
    Yields children dirp names ↔ ∃ rest, names = name :: rest ∧ Yields children dirp' rest := by
  constructor
  · intro yields
    cases yields with
    | done ended =>
      rw [read] at ended
      cases ended
    | more again rest =>
      rw [read] at again
      cases again
      exact ⟨_,rfl,rest⟩
  · rintro ⟨rest,rfl,yields⟩
    exact .more read yields

theorem yields_congr (same : readdir children dirp = readdir children dirp') :
    Yields children dirp names ↔ Yields children dirp' names := by
  cases read : readdir children dirp' with
  | mk after name =>
    rw [read] at same
    cases name with
    | none => rw [yields_none same,yields_none read]
    | some name => rw [yields_some same,yields_some read]

/-- The entry behind `before` bytes of the buffer. -/
theorem read_entry (before after : List UInt8) {entry : List UInt8 × fss_file_type} (readable : Readable entry) :
    get_short (before ++ (encode entry ++ after)) before.length = entry.1.length ∧
    fill_dirent (before ++ (encode entry ++ after)) before.length = entry.1 := by
  have stored : get_short (before ++ (encode entry ++ after)) before.length = entry.1.length := by
    have small : entry.1.length < 256 := readable.2
    simp [get_short,encode,put_short]
    omega
  refine ⟨stored,?_⟩
  rw [fill_dirent,stored]
  rw [if_neg (Nat.not_le.mpr readable.2),← List.drop_drop,List.drop_left]
  have behind : (encode entry ++ after).drop sizeof_dirent_buffer = entry.1 ++ after := by
    simp [encode,put_short,sizeof_dirent_buffer]
  rw [behind,List.take_left,List.takeWhile_eq_self_iff.mpr (by simpa using readable.1)]

/-- Reading the entry behind `before` bytes, with the entries `rest` behind it. -/
theorem readdir_entry {before : List UInt8} {entry : List UInt8 × fss_file_type}
    {rest : List (List UInt8 × fss_file_type)} (readable : Readable entry)
    (buffer : dirp.dir_buffer = before ++ (encode entry ++ rest.flatMap encode))
    (current : dirp.current_entry = some before.length) (used : dirp.used_size = dirp.dir_buffer.length) :
    readdir children dirp = ({ dirp with
      current_entry := if rest = [] then none else some (before ++ encode entry).length },some entry.1) := by
  obtain ⟨stored,filled⟩ := read_entry before (rest.flatMap encode) readable
  -- what is left is empty exactly when no entry is
  have ended : before.length + sizeof_dirent_buffer + entry.1.length ≥
      (before ++ (encode entry ++ rest.flatMap encode)).length ↔ rest = [] := by
    have four : sizeof_dirent_buffer = 4 := rfl
    rw [List.length_append,List.length_append,encode_length]
    cases rest with
    | nil => simp; omega
    | cons next rest =>
      rw [List.flatMap_cons,List.length_append,encode_length]
      simp
      omega
  rw [readdir,read_dir,refill,current]
  simp only [buffer,stored,fill_32bits_dirent,filled,used,ended,true_or,if_true]
  simp [encode_length,Nat.add_assoc]

/-- The entries of the buffer are yielded, and then what follows it is. -/
theorem yields_entries {entry : List UInt8 × fss_file_type} {rest : List (List UInt8 × fss_file_type)}
    (before : List UInt8) (readable : ∀ e ∈ entry :: rest, Readable e)
    (buffer : dirp.dir_buffer = before ++ (encode entry ++ rest.flatMap encode))
    (current : dirp.current_entry = some before.length) (used : dirp.used_size = dirp.dir_buffer.length) :
    Yields children dirp names ↔ ∃ later, names = (entry :: rest).map Prod.fst ++ later ∧
      Yields children { dirp with current_entry := none } later := by
  induction rest generalizing entry before dirp names with
  | nil =>
    have last : readdir children dirp = ({ dirp with current_entry := none },some entry.1) :=
      readdir_entry (readable entry List.mem_cons_self) buffer current used
    rw [yields_some last]
    simp
  | cons next rest ih =>
    have first : readdir children dirp =
        ({ dirp with current_entry := some (before ++ encode entry).length },some entry.1) :=
      readdir_entry (readable entry List.mem_cons_self) buffer current used
    have readable_rest : ∀ e ∈ next :: rest, Readable e := fun e member => readable e (List.mem_cons_of_mem entry member)
    have behind : dirp.dir_buffer = (before ++ encode entry) ++ (encode next ++ rest.flatMap encode) := by
      simp [buffer]
    have others (names : List (List UInt8)) :
        Yields children { dirp with current_entry := some (before ++ encode entry).length } names ↔
          ∃ later, names = (next :: rest).map Prod.fst ++ later ∧
            Yields children { dirp with current_entry := none } later :=
      ih (before ++ encode entry) readable_rest behind rfl used
    rw [yields_some first]
    constructor
    · rintro ⟨names,rfl,yields⟩
      obtain ⟨later,rfl,yields_later⟩ := (others names).mp yields
      exact ⟨later,by simp,yields_later⟩
    · rintro ⟨later,rfl,yields_later⟩
      exact ⟨_,by simp,(others _).mpr ⟨later,rfl,yields_later⟩⟩

/-- A stream that reads the bulk from `next_bulk` on next. -/
def atBulk (total_size next_bulk : Nat) : DIR := ⟨[],none,total_size,0,next_bulk⟩

/-- What a stream without a current entry yields does not depend on its buffer. -/
theorem yields_no_entry (no_entry : dirp.current_entry = none) :
    Yields children dirp names ↔ Yields children (atBulk dirp.total_size dirp.next_bulk) names := by
  obtain ⟨buffer,entry,total,used,next⟩ := dirp
  obtain rfl : entry = none := no_entry
  cases filled : refill children (atBulk total next) with
  | none =>
    have same : refill children ⟨buffer,none,total,used,next⟩ = none := by
      simpa [refill,atBulk,sys_readdir] using filled
    rw [yields_none (by rw [readdir,read_dir,same]),yields_none (by rw [readdir,read_dir,filled])]
  | some reading =>
    have same : refill children ⟨buffer,none,total,used,next⟩ = some reading := by
      simpa [refill,atBulk,sys_readdir] using filled
    exact yields_congr (by rw [readdir,read_dir,same,readdir,read_dir,filled])

section Bulk
variable (total_size next_bulk : Nat)

/-- The buffer that is read for the bulk from `next_bulk` on. -/
theorem refill_bulk (short : ∀ f ∈ children, f.name.length < NAME_MAX) : refill children (atBulk total_size next_bulk) =
    if bulk total_size (children.drop next_bulk) = [] then none else
    some (⟨(bulk total_size (children.drop next_bulk)).flatMap encode,some 0,total_size,
      ((bulk total_size (children.drop next_bulk)).flatMap encode).length,
      next_bulk + min next_bulk children.length + (bulk total_size (children.drop next_bulk)).length⟩,0) := by
  by_cases no_size : total_size = 0
  · have nothing : bulk total_size (children.drop next_bulk) = [] := by
      cases children.drop next_bulk with
      | nil => rfl
      | cons f files => simp [bulk,no_size,sizeof_dirent_buffer]
    rw [if_pos nothing]
    simp [refill,atBulk,sys_readdir,req_readdir,no_size]
  · rw [refill,sys_readdir,atBulk,req_readdir_eq short no_size]
    cases bulk total_size (children.drop next_bulk) with
    | nil => simp
    | cons entry rest =>
      have four : sizeof_dirent_buffer = 4 := rfl
      have some_bytes : ((entry :: rest).flatMap encode).length ≠ 0 := by
        rw [List.flatMap_cons,List.length_append,encode_length]
        omega
      simp only [some_bytes,if_false,List.cons_ne_nil]

/-- The names of one bulk are yielded, and then those of the next. -/
theorem yields_bulk (short : ∀ f ∈ children, f.name.length < NAME_MAX) :
    Yields children (atBulk total_size next_bulk) names ↔
      if bulk total_size (children.drop next_bulk) = [] then names = [] else
      ∃ later, names = (bulk total_size (children.drop next_bulk)).map Prod.fst ++ later ∧
        Yields children (atBulk total_size (next_bulk + min next_bulk children.length +
          (bulk total_size (children.drop next_bulk)).length)) later := by
  have left : ∀ f ∈ children.drop next_bulk, f.name.length < NAME_MAX :=
    fun f member => short f (List.mem_of_mem_drop member)
  have readable := bulk_readable total_size left
  have filled := refill_bulk total_size next_bulk short
  cases entries : bulk total_size (children.drop next_bulk) with
  | nil =>
    rw [if_pos rfl]
    rw [entries,if_pos rfl] at filled
    exact yields_none (by rw [readdir,read_dir,filled])
  | cons entry rest =>
    rw [if_neg (List.cons_ne_nil entry rest)]
    rw [entries,if_neg (List.cons_ne_nil entry rest)] at filled
    rw [entries] at readable
    have same (names : List (List UInt8)) : Yields children (atBulk total_size next_bulk) names ↔
        Yields children ⟨(entry :: rest).flatMap encode,some 0,total_size,((entry :: rest).flatMap encode).length,
          next_bulk + min next_bulk children.length + (entry :: rest).length⟩ names :=
      yields_congr (by rw [readdir,read_dir,filled,readdir,read_dir,refill])
    have read (names : List (List UInt8)) :
        Yields children ⟨(entry :: rest).flatMap encode,some 0,total_size,((entry :: rest).flatMap encode).length,
          next_bulk + min next_bulk children.length + (entry :: rest).length⟩ names ↔
        ∃ later, names = (entry :: rest).map Prod.fst ++ later ∧
          Yields children ⟨(entry :: rest).flatMap encode,none,total_size,((entry :: rest).flatMap encode).length,
            next_bulk + min next_bulk children.length + (entry :: rest).length⟩ later :=
      yields_entries [] readable rfl rfl rfl
    rw [same,read]
    exact exists_congr (fun later => and_congr_right (fun _ => yields_no_entry rfl))

end Bulk

end Reading

/-! ### What the bulks hold -/

theorem packed_cons (f : fss_file) (files : List fss_file) :
    packed (f :: files) = sizeof_dirent_buffer + f.name.length + packed files := by
  simp [packed]

theorem bulk_nil_iff (room : Nat) (files : List fss_file) :
    bulk room files = [] ↔ files = [] ∨ room < sizeof_dirent_buffer := by
  cases files with
  | nil => simp [bulk]
  | cons f files =>
    rw [bulk]
    split <;> simp_all

theorem bulk_length_le (room : Nat) (files : List fss_file) : (bulk room files).length ≤ files.length := by
  induction files generalizing room with
  | nil => simp [bulk]
  | cons f files ih =>
    rw [bulk]
    split
    · simp
    · simpa using ih _

/-- Entries that fit are copied whole. -/
theorem bulk_append {first : List fss_file} {room : Nat} (rest : List fss_file) (fits : packed first ≤ room) :
    bulk room (first ++ rest) = first.map (fun f => (f.name,f.type)) ++ bulk (room - packed first) rest := by
  induction first generalizing room with
  | nil => simp [packed]
  | cons f files ih =>
    rw [packed_cons] at fits
    have whole : f.name.take (room - sizeof_dirent_buffer) = f.name := List.take_of_length_le (by omega)
    rw [List.cons_append,bulk,if_neg (by omega),whole]
    simp only
    rw [ih (by omega),packed_cons]
    simp [Nat.sub_sub]

/-- When the names of a bulk are the whole ones, its entries fit, and no other one follows. -/
theorem packed_of_bulk {room : Nat} {files : List fss_file} (whole : (bulk room files).map Prod.fst =
    (files.take (bulk room files).length).map fss_file.name) :
    packed (files.take (bulk room files).length) ≤ room ∧
      (files.drop (bulk room files).length = [] ∨
        room < packed (files.take (bulk room files).length) + sizeof_dirent_buffer) := by
  induction files generalizing room with
  | nil => simp [bulk,packed]
  | cons f files ih =>
    rw [bulk] at whole ⊢
    split
    case isTrue small => simp [packed,small]
    case isFalse big =>
      rw [if_neg big] at whole
      simp only [List.map_cons,List.length_cons,List.take_succ_cons,List.cons.injEq] at whole
      obtain ⟨name,others⟩ := whole
      have inside : f.name.length ≤ room - sizeof_dirent_buffer := List.take_eq_self_iff _ |>.mp name
      obtain ⟨fits,last⟩ := ih others
      rw [name] at fits last ⊢
      simp only [List.length_cons,List.take_succ_cons,List.drop_succ_cons,packed_cons]
      constructor
      · omega
      · exact last.imp_right (fun small => by omega)

/-- Nothing is yielded twice from a bulk on. -/
theorem yields_length {children : List fss_file} {total_size next_bulk : Nat} {names : List (List UInt8)}
    (short : ∀ f ∈ children, f.name.length < NAME_MAX) (yields : Yields children (atBulk total_size next_bulk) names) :
    names.length ≤ children.length - next_bulk := by
  induction count : names.length using Nat.strong_induction_on generalizing names next_bulk with
  | _ n ih =>
    subst count
    rw [yields_bulk _ _ short] at yields
    split at yields
    case isTrue => simp [yields]
    case isFalse some_entry =>
      obtain ⟨later,rfl,yields_later⟩ := yields
      have filled := List.length_pos_iff.mpr some_entry
      have bound := bulk_length_le total_size (children.drop next_bulk)
      rw [List.length_drop] at bound
      have rest := ih later.length (by simp; omega) yields_later rfl
      simp only [List.length_append,List.length_map]
      omega

theorem bulk_whole {files : List fss_file} {room : Nat} (fits : packed files ≤ room) :
    bulk room files = files.map (fun f => (f.name,f.type)) := by
  have copied := bulk_append [] fits
  simpa [bulk] using copied

/-- The names of a bulk are those of the first files when the files' names begin with them. -/
theorem names_of_bulk {room : Nat} {files : List fss_file} {later : List (List UInt8)}
    (names : files.map fss_file.name = (bulk room files).map Prod.fst ++ later) :
    (bulk room files).map Prod.fst = (files.take (bulk room files).length).map fss_file.name ∧
      later = (files.drop (bulk room files).length).map fss_file.name := by
  nth_rewrite 1 [← List.take_append_drop (bulk room files).length files] at names
  rw [List.map_append] at names
  obtain ⟨first,rest⟩ := List.append_inj names (by simpa using bulk_length_le room files)
  exact ⟨first.symm,rest.symm⟩

section Enumeration
variable {children : List fss_file} {total_size : Nat}

/-- Two bulks are read as they should be. -/
theorem yields_of_two_bulks (short : ∀ f ∈ children, f.name.length < NAME_MAX) (two : TwoBulks total_size children) :
    Yields children (opendir_with total_size) (children.map fss_file.name) := by
  obtain ⟨first,second,rfl,first_fits,second_fits,full⟩ := two
  have four : sizeof_dirent_buffer = 4 := rfl
  have first_bulk : bulk total_size ((first ++ second).drop 0) = first.map (fun f => (f.name,f.type)) := by
    have stops : bulk (total_size - packed first) second = [] :=
      (bulk_nil_iff _ _).mpr (full.imp_right (fun small => by omega))
    rw [List.drop_zero,bulk_append second first_fits,stops,List.append_nil]
  change Yields _ (atBulk total_size 0) _
  rw [yields_bulk _ _ short,first_bulk]
  cases first with
  | nil =>
    have nothing : second = [] := by
      cases second with
      | nil => rfl
      | cons f files =>
        have small := full.resolve_left (List.cons_ne_nil f files)
        rw [packed_cons] at second_fits
        simp only [packed,List.map_nil,List.sum_nil] at small
        omega
    simp [nothing]
  | cons f files =>
    rw [if_neg (by simp)]
    refine ⟨second.map fss_file.name,by simp,?_⟩
    have second_bulk : bulk total_size ((f :: files ++ second).drop (f :: files).length) =
        second.map (fun f => (f.name,f.type)) := by
      rw [List.drop_left,bulk_whole second_fits]
    simp only [Nat.zero_min,Nat.zero_add,List.length_map]
    rw [yields_bulk _ _ short,second_bulk]
    by_cases ended : second = []
    · simp [ended]
    · rw [if_neg (by simpa using ended)]
      refine ⟨[],by simp,?_⟩
      have beyond : (f :: files ++ second).drop ((f :: files).length +
          min (f :: files).length (f :: files ++ second).length +
          (second.map (fun f => (f.name,f.type))).length) = [] := by
        refine List.drop_eq_nil_of_le ?_
        simp
        omega
      rw [yields_bulk _ _ short,beyond]
      simp [bulk]

/-- From the third bulk on files are left out. -/
theorem two_bulks_of_yields (short : ∀ f ∈ children, f.name.length < NAME_MAX)
    (yields : Yields children (opendir_with total_size) (children.map fss_file.name)) : TwoBulks total_size children := by
  change Yields _ (atBulk total_size 0) _ at yields
  rw [yields_bulk _ _ short,List.drop_zero] at yields
  split at yields
  case isTrue =>
    obtain rfl : children = [] := List.map_eq_nil_iff.mp yields
    exact ⟨[],[],rfl,by simp [packed],by simp [packed],.inl rfl⟩
  case isFalse some_first =>
    obtain ⟨later,names,yields_later⟩ := yields
    obtain ⟨whole,rfl⟩ := names_of_bulk names
    obtain ⟨first_fits,full⟩ := packed_of_bulk whole
    have first_length := bulk_length_le total_size children
    have some_entry := List.length_pos_iff.mpr some_first
    generalize (bulk total_size children).length = k at first_fits full first_length some_entry yields_later
    simp only [Nat.zero_min,Nat.zero_add] at yields_later
    refine ⟨children.take k,children.drop k,(List.take_append_drop k children).symm,first_fits,?_,full⟩
    rw [yields_bulk _ _ short] at yields_later
    split at yields_later
    case isTrue =>
      rw [List.map_eq_nil_iff.mp yields_later]
      simp [packed]
    case isFalse =>
      obtain ⟨last,names,yields_last⟩ := yields_later
      obtain ⟨whole,rfl⟩ := names_of_bulk names
      obtain ⟨second_fits,_⟩ := packed_of_bulk whole
      -- the third bulk would begin `k` files too late
      have second_length := bulk_length_le total_size (children.drop k)
      have late := yields_length short yields_last
      simp only [List.length_map,List.length_drop] at late second_length
      rwa [List.take_of_length_le (by rw [List.length_drop]; omega)] at second_fits

/-- `readdir` yields every child once and with its name, in the order of the children, exactly when
    two bulks hold them all. -/
theorem readdir_enumerates_iff (short : ∀ f ∈ children, f.name.length < NAME_MAX) :
    Yields children (opendir_with total_size) (children.map fss_file.name) ↔ TwoBulks total_size children :=
  ⟨two_bulks_of_yields short,yields_of_two_bulks short⟩

end Enumeration

def fileA : fss_file := ⟨[97],.FSS_FILE_TYPE_NORMAL,by simp⟩
def fileB : fss_file := ⟨[98],.FSS_FILE_TYPE_DIR,by simp⟩

theorem readdir_enumerates_two : TwoBulks 8 [fileA,fileB] ∧
    Yields [fileA,fileB] (opendir_with 8) [[97],[98]] := by
  have two : TwoBulks 8 [fileA,fileB] := ⟨[fileA],[fileB],rfl,by decide,by decide,.inr (by decide)⟩
  exact ⟨two,(readdir_enumerates_iff (by simp [fileA,fileB,NAME_MAX])).mpr two⟩

/-- The files of a directory with names of 252 bytes, sixteen of which fill a buffer. -/
def longName (i : Fin 33) : fss_file where
  name := List.replicate 251 97 ++ [UInt8.ofNat (i + 1)]
  type := .FSS_FILE_TYPE_NORMAL
  ends := by
    have last : UInt8.ofNat (i + 1) ≠ 0 := by revert i; decide
    intro b member
    rcases List.mem_append.mp member with letter | number
    · rw [List.eq_of_mem_replicate letter]
      decide
    · rwa [List.mem_singleton.mp number]

theorem longName_length (i : Fin 33) : (longName i).name.length = 252 := by
  rw [longName,List.length_append,List.length_replicate,List.length_singleton]

theorem packed_longName {files : List fss_file} (long : ∀ f ∈ files, f.name.length = 252) :
    packed files = 256 * files.length := by
  induction files with
  | nil => rfl
  | cons f files ih =>
    rw [packed_cons,ih (fun g member => long g (List.mem_cons_of_mem f member)),long f List.mem_cons_self]
    simp [sizeof_dirent_buffer]
    omega

/-- Of 33 such files not all are yielded: the third bulk begins behind the last one. -/
theorem third_bulk_lost : (∀ f ∈ List.ofFn longName, f.name.length < NAME_MAX ∧
      sizeof_dirent_buffer + f.name.length ≤ DIR_BUFF_LEN) ∧
    ¬Yields (List.ofFn longName) opendir ((List.ofFn longName).map fss_file.name) := by
  have long : ∀ f ∈ List.ofFn longName, f.name.length = 252 := by
    intro f member
    obtain ⟨i,rfl⟩ := List.mem_ofFn.mp member
    exact longName_length i
  constructor
  · intro f member
    rw [long f member]
    decide
  · intro yields
    obtain ⟨first,second,split,first_fits,second_fits,_⟩ :=
      two_bulks_of_yields (fun f member => by rw [long f member]; decide) yields
    rw [split] at long
    rw [packed_longName (fun f member => long f (List.mem_append_left second member))] at first_fits
    rw [packed_longName (fun f member => long f (List.mem_append_right first member))] at second_fits
    have count := congrArg List.length split
    rw [List.length_ofFn,List.length_append] at count
    simp only [DIR_BUFF_LEN] at first_fits second_fits
    omega

end GridOS.Dirent
