import GridOS.TreeImport
import GridOS.Words

/-!
The loop of `import_file`, `source/subsystem/fs/tree.c`, over the bytes that the driver returns. A record says where the
next one begins, and the bytes that are left are counted down until none are: the loop stays in the bytes and ends only
when the records do.
-/
namespace GridOS.DirRecords
open GridOS.Words
open GridOS.Tree (fss_file_type)
open GridOS.TreeImport (file_type fss_directory_entry fss_file Directory import_loop fss_file_new total)

/-- Memory from `entries` on. -/
abbrev Bytes : Type := Nat → UInt8

/-- The fields of the `struct fss_directory_entry` at `p`, behind `ino` and `off`; `name` is an address. -/
def record_len (bytes : Bytes) (p : Nat) : Nat := (bytes (p + 16)).toNat + 256 * (bytes (p + 17)).toNat
def type (bytes : Bytes) (p : Nat) : Nat := (bytes (p + 18)).toNat
def name (p : Nat) : Nat := p + 19

/-- The loop before a round; of the files it has made it keeps the addresses of their names and their types. -/
structure State where
  p : Nat
  size : Nat
  files : List (Nat × fss_file_type)
  deriving DecidableEq

section Loop
variable (bytes : Bytes) (memory : Nat → Bool)

/-- A round, if there is one and its `fss_file_new` gets memory. -/
def round (s : State) : Option State :=
  if s.size = 0 then none else
  if memory s.files.length then
    some ⟨s.p + record_len bytes s.p,sub s.size (record_len bytes s.p),s.files ++ [(name s.p,file_type (type bytes s.p))]⟩
  else none

/-- The loop before the `k`-th round over `n` bytes, if it comes to it. -/
def rounds (n : Nat) : Nat → Option State
  | 0 => some ⟨0,n,[]⟩
  | k + 1 => (rounds n k).bind (round bytes memory)

end Loop

/-! ### What should hold of the loop -/

/-- What is read of the record at `p`: its length, its type, and its name up to the terminating zero. -/
def Reads (bytes : Bytes) (p b : Nat) : Prop :=
  b = p + 16 ∨ b = p + 17 ∨ b = p + 18 ∨ ∃ k, b = name p + k ∧ ∀ j < k, bytes (name p + j) ≠ 0

/-- The record begins and ends in the bytes, and so does what is read of it. -/
structure RecordInside (bytes : Bytes) (n p : Nat) : Prop where
  starts : p < n
  ends : p + record_len bytes p ≤ n
  reads : ∀ b, Reads bytes p b → b < n

/-- However the allocations end, the loop ends and reads no record that is not in the bytes. -/
def Robust (bytes : Bytes) (n : Nat) : Prop :=
  ∀ memory, (∃ k, rounds bytes memory n k = none) ∧
    ∀ k s, rounds bytes memory n k = some s → s.size ≠ 0 → RecordInside bytes n s.p

/-- From `p` on the bytes are records, none of them empty, and the last one ends with the bytes. -/
inductive Records (bytes : Bytes) (n : Nat) : Nat → Prop
  | done : Records bytes n n
  | record {p : Nat} (inside : RecordInside bytes n p) (forward : 0 < record_len bytes p)
      (rest : Records bytes n (p + record_len bytes p)) : Records bytes n p

/-- The name of a record that is in the bytes ends there. -/
theorem RecordInside.name_ends {bytes : Bytes} {n p : Nat} (inside : RecordInside bytes n p) :
    ∃ k, bytes (name p + k) = 0 ∧ name p + k < n := by
  by_contra endless
  have behind (k : Nat) : ∀ j < k, bytes (name p + j) ≠ 0 := by
    intro j _ zero
    induction j using Nat.strong_induction_on with
    | h j ih =>
      refine endless ⟨j,zero,inside.reads _ (.inr (.inr (.inr ⟨j,rfl,fun i before => ?_⟩)))⟩
      exact fun zero' => ih i before (by omega) zero'
  have far := inside.reads (name p + n) (.inr (.inr (.inr ⟨n,rfl,behind n⟩)))
  omega

section Rounds
variable {bytes : Bytes} {memory : Nat → Bool} {n k : Nat} {s s' : State}

theorem round_size (more : round bytes memory s = some s') : s.size ≠ 0 ∧ s'.p = s.p + record_len bytes s.p ∧
    s'.size = sub s.size (record_len bytes s.p) := by
  rw [round] at more
  split at more
  · cases more
  · next left =>
    split at more
    · cases more
      exact ⟨left,rfl,rfl⟩
    · cases more

theorem rounds_succ (more : rounds bytes memory n (k + 1) = some s') :
    ∃ s, rounds bytes memory n k = some s ∧ round bytes memory s = some s' := Option.bind_eq_some_iff.mp more

/-- While the records are in the bytes the count is right. -/
theorem rounds_count (word : n < modulus)
    (inside : ∀ k s, rounds bytes memory n k = some s → s.size ≠ 0 → RecordInside bytes n s.p) :
    ∀ k s, rounds bytes memory n k = some s → s.p + s.size = n := by
  intro k
  induction k with
  | zero =>
    intro s first
    cases first
    exact Nat.zero_add n
  | succ k ih =>
    intro s' more
    obtain ⟨s,before,again⟩ := rounds_succ more
    obtain ⟨left,next,size⟩ := round_size again
    have counted := ih s before
    have ends := (inside k s before left).ends
    rw [next,size,sub_exact (by omega) (by omega)]
    omega

/-- With memory the loop comes to the next round. -/
theorem rounds_next (here : rounds bytes (fun _ => true) n k = some s) (left : s.size ≠ 0) :
    ∃ s', rounds bytes (fun _ => true) n (k + 1) = some s' ∧ s'.p = s.p + record_len bytes s.p := by
  rw [rounds,here,Option.bind_some,round,if_neg left]
  exact ⟨_,rfl,rfl⟩

/-- The bytes that a loop which ends has read are records. -/
theorem records_of_ends (word : n < modulus)
    (inside : ∀ k s, rounds bytes (fun _ => true) n k = some s → s.size ≠ 0 → RecordInside bytes n s.p) (j : Nat) :
    ∀ k s, rounds bytes (fun _ => true) n k = some s → rounds bytes (fun _ => true) n (k + j) = none →
      Records bytes n s.p := by
  induction j with
  | zero =>
    intro k s here ended
    rw [Nat.add_zero,here] at ended
    cases ended
  | succ j ih =>
    intro k s here ended
    have counted := rounds_count word inside k s here
    by_cases left : s.size = 0
    · rw [show s.p = n by omega]
      exact .done
    · obtain ⟨s',more,next⟩ := rounds_next here left
      have rest := ih (k + 1) s' more (by rw [Nat.add_right_comm,Nat.add_assoc]; exact ended)
      rw [next] at rest
      rcases Nat.eq_zero_or_pos (record_len bytes s.p) with empty | forward
      · rwa [empty] at rest
      · exact .record (inside k s here left) forward rest

/-- Over records every round begins at one, and further on than the round before. -/
theorem rounds_of_records (word : n < modulus) (records : Records bytes n 0) :
    ∀ k s, rounds bytes memory n k = some s → Records bytes n s.p ∧ s.p + s.size = n ∧ k ≤ s.p := by
  intro k
  induction k with
  | zero =>
    intro s first
    cases first
    exact ⟨records,Nat.zero_add n,le_rfl⟩
  | succ k ih =>
    intro s' more
    obtain ⟨s,before,again⟩ := rounds_succ more
    obtain ⟨left,next,size⟩ := round_size again
    obtain ⟨here,counted,far⟩ := ih s before
    cases here with
    | done => omega
    | record inside forward rest =>
      have ends := inside.ends
      rw [next,size,sub_exact (by omega) (by omega)]
      exact ⟨rest,by omega,by omega⟩

/-- The loop is robust exactly over bytes that are records from their beginning to their end. -/
theorem robust_iff (int : n < 2147483648) : Robust bytes n ↔ Records bytes n 0 := by
  have word : n < modulus := by
    unfold modulus
    omega
  constructor
  · intro robust
    obtain ⟨⟨k,ended⟩,inside⟩ := robust (fun _ => true)
    exact records_of_ends word inside k 0 ⟨0,n,[]⟩ rfl (by rw [Nat.zero_add]; exact ended)
  · intro records memory
    constructor
    · refine ⟨n + 1,Option.eq_none_iff_forall_ne_some.mpr (fun s more => ?_)⟩
      obtain ⟨_,counted,far⟩ := rounds_of_records word records (n + 1) s more
      omega
    · intro k s here left
      obtain ⟨records',counted,_⟩ := rounds_of_records word records k s here
      cases records' with
      | done => omega
      | record inside forward rest => exact inside

end Rounds

/-- A record of 24 bytes without a name, and zeros behind it. -/
def one_record : Bytes := fun b => if b = 16 then 24 else 0

theorem robust_iff_one : Robust one_record 24 ↔ Records one_record 24 0 := robust_iff (by decide)

/-- A record of length 0 is read again and again; and where 20 bytes are returned of a record of 24, the count wraps and
    the bytes behind are read as records. -/
theorem length_trusted : (∀ k, rounds (fun _ => 0) (fun _ => true) 24 k ≠ none) ∧ ¬Robust (fun _ => 0) 24 ∧
    rounds one_record (fun _ => true) 20 1 = some ⟨24,4294967292,[(19,.FSS_FILE_TYPE_NORMAL)]⟩ ∧ ¬Robust one_record 20 := by
  have empty : record_len (fun _ => 0) 0 = 0 := rfl
  have endless (k : Nat) : ∃ files, rounds (fun _ => 0) (fun _ => true) 24 k = some ⟨0,24,files⟩ := by
    induction k with
    | zero => exact ⟨[],rfl⟩
    | succ k ih =>
      obtain ⟨files,here⟩ := ih
      rw [rounds,here,Option.bind_some,round,if_neg (Nat.succ_ne_zero 23),if_pos rfl,empty,sub_exact (Nat.zero_le 24) (by decide)]
      exact ⟨_,rfl⟩
  have goes_on (k : Nat) : rounds (fun _ => 0) (fun _ => true) 24 k ≠ none := by
    obtain ⟨files,here⟩ := endless k
    rw [here]
    exact Option.some_ne_none _
  have wrapped : rounds one_record (fun _ => true) 20 1 = some ⟨24,4294967292,[(19,.FSS_FILE_TYPE_NORMAL)]⟩ := by decide
  refine ⟨goes_on,?_,wrapped,?_⟩
  · intro robust
    obtain ⟨⟨k,ended⟩,_⟩ := robust (fun _ => true)
    exact goes_on k ended
  · intro robust
    have wrong := ((robust (fun _ => true)).2 1 _ wrapped (by decide)).starts
    exact absurd wrong (by decide)

/-! ### Records and listings -/

/-- The name at `a`, up to a zero. -/
def Named (bytes : Bytes) (a : Nat) (text : List Char) : Prop :=
  ∃ k, (∀ j < k, bytes (a + j) ≠ 0) ∧ bytes (a + k) = 0 ∧
    text = (List.range k).map (fun j => Char.ofNat (bytes (a + j)).toNat)

/-- The records from `p` on are those of a listing. -/
inductive Spells (bytes : Bytes) (n : Nat) : Nat → List fss_directory_entry → Prop
  | done : Spells bytes n n []
  | record {p : Nat} {entry : fss_directory_entry} {rest : List fss_directory_entry}
      (len : record_len bytes p = entry.record_len) (kind : type bytes p = entry.type)
      (named : Named bytes (name p) entry.name) (others : Spells bytes n (p + entry.record_len) rest) :
      Spells bytes n p (entry :: rest)

/-- The file that the loop makes of a record, and its name in memory. -/
def Made (bytes : Bytes) (made : Nat × fss_file_type) (file : fss_file) : Prop :=
  Named bytes made.1 file.name ∧ made.2 = file.type

section Listing
variable {bytes : Bytes} {n p : Nat} {disk : List fss_directory_entry}

theorem RecordInside.named (inside : RecordInside bytes n p) : ∃ text, Named bytes (name p) text := by
  obtain ⟨k,zero,_⟩ := inside.name_ends
  have some_end : ∃ k, bytes (name p + k) = 0 := ⟨k,zero⟩
  exact ⟨_,Nat.find some_end,fun j before => Nat.find_min some_end before,Nat.find_spec some_end,rfl⟩

/-- Where the loop is robust, the driver has returned a listing. -/
theorem Records.spells (records : Records bytes n p) : ∃ disk, Spells bytes n p disk := by
  induction records with
  | done => exact ⟨[],.done⟩
  | @record p inside forward _ ih =>
    obtain ⟨rest,others⟩ := ih
    obtain ⟨text,named⟩ := inside.named
    exact ⟨⟨record_len bytes p,type bytes p,text,forward⟩ :: rest,.record rfl rfl named others⟩

theorem Spells.total (spells : Spells bytes n p disk) : p + total disk = n := by
  induction spells with
  | done => rfl
  | record _ _ _ _ ih =>
    simp only [TreeImport.total,List.map_cons,List.sum_cons] at ih ⊢
    omega

/-- From any round on: the files that are still made are those of the listing, and the loop stops where that of the listing
    does. -/
theorem import_spelled (word : n < modulus) (memory : Nat → Bool) {k : Nat} {s : State}
    (spells : Spells bytes n s.p disk) (here : rounds bytes memory n k = some s) (count : s.files.length = k)
    (left : s.size = total disk) (d : Directory) :
    ∃ k' s' more files, rounds bytes memory n k' = some s' ∧ rounds bytes memory n (k' + 1) = none ∧
      s'.files = s.files ++ more ∧ List.Forall₂ (Made bytes) more files ∧
      import_loop memory k disk (total disk) d = ({ d with child_head := d.child_head ++ files },decide (s'.size = 0)) := by
  induction disk generalizing k s d with
  | nil =>
    have none_left : s.size = 0 := left
    refine ⟨k,s,[],[],here,?_,(List.append_nil _).symm,.nil,?_⟩
    · rw [rounds,here,Option.bind_some,round,if_pos none_left]
    · rw [import_loop,none_left,List.append_nil]
      rfl
  | cons entry rest ih =>
    obtain ⟨len,kind,named,others⟩ : record_len bytes s.p = entry.record_len ∧ type bytes s.p = entry.type ∧
        Named bytes (name s.p) entry.name ∧ Spells bytes n (s.p + entry.record_len) rest := by
      cases spells with
      | record len kind named others => exact ⟨len,kind,named,others⟩
    have whole := spells.total
    have sizes : total (entry :: rest) = entry.record_len + total rest := by simp [TreeImport.total]
    have more : total (entry :: rest) ≠ 0 := by
      have := entry.forward
      omega
    rw [import_loop,if_neg more]
    cases allocated : memory k with
    | false =>
      refine ⟨k,s,[],[],here,?_,(List.append_nil _).symm,.nil,?_⟩
      · rw [rounds,here,Option.bind_some,round,if_neg (by rw [left]; exact more),count,allocated]
        rfl
      · rw [fss_file_new,left,List.append_nil,decide_eq_false more]
        rfl
    | true =>
      have again : rounds bytes memory n (k + 1) = some ⟨s.p + entry.record_len,total rest,
          s.files ++ [(name s.p,file_type entry.type)]⟩ := by
        rw [rounds,here,Option.bind_some,round,if_neg (by rw [left]; exact more),count,allocated,if_pos rfl,len,kind,left,
          sub_exact (by omega) (by omega),sizes,Nat.add_sub_cancel_left]
      rw [sizes,Nat.add_sub_cancel_left]
      obtain ⟨k',s',more',files,last,ended,made,same,result⟩ := ih others again (by simp [count]) rfl
        { d with child_head := d.child_head ++ [⟨entry.name,file_type entry.type⟩] }
      refine ⟨k',s',(name s.p,file_type entry.type) :: more',⟨entry.name,file_type entry.type⟩ :: files,last,ended,?_,
        .cons ⟨named,rfl⟩ same,?_⟩
      · rw [made,List.append_assoc,List.singleton_append]
      · simp only [fss_file_new,if_true,result,List.append_assoc,List.singleton_append]

/-- Over a listing the loop makes the files of the listing, up to the first one that there is no memory for, and comes to
    the end of the bytes when the loop over the listing does. -/
theorem import_refined (word : n < modulus) (spells : Spells bytes n 0 disk) (memory : Nat → Bool) (d : Directory) :
    ∃ k s files, rounds bytes memory n k = some s ∧ rounds bytes memory n (k + 1) = none ∧
      List.Forall₂ (Made bytes) s.files files ∧
      import_loop memory 0 disk (total disk) d = ({ d with child_head := d.child_head ++ files },decide (s.size = 0)) := by
  have first : rounds bytes memory n 0 = some ⟨0,n,[]⟩ := rfl
  have whole : n = total disk := by
    have := spells.total
    omega
  obtain ⟨k,s,more,files,last,ended,made,same,result⟩ := import_spelled word memory spells first rfl whole d
  rw [List.nil_append] at made
  exact ⟨k,s,files,last,ended,made ▸ same,result⟩

end Listing

end GridOS.DirRecords
