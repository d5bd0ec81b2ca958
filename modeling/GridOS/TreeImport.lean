import GridOS.Tree

/-!
A directory that is filled from the disk, `import_file` and its two callers in
`source/subsystem/fs/tree.c` and `main.c`. The disk gives one listing, and each call meets its own
failures. A lookup imports when the directory has no children, and `req_readdir` when it is not
complete: an import that has failed midway leaves a directory that is neither.
-/
namespace GridOS.TreeImport
open GridOS.Tree (fss_file_type separator)

/-- What the code uses of a record; `record_len` is what leads to the next one. -/
structure fss_directory_entry where
  record_len : Nat
  type : Nat
  name : List Char
  forward : 0 < record_len

structure fss_file where
  name : List Char
  type : fss_file_type
  deriving DecidableEq

/-- A directory. `opened` says whether it has its `private`, and `complete` is FSS_FILE_TREE_COMPLETION. -/
structure Directory where
  has_parent : Bool
  opened : Bool
  complete : Bool
  child_head : List fss_file
  deriving DecidableEq

inductive Errno
  | EIO
  | ENOMEM
  deriving DecidableEq

/-- How the calls that an import makes end: the driver, the buffer, and the `i`-th `fss_file_new`, which fails when one
    of its two allocations does. -/
structure Outcome where
  fOpen : Bool
  fStat : Bool
  entries : Bool
  fReadDir : Bool
  memory : Nat → Bool

/-- What a lookup finds. -/
inductive Found
  | current_path
  | parent
  | child (file : fss_file)
  deriving DecidableEq

/-- A reference to no file. -/
inductive Fault
  | null_file
  deriving DecidableEq

/-! ### The code -/

def DT_DIR : Nat := 4

def file_type (type : Nat) : fss_file_type := if type = DT_DIR then .FSS_FILE_TYPE_DIR else .FSS_FILE_TYPE_NORMAL

/-- `fss_file_new` with a father. -/
def fss_file_new (allocated : Bool) (father : Directory) (name : List Char) (type : fss_file_type) : Option Directory :=
  if allocated then some { father with child_head := father.child_head ++ [⟨name,type⟩] } else none

/-- The loop over the records, of which `size` bytes are left, and whether it came to their end. The `i`-th file is the
    next to be made. -/
def import_loop (memory : Nat → Bool) : Nat → List fss_directory_entry → Nat → Directory → Directory × Bool
  | _, [], _, d => (d,true)
  | i, p :: rest, size, d =>
    if size = 0 then (d,true) else
    match fss_file_new (memory i) d p.name (file_type p.type) with
    | none => (d,false)
    | some d => import_loop memory (i + 1) rest (size - p.record_len) d

/-- The bytes of the records. -/
def total (disk : List fss_directory_entry) : Nat := (disk.map fss_directory_entry.record_len).sum

/-- `import_file` for a directory. -/
def import_file (disk : List fss_directory_entry) (o : Outcome) (d : Directory) : Directory × Except Errno Nat :=
  if d.complete then (d,.ok 0) else
  if ¬d.opened ∧ ¬o.fOpen then (d,.error Errno.EIO) else
  let d := { d with opened := true }
  if ¬o.fStat then (d,.error Errno.EIO) else
  if ¬o.entries then (d,.error .ENOMEM) else
  -- an error of the driver is returned as it is
  if ¬o.fReadDir then (d,.error Errno.EIO) else
  match import_loop o.memory 0 disk (total disk) d with
  | (d,true) => ({ d with complete := true },.ok (total disk))
  | (d,false) => (d,.error .ENOMEM)

/-- `name` is `file_name + iStart`, and `len` is `iEnd - iStart`. -/
def get_file_by_name (d : Directory) (name : List Char) (len : Nat) : Except Fault (Option Found) :=
  if name = ['.'] then .ok (some .current_path) else
  if name = ['.','.'] then if d.has_parent then .ok (some .parent) else .error .null_file else
  .ok ((d.child_head.find? (fun f => f.name.take len = name.take len ∧ f.name.length = len)).map .child)

/-- The two searches from `loop_again` on, with and without the lock. -/
def get_twice (d : Directory) (name : List Char) (len : Nat) : Except Fault (Option Found) := do
  if let some file ← get_file_by_name d name len then return some file
  get_file_by_name d name len

def lockup_file_in_this_dir (disk : List fss_directory_entry) (o : Outcome) (name : List Char) (len : Nat)
    (d : Directory) : Directory × Except Fault (Option Found) :=
  match get_twice d name len with
  | .ok none =>
    if d.child_head = [] then
      match import_file disk o d with
      | (d,.error _) => (d,.ok none)
      -- and once more with `looped` set
      | (d,.ok _) => (d,get_twice d name len)
    else (d,.ok none)
  | found => (d,found)

/-- `req_readdir` up to the loop over the children. -/
def req_readdir (disk : List fss_directory_entry) (o : Outcome) (d : Directory) : Directory × Except Errno Unit :=
  if ¬d.complete then
    match import_file disk o d with
    | (d,.error _) => (d,.error Errno.EIO)
    | (d,.ok _) => (d,.ok ())
  else (d,.ok ())

/-! ### Runs -/

inductive Op
  | lookup (name : List Char) (len : Nat) (o : Outcome)
  | readdir (o : Outcome)

def step (disk : List fss_directory_entry) (d : Directory) : Op → Directory
  | .lookup name len o => (lockup_file_in_this_dir disk o name len d).1
  | .readdir o => (req_readdir disk o d).1

def run (disk : List fss_directory_entry) (d : Directory) (ops : List Op) : Directory := ops.foldl (step disk) d

/-- A directory as `fss_file_new` leaves it; only the root has no parent, and it is open. -/
def fresh (has_parent opened : Bool) : Directory := ⟨has_parent,opened,false,[]⟩

/-- There is memory, and the disk works. -/
def plenty : Outcome := ⟨true,true,true,true,fun _ => true⟩

/-- The file of the record, when a name in a path ends at a separator or at the end of the path. -/
def meant (p : fss_directory_entry) (rest : List Char) : Found :=
  if p.name ++ rest = ['.'] then .current_path else
  if p.name ++ rest = ['.','.'] then .parent else .child ⟨p.name,file_type p.type⟩

/-- No two children have the same name, and when there is memory again then every name on the disk is found. -/
structure Consistent (disk : List fss_directory_entry) (d : Directory) : Prop where
  different : (d.child_head.map fss_file.name).Nodup
  found : ∀ p ∈ disk, ∀ rest : List Char, rest.head?.all separator →
    (lockup_file_in_this_dir disk plenty (p.name ++ rest) p.name.length d).2 = .ok (some (meant p rest))

/-- An import comes to its loop. -/
def Starts (d : Directory) (o : Outcome) : Prop :=
  d.complete = false ∧ (d.opened ∨ o.fOpen) ∧ o.fStat ∧ o.entries ∧ o.fReadDir

/-- The call makes an import that comes to its loop. -/
def Imports (d : Directory) : Op → Prop
  | .lookup name len o => get_twice d name len = .ok none ∧ d.child_head = [] ∧ Starts d o
  | .readdir o => Starts d o

def Op.outcome : Op → Outcome
  | .lookup _ _ o => o
  | .readdir o => o

/-- A directory without a parent has no `..` on the disk. -/
def Rooted (disk : List fss_directory_entry) (d : Directory) : Prop :=
  d.has_parent = false → ['.','.'] ∉ disk.map fss_directory_entry.name

/-- An import makes no file, or all of them. -/
def AllOrNone (disk : List fss_directory_entry) (d : Directory) (op : Op) : Prop :=
  Imports d op → op.outcome.memory 0 = false ∨ ∀ i < disk.length, op.outcome.memory i = true

/-! ### Steps -/

section Steps
variable {disk : List fss_directory_entry} {d : Directory}

/-- The children that the records make. -/
def files (disk : List fss_directory_entry) : List fss_file := disk.map (fun p => ⟨p.name,file_type p.type⟩)

/-- The loop makes the files up to the first one that there is no memory for. -/
theorem import_loop_cases (memory : Nat → Bool) (rest : List fss_directory_entry) (i : Nat) (d : Directory) :
    ∃ k ≤ rest.length, import_loop memory i rest (total rest) d =
        ({ d with child_head := d.child_head ++ files (rest.take k) },decide (k = rest.length)) ∧
      (∀ j < k, memory (i + j) = true) ∧ (k < rest.length → memory (i + k) = false) := by
  induction rest generalizing i d with
  | nil => exact ⟨0,Nat.le_refl 0,by simp [import_loop,files],by simp,by simp⟩
  | cons p rest ih =>
    have more : total (p :: rest) ≠ 0 := by
      have := p.forward
      simp only [total,List.map_cons,List.sum_cons]
      omega
    have left : total (p :: rest) - p.record_len = total rest := by simp [total]
    rw [import_loop,if_neg more,left]
    cases allocated : memory i with
    | false =>
      refine ⟨0,Nat.zero_le _,?_,by simp,fun _ => allocated⟩
      simp [fss_file_new,files]
    | true =>
      obtain ⟨k,inside,made,before,failed⟩ := ih (i + 1) { d with child_head := d.child_head ++ [⟨p.name,file_type p.type⟩] }
      refine ⟨k + 1,Nat.succ_le_succ inside,?_,?_,?_⟩
      · simp [fss_file_new,made,files]
      · intro j lt
        cases j with
        | zero => exact allocated
        | succ j =>
          have := before j (by omega)
          rwa [Nat.add_right_comm] at this
      · intro lt
        have := failed (by simpa using lt)
        rwa [Nat.add_right_comm] at this

/-- An import that does not come to its loop changes no child. -/
theorem import_file_kept (disk : List fss_directory_entry) {o : Outcome} (ends : ¬Starts d o) :
    (import_file disk o d).1.child_head = d.child_head ∧
    (import_file disk o d).1.complete = d.complete ∧ (import_file disk o d).1.has_parent = d.has_parent := by
  rw [import_file]
  split
  · exact ⟨rfl,rfl,rfl⟩
  split
  · exact ⟨rfl,rfl,rfl⟩
  dsimp only
  split
  · exact ⟨rfl,rfl,rfl⟩
  split
  · exact ⟨rfl,rfl,rfl⟩
  split
  · exact ⟨rfl,rfl,rfl⟩
  next incomplete open_ stat buffer listed =>
    refine absurd ⟨by simpa using incomplete,?_,by simpa using stat,by simpa using buffer,by simpa using listed⟩ ends
    by_contra closed
    exact open_ (not_or.mp closed)

theorem import_file_made (disk : List fss_directory_entry) {o : Outcome} (starts : Starts d o) : ∃ k ≤ disk.length,
    import_file disk o d = (⟨d.has_parent,true,decide (k = disk.length),d.child_head ++ files (disk.take k)⟩,
      if k = disk.length then .ok (total disk) else .error .ENOMEM) ∧
    (∀ j < k, o.memory j = true) ∧ (k < disk.length → o.memory k = false) := by
  obtain ⟨incomplete,open_,stat,buffer,listed⟩ := starts
  obtain ⟨k,inside,made,before,failed⟩ := import_loop_cases o.memory disk 0 { d with opened := true }
  simp only [Nat.zero_add] at before failed
  refine ⟨k,inside,?_,before,failed⟩
  have no_open : ¬(¬d.opened ∧ ¬o.fOpen) := not_and_or.mpr (open_.imp not_not.mpr not_not.mpr)
  rw [import_file,if_neg (by simp [incomplete]),if_neg no_open]
  dsimp only
  rw [if_neg (by simp [stat]),if_neg (by simp [buffer]),if_neg (by simp [listed]),made]
  by_cases all : k = disk.length
  · simp [all]
  · simp [all,incomplete]

theorem get_twice_eq (name : List Char) (len : Nat) : get_twice d name len = get_file_by_name d name len := by
  rw [get_twice]
  cases get_file_by_name d name len with
  | error fault => rfl
  | ok file =>
    cases file with
    | none => rfl
    | some file => rfl

/-- What an import does to the directory, or what is left when none is made. -/
def Effect (disk : List fss_directory_entry) (imports : Prop) (memory : Nat → Bool) (d d' : Directory) : Prop :=
  d'.has_parent = d.has_parent ∧
    ((¬imports ∧ d'.child_head = d.child_head ∧ d'.complete = d.complete) ∨
      (imports ∧ ∃ k ≤ disk.length, d'.child_head = d.child_head ++ files (disk.take k) ∧
        d'.complete = decide (k = disk.length) ∧ (∀ j < k, memory j = true) ∧ (k < disk.length → memory k = false)))

theorem import_file_effect (o : Outcome) : Effect disk (Starts d o) o.memory d (import_file disk o d).1 := by
  by_cases starts : Starts d o
  · obtain ⟨k,inside,made,memory⟩ := import_file_made disk starts
    rw [made]
    exact ⟨rfl,.inr ⟨starts,k,inside,rfl,rfl,memory⟩⟩
  · obtain ⟨children,complete,parent⟩ := import_file_kept disk starts
    exact ⟨parent,.inl ⟨starts,children,complete⟩⟩

theorem lookup_step (name : List Char) (len : Nat) (o : Outcome) : step disk d (.lookup name len o) =
    if get_twice d name len = .ok none ∧ d.child_head = [] then (import_file disk o d).1 else d := by
  rw [step,lockup_file_in_this_dir]
  split
  case h_1 nothing =>
    by_cases empty : d.child_head = []
    · rw [if_pos empty,if_pos ⟨nothing,empty⟩]
      split
      · next failed => rw [failed]
      · next made => rw [made]
    · rw [if_neg empty,if_neg (fun both => empty both.2)]
  case h_2 found =>
    rw [if_neg (fun both => found both.1)]

theorem readdir_step (o : Outcome) : step disk d (.readdir o) = if d.complete then d else (import_file disk o d).1 := by
  rw [step,req_readdir]
  cases complete : d.complete with
  | true => rfl
  | false =>
    rw [if_pos (by decide),if_neg (by decide)]
    split
    · next failed => rw [failed]
    · next made => rw [made]

/-- What a call does to the directory. -/
theorem step_effect (disk : List fss_directory_entry) (d : Directory) (op : Op) :
    Effect disk (Imports d op) op.outcome.memory d (step disk d op) := by
  cases op with
  | lookup name len o =>
    rw [lookup_step]
    split
    · next here =>
      have same : Imports d (.lookup name len o) = Starts d o :=
        propext ⟨fun imports => imports.2.2,fun starts => ⟨here.1,here.2,starts⟩⟩
      rw [same]
      exact import_file_effect o
    · next other => exact ⟨rfl,.inl ⟨fun imports => other ⟨imports.1,imports.2.1⟩,rfl,rfl⟩⟩
  | readdir o =>
    rw [readdir_step]
    split
    · next complete =>
      refine ⟨rfl,.inl ⟨fun starts => ?_,rfl,rfl⟩⟩
      have incomplete := starts.1
      rw [complete] at incomplete
      exact nomatch incomplete
    · exact import_file_effect o

end Steps

/-! ### Directories that are empty or complete -/

section Whole
variable {disk : List fss_directory_entry} {d : Directory}

/-- Nothing of the listing is in the directory, or all of it is. -/
def Whole (disk : List fss_directory_entry) (d : Directory) : Prop :=
  (d.child_head = [] ∧ d.complete = false) ∨ (d.child_head = files disk ∧ d.complete = true)

/-- An import fills a directory that is whole with the first records of the listing. -/
theorem whole_import {op : Op} (whole : Whole disk d) (imports : Imports d op) : ∃ k ≤ disk.length,
    (step disk d op).child_head = files (disk.take k) ∧ (step disk d op).complete = decide (k = disk.length) ∧
    (∀ j < k, op.outcome.memory j = true) ∧ (k < disk.length → op.outcome.memory k = false) := by
  have incomplete : d.complete = false := by
    cases op with
    | lookup name len o => exact imports.2.2.1
    | readdir o => exact imports.1
  have empty : d.child_head = [] := by
    rcases whole with ⟨empty,_⟩ | ⟨_,full⟩
    · exact empty
    · rw [incomplete] at full
      exact nomatch full
  obtain ⟨_,⟨not_imports,_⟩ | ⟨_,made⟩⟩ := step_effect disk d op
  · exact absurd imports not_imports
  · simpa only [empty,List.nil_append] using made

theorem step_whole {op : Op} (whole : Whole disk d) (condition : AllOrNone disk d op) : Whole disk (step disk d op) := by
  by_cases imports : Imports d op
  · obtain ⟨k,inside,children,complete,made,failed⟩ := whole_import whole imports
    rw [Whole,children,complete]
    by_cases all : k = disk.length
    · right
      rw [all,List.take_length]
      exact ⟨rfl,decide_eq_true rfl⟩
    · left
      have none_made : k = 0 := by
        by_contra some_made
        rcases condition imports with no_memory | memory
        · rw [made 0 (Nat.pos_of_ne_zero some_made)] at no_memory
          exact nomatch no_memory
        · have lt : k < disk.length := Nat.lt_of_le_of_ne inside all
          rw [memory k lt] at failed
          exact nomatch failed lt
      subst none_made
      exact ⟨rfl,decide_eq_false all⟩
  · obtain ⟨_,⟨_,children,complete⟩ | ⟨does_import,_⟩⟩ := step_effect disk d op
    · rw [Whole,children,complete]
      exact whole
    · exact absurd does_import imports

/-- The file of a record is the first with its name. -/
theorem find_file {k n : Nat} {p : fss_directory_entry} (distinct : (disk.map fss_directory_entry.name).Nodup)
    (there : disk[k]? = some p) : (files (disk.take n)).find? (fun f => f.name = p.name) =
      if k < n then some ⟨p.name,file_type p.type⟩ else none := by
  induction disk generalizing k n with
  | nil => simp at there
  | cons q disk ih =>
    rw [List.map_cons,List.nodup_cons] at distinct
    cases n with
    | zero => simp [files]
    | succ n =>
      cases k with
      | zero =>
        obtain rfl := Option.some.inj there
        simp [files]
      | succ k =>
        have listed : disk[k]? = some p := there
        have other : q.name ≠ p.name := by
          intro same
          apply distinct.1
          rw [same]
          exact List.mem_map_of_mem (List.mem_of_getElem? listed)
        simpa [files,other] using ih (n := n) distinct.2 listed

/-- What the search in the first files of the listing finds. -/
theorem get_listed {k n : Nat} {p : fss_directory_entry} {rest : List Char}
    (distinct : (disk.map fss_directory_entry.name).Nodup) (there : disk[k]? = some p)
    (children : d.child_head = files (disk.take n)) (parent : p.name ++ rest = ['.','.'] → d.has_parent = true) :
    get_file_by_name d (p.name ++ rest) p.name.length =
      if k < n ∨ p.name ++ rest = ['.'] ∨ p.name ++ rest = ['.','.'] then .ok (some (meant p rest)) else .ok none := by
  rw [get_file_by_name,meant]
  by_cases dot : p.name ++ rest = ['.']
  · simp [dot]
  · by_cases dots : p.name ++ rest = ['.','.']
    · simp [dots,parent dots]
    · have search : d.child_head.find? (fun f => f.name.take p.name.length = (p.name ++ rest).take p.name.length ∧
          f.name.length = p.name.length) = if k < n then some ⟨p.name,file_type p.type⟩ else none := by
        rw [← find_file distinct there,children]
        congr 1
        funext f
        exact decide_eq_decide.mpr Tree.name_matches
      rw [if_neg dot,if_neg dots,search]
      by_cases before : k < n
      · simp [before,dot,dots]
      · simp [before,dot,dots]

/-- A name in a path is special when it is the whole of it. -/
theorem special {name rest special : List Char} (plain : ∀ c ∈ special, separator c = false)
    (ends : rest.head?.all separator = true) (whole : name ++ rest = special) : name = special ∧ rest = [] := by
  cases rest with
  | nil => simpa using whole
  | cons c rest =>
    have sep : separator c = true := by simpa using ends
    rw [plain c (by rw [← whole]; simp)] at sep
    exact nomatch sep

theorem whole_consistent (distinct : (disk.map fss_directory_entry.name).Nodup) (rooted : Rooted disk d)
    (whole : Whole disk d) : Consistent disk d := by
  constructor
  · rcases whole with ⟨empty,_⟩ | ⟨full,_⟩
    · simp [empty]
    · have names : (files disk).map fss_file.name = disk.map fss_directory_entry.name := by
        rw [files,List.map_map]
        rfl
      rw [full,names]
      exact distinct
  · intro p member rest ends
    obtain ⟨k,there⟩ := List.mem_iff_getElem?.mp member
    have inside : k < disk.length := (List.getElem?_eq_some_iff.mp there).1
    have parent : p.name ++ rest = ['.','.'] → d.has_parent = true := by
      intro dots
      have name := (special (by simp [separator]) ends dots).1
      by_contra root
      exact rooted (Bool.eq_false_iff.mpr root) (List.mem_map.mpr ⟨p,member,name⟩)
    rw [lockup_file_in_this_dir,get_twice_eq]
    rcases whole with ⟨empty,incomplete⟩ | ⟨full,_⟩
    · have search := get_listed (n := 0) distinct there (by rw [empty]; rfl) parent
      by_cases is_special : p.name ++ rest = ['.'] ∨ p.name ++ rest = ['.','.']
      · rw [search,if_pos (.inr is_special)]
      · obtain ⟨made_k,_,made,_,failed⟩ := import_file_made disk (d := d) (o := plenty)
          ⟨incomplete,.inr rfl,rfl,rfl,rfl⟩
        have all : made_k = disk.length := by
          by_contra some_left
          cases failed (by omega)
        subst all
        rw [search,if_neg (by simpa using is_special)]
        dsimp only
        rw [if_pos empty,made,if_pos rfl]
        dsimp only
        rw [get_twice_eq]
        refine Eq.trans (get_listed (n := disk.length) distinct there ?_ parent) (if_pos (.inl inside))
        rw [empty,List.nil_append]
    · rw [get_listed (n := disk.length) distinct there (by rw [full,List.take_length]) parent,if_pos (.inl inside)]

/-- An import that stops midway leaves a directory in which the next name of the listing is not found. -/
theorem step_midway {op : Op} (distinct : (disk.map fss_directory_entry.name).Nodup) (whole : Whole disk d)
    (midway : ¬AllOrNone disk d op) : ¬Consistent disk (step disk d op) := by
  rw [AllOrNone,Classical.not_imp,not_or] at midway
  obtain ⟨imports,memory,not_all⟩ := midway
  obtain ⟨k,inside,children,_,made,failed⟩ := whole_import whole imports
  have some_made : k ≠ 0 := by
    rintro rfl
    have some_record : 0 < disk.length := by
      by_contra nothing
      exact not_all (fun i lt => by omega)
    exact memory (failed some_record)
  have some_left : k < disk.length := by
    by_contra none_left
    exact not_all (fun i lt => made i (by omega))
  intro consistent
  have missing := consistent.found disk[k] (List.getElem_mem some_left) ['/'] (by decide)
  have not_special : ∀ name : List Char, (∀ c ∈ name, separator c = false) → disk[k].name ++ ['/'] ≠ name := by
    intro name plain whole
    cases (special plain (by decide) whole).2
  have dot := not_special ['.'] (by simp [separator])
  have dots := not_special ['.','.'] (by simp [separator])
  have search := get_listed distinct (List.getElem?_eq_getElem some_left) children (fun special => absurd special dots)
  rw [if_neg (by simp [dot,dots])] at search
  have some_child : (step disk d op).child_head ≠ [] := by
    rw [children,files]
    intro none
    rw [List.map_eq_nil_iff,List.take_eq_nil_iff] at none
    rcases none with none | none
    · exact some_made none
    · rw [none] at some_left
      exact absurd some_left (Nat.not_lt_zero k)
  rw [lockup_file_in_this_dir,get_twice_eq,search] at missing
  dsimp only at missing
  rw [if_neg some_child] at missing
  cases missing

end Whole

/-! ### Runs -/

section Runs
variable {disk : List fss_directory_entry}

theorem run_concat (d : Directory) (before : List Op) (op : Op) :
    run disk d (before ++ [op]) = step disk (run disk d before) op := by simp [run]

theorem run_parent (d : Directory) (ops : List Op) : (run disk d ops).has_parent = d.has_parent := by
  induction ops using List.reverseRecOn with
  | nil => rfl
  | append_singleton before op ih =>
    rw [run_concat,(step_effect disk _ op).1,ih]

/-- A run keeps the directory whole as long as every next import makes no file or all of them. -/
theorem run_whole {has_parent opened : Bool} {ops : List Op}
    (next : ∀ before op, before ++ [op] <+: ops → Whole disk (run disk (fresh has_parent opened) before) →
      AllOrNone disk (run disk (fresh has_parent opened) before) op)
    (before : List Op) (starts : before <+: ops) : Whole disk (run disk (fresh has_parent opened) before) := by
  induction before using List.reverseRecOn with
  | nil => exact .inl ⟨rfl,rfl⟩
  | append_singleton before op ih =>
    have whole := ih ((List.prefix_append before [op]).trans starts)
    rw [run_concat]
    exact step_whole whole (next before op starts whole)

/-- Every state of a run is consistent exactly when no import of it stops midway, and the listing of the root does not
    have `..`, which is no file there. -/
theorem imports_consistent_iff (distinct : (disk.map fss_directory_entry.name).Nodup) (has_parent opened : Bool)
    (ops : List Op) :
    (∀ before, before <+: ops → Consistent disk (run disk (fresh has_parent opened) before)) ↔
      Rooted disk (fresh has_parent opened) ∧
      ∀ before op, before ++ [op] <+: ops → AllOrNone disk (run disk (fresh has_parent opened) before) op := by
  constructor
  · intro consistent
    constructor
    · intro root member
      obtain ⟨p,listed,dots⟩ := List.mem_map.mp member
      have found := (consistent [] List.nil_prefix).found p listed [] rfl
      rw [dots,List.append_nil,lockup_file_in_this_dir,get_twice_eq,get_file_by_name] at found
      have root : has_parent = false := root
      simp [run,fresh,root] at found
    · have next : ∀ before op, before ++ [op] <+: ops → Whole disk (run disk (fresh has_parent opened) before) →
          AllOrNone disk (run disk (fresh has_parent opened) before) op := by
        intro before op starts whole
        by_contra midway
        have later := consistent _ starts
        rw [run_concat] at later
        exact step_midway distinct whole midway later
      intro before op starts
      exact next before op starts (run_whole next before ((List.prefix_append before [op]).trans starts))
  · rintro ⟨rooted,condition⟩ before starts
    apply whole_consistent distinct
    · intro root
      rw [run_parent] at root
      exact rooted root
    · exact run_whole (fun before op starts _ => condition before op starts) before starts

/-- The disk with the files `a` and `b`. -/
def two_files : List fss_directory_entry := [⟨24,0,['a'],by decide⟩,⟨24,0,['b'],by decide⟩]

/-- Memory for one file. -/
def one_file : Outcome := { plenty with memory := fun i => i == 0 }

/-- A lookup that has no memory at all, and a `req_readdir`. -/
theorem imports_consistent_again : (two_files.map fss_directory_entry.name).Nodup ∧
    Consistent two_files
      (run two_files (fresh false true) [.lookup ['b'] 1 { plenty with memory := fun _ => false },.readdir plenty]) := by
  refine ⟨by decide,(imports_consistent_iff (by decide) false true _).mpr ⟨fun _ => by decide,?_⟩ _ (List.prefix_refl _)⟩
  intro before op starts _
  have member : op ∈ [Op.lookup ['b'] 1 { plenty with memory := fun _ => false },.readdir plenty] :=
    starts.subset (by simp)
  simp only [List.mem_cons,List.not_mem_nil,or_false] at member
  rcases member with rfl | rfl
  · exact .inl rfl
  · exact .inr (fun _ _ => rfl)

/-- After an import that has made `a` alone, `b` is not found although there is memory again, and `req_readdir` makes
    `a` a second time. -/
theorem import_midway : (two_files.map fss_directory_entry.name).Nodup ∧
    (lockup_file_in_this_dir two_files plenty ['b'] 1
      (run two_files (fresh false true) [.lookup ['a'] 1 one_file])).2 = .ok none ∧
    (run two_files (fresh false true) [.lookup ['a'] 1 one_file,.readdir plenty]).child_head.map fss_file.name =
      [['a'],['a'],['b']] := by
  decide

end Runs

end GridOS.TreeImport
