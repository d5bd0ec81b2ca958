import GridOS.Tree

/-!
The references that a resolution takes, `source/subsystem/fs/tree.c` and `fss_open` and `fss_close` of `main.c`. Every
search that finds a file counts a reference to it; none is given back, not even by `fss_close`.
-/
namespace GridOS.FileRefs
open GridOS.Tree (fss_file_type Fault FSS_VOLUMN_LABEL_CHECK_LEN separator label_end ends_label volumeLabel labelled)

/-- The files `ι`, and what a resolution meets: the root directories of the volumns, the names and files of a directory
    when it is searched, up to four times, for the name that the rest of the path begins with, and whether its import
    succeeds. `fss_tree_init` gives a root its `private`. -/
structure Files (ι : Type) where
  type : ι → fss_file_type
  parent : ι → Option ι
  has_private : ι → Bool
  rooted : ∀ f, parent f = none → has_private f = true
  fss_volumn_search : List Char → Option ι
  children : List Char → Nat → ι → List (List Char × ι)
  import_file : List Char → ι → Bool

/-- The reference counters. -/
abbrev Refs (ι : Type) : Type := ι → Nat

section Code
variable {ι : Type} [DecidableEq ι] (t : Files ι)

def isDir (f : ι) : Prop := t.type f = .FSS_FILE_TYPE_DIR

instance (f : ι) : Decidable (isDir t f) := inferInstanceAs (Decidable (_ = _))

def FSS_FILE_INC_REF_COUNTER (f : ι) (ref : Refs ι) : Refs ι := Function.update ref f (ref f + 1)

def Named (name : List Char) (len : Nat) (child : List Char × ι) : Prop :=
  child.1.take len = name.take len ∧ child.1.length = len

instance (name : List Char) (len : Nat) (child : List Char × ι) : Decidable (Named name len child) :=
  inferInstanceAs (Decidable (_ ∧ _))

/-- What `get_file_by_name` finds; `name` is `file_name + iStart`, and `len` is `iEnd - iStart`. -/
def searched (current_path : ι) (name : List Char) (len attempt : Nat) : Except Fault (Option ι) :=
  if ¬isDir t current_path then .error .not_a_directory else
  if name = ['.'] then .ok (some current_path) else
  if name = ['.','.'] then
    match t.parent current_path with
    | some parent => .ok (some parent)
    | none => .error .null_file
  else .ok (((t.children name attempt current_path).find? (fun child => Named name len child)).map Prod.snd)

def get_file_by_name (current_path : ι) (name : List Char) (len attempt : Nat) (ref : Refs ι) :
    Except Fault (Option ι × Refs ι) :=
  match searched t current_path name len attempt with
  | .error fault => .error fault
  | .ok none => .ok (none,ref)
  | .ok (some file) => .ok (some file,FSS_FILE_INC_REF_COUNTER file ref)

/-- Searches until one of them finds a file. -/
def get_again (current_path : ι) (name : List Char) (len : Nat) : List Nat → Refs ι → Except Fault (Option ι × Refs ι)
  | [], ref => .ok (none,ref)
  | attempt :: attempts, ref =>
    match get_file_by_name t current_path name len attempt ref with
    | .ok (none,ref) => get_again current_path name len attempts ref
    | got => got

/-- The directory is empty when it is searched for the second time, and its import succeeds. -/
def Imported (current_path : ι) (name : List Char) : Prop :=
  t.children name 1 current_path = [] ∧ t.import_file name current_path = true

instance (current_path : ι) (name : List Char) : Decidable (Imported t current_path name) :=
  inferInstanceAs (Decidable (_ ∧ _))

def lockup_file_in_this_dir (current_path : ι) (name : List Char) (len : Nat) (ref : Refs ι) :
    Except Fault (Option ι × Refs ι) :=
  match get_again t current_path name len [0,1] ref with
  | .ok (none,ref) =>
    if Imported t current_path name then get_again t current_path name len [2,3] ref else .ok (none,ref)
  | got => got

/-- The code from `loop_file_l1` on; `path` is `path_string + i`. -/
def loop_file_l1 (cur_dir : ι) (path : List Char) (ref : Refs ι) : Except Fault (Option ι × Refs ι) :=
  match path with
  | [] => .ok (some cur_dir,ref)
  | c :: rest =>
    if separator c then loop_file_l1 cur_dir rest ref else
    match lockup_file_in_this_dir t cur_dir (c :: rest) ((c :: rest).takeWhile (fun c => ¬separator c)).length ref with
    | .error fault => .error fault
    | .ok (none,ref) => .ok (none,ref)
    | .ok (some file,ref) => loop_file_l1 file (rest.dropWhile (fun c => ¬separator c)) ref
termination_by path.length
decreasing_by
  · simp
  · exact Nat.lt_succ_of_le (List.dropWhile_sublist _).length_le

/-- The check of `cur_dir` at `loop_file_l1`. -/
def walk (cur_dir : Option ι) (path : List Char) (ref : Refs ι) : Except Fault (Option ι × Refs ι) :=
  match cur_dir with
  | none => .ok (none,ref)
  | some cur_dir => loop_file_l1 t cur_dir path ref

/-- The code from `loop_file_l2` on when a label ends at `i`. -/
def loop_file_l2 (path : List Char) (i : Nat) (ref : Refs ι) : Except Fault (Option ι × Refs ι) :=
  let label := (path.take (i + 1)).filter (fun c => ¬separator c)
  let interval := label.dropLast ++ [':']
  if interval.length + 1 > FSS_VOLUMN_LABEL_CHECK_LEN then .error .interval_overflow else
  walk t (t.fss_volumn_search interval) (path.drop (i + 1)) ref

def fss_loop_file (current_path : Option ι) (path_string : List Char) (ref : Refs ι) : Except Fault (Option ι × Refs ι) :=
  if path_string.head? = some '/' then
    let i := label_end path_string FSS_VOLUMN_LABEL_CHECK_LEN 1
    if ends_label path_string i then loop_file_l2 t path_string i ref else
    walk t (t.fss_volumn_search ['0',':']) (path_string.drop 1) ref
  else
    let i := label_end path_string FSS_VOLUMN_LABEL_CHECK_LEN 0
    if ends_label path_string i then loop_file_l2 t path_string i ref else walk t current_path path_string ref

def fss_close (_who : ι) (ref : Refs ι) : Refs ι := ref

/-- `fss_open`, given whether the driver opens the file. -/
def fss_open (fOpen : Bool) (current_dir : Option ι) (name : List Char) (ref : Refs ι) : Except Fault (Option ι × Refs ι) :=
  match fss_loop_file t current_dir name ref with
  | .error fault => .error fault
  | .ok (none,ref) => .ok (none,ref)
  | .ok (some f,ref) =>
    if t.has_private f then .ok (some f,ref) else
    match t.parent f with
    | none => .error .null_file
    | some _ => if fOpen then .ok (some f,ref) else .ok (none,fss_close f ref)

end Code

/-! ### What should be counted -/

section Meaning
variable {ι : Type} [DecidableEq ι] (t : Files ι)

/-- A resolution counts one reference to the file it returns, and opening and closing a file, or failing to open it, none. -/
structure Balanced (current_path : Option ι) (path : List Char) (ref : Refs ι) : Prop where
  found : ∀ file ref', fss_loop_file t current_path path ref = .ok (some file,ref') →
    ref' = FSS_FILE_INC_REF_COUNTER file ref
  nothing : ∀ ref', fss_loop_file t current_path path ref = .ok (none,ref') → ref' = ref
  closed : ∀ fOpen file ref', fss_open t fOpen current_path path ref = .ok (some file,ref') → fss_close file ref' = ref
  failed : ∀ fOpen ref', fss_open t fOpen current_path path ref = .ok (none,ref') → ref' = ref

/-- Where a path starts, and what is left of it there. -/
def start (current_path : Option ι) (path : List Char) : Option ι × List Char :=
  match volumeLabel path with
  | some (id,rest) => (t.fss_volumn_search id,rest)
  | none => if path.head? = some '/' then (t.fss_volumn_search ['0',':'],path.drop 1) else (current_path,path)

/-- The searches that a lookup makes when it finds nothing. -/
def searches (dir : ι) (name : List Char) : List Nat := [0,1] ++ if Imported t dir name then [2,3] else []

/-- No search of the directory finds the first name of the path. -/
def Missing (dir : ι) (name : List Char) : Prop :=
  isDir t dir ∧ name ≠ ['.'] ∧ name ≠ ['.','.'] ∧ ∀ attempt ∈ searches t dir name,
    ∀ child ∈ t.children name attempt dir, child.1 ≠ name.takeWhile (fun c => ¬separator c)

/-- The path has nowhere to start, or has a name and the first one is missing where it starts. -/
def NothingFound (current_path : Option ι) (path : List Char) : Prop :=
  match start t current_path path with
  | (none,_) => True
  | (some dir,rest) => rest.dropWhile separator ≠ [] ∧ Missing t dir (rest.dropWhile separator)

end Meaning

/-! ### What a search finds and counts -/

section Search
variable {ι : Type} [DecidableEq ι] {t : Files ι} {dir : ι} {name : List Char} {len attempt : Nat} {ref ref' : Refs ι}
  {r : Option ι}

/-- The files were counted, and nothing else changed. -/
def Counted (ref ref' : Refs ι) (files : List ι) : Prop := ∀ f, ref' f = ref f + files.count f

theorem counted_inc (f : ι) (ref : Refs ι) : Counted ref (FSS_FILE_INC_REF_COUNTER f ref) [f] := by
  intro g
  rw [FSS_FILE_INC_REF_COUNTER,List.count_singleton]
  by_cases same : g = f
  · rw [same,Function.update_self]
    simp
  · rw [Function.update_of_ne same]
    simp [Ne.symm same]

theorem Counted.trans {ref'' : Refs ι} {files files' : List ι} (first : Counted ref ref' files)
    (second : Counted ref' ref'' files') : Counted ref ref'' (files ++ files') := by
  intro f
  rw [second f,first f,List.count_append,Nat.add_assoc]

theorem get_cases (got : get_file_by_name t dir name len attempt ref = .ok (r,ref')) :
    searched t dir name len attempt = .ok r ∧ Counted ref ref' r.toList := by
  rw [get_file_by_name] at got
  split at got
  · cases got
  · next found =>
    cases got
    exact ⟨found,fun f => rfl⟩
  · next file found =>
    cases got
    exact ⟨found,counted_inc file ref⟩

theorem get_again_counts {attempts : List Nat} (got : get_again t dir name len attempts ref = .ok (r,ref')) :
    Counted ref ref' r.toList := by
  induction attempts generalizing ref with
  | nil =>
    cases got
    exact fun f => rfl
  | cons attempt attempts ih =>
    rw [get_again] at got
    split at got
    · next ref₁ first =>
      exact ((get_cases first).2.trans (ih got))
    · exact (get_cases got).2

theorem lockup_counts (got : lockup_file_in_this_dir t dir name len ref = .ok (r,ref')) : Counted ref ref' r.toList := by
  rw [lockup_file_in_this_dir] at got
  split at got
  · next ref₁ first =>
    have counted := get_again_counts first
    split at got
    · exact counted.trans (get_again_counts got)
    · cases got
      exact counted
  · exact get_again_counts got

omit [DecidableEq ι] in
theorem searched_none_iff : searched t dir name len attempt = .ok none ↔ isDir t dir ∧ name ≠ ['.'] ∧ name ≠ ['.','.'] ∧
    ∀ child ∈ t.children name attempt dir, ¬Named name len child := by
  rw [searched]
  split
  · next other => exact iff_of_false (fun same => by cases same) (fun missing => other missing.1)
  · next directory =>
    split
    · next dot => exact iff_of_false (fun same => by cases same) (fun missing => missing.2.1 dot)
    · next dot =>
      split
      · next dots =>
        refine iff_of_false ?_ (fun missing => missing.2.2.1 dots)
        split
        · exact fun same => by cases same
        · exact fun same => by cases same
      · next dots =>
        rw [Except.ok.injEq,Option.map_eq_none_iff,List.find?_eq_none]
        simp only [decide_eq_true_eq]
        exact ⟨fun none_ => ⟨not_not.mp directory,dot,dots,none_⟩,fun missing => missing.2.2.2⟩

theorem get_again_none_iff {attempts : List Nat} : get_again t dir name len attempts ref = .ok (none,ref') ↔
    (∀ attempt ∈ attempts, searched t dir name len attempt = .ok none) ∧ ref' = ref := by
  induction attempts with
  | nil =>
    rw [get_again,Except.ok.injEq,Prod.mk.injEq]
    simp [eq_comm]
  | cons attempt attempts ih =>
    rw [get_again,List.forall_mem_cons,get_file_by_name]
    cases found : searched t dir name len attempt with
    | error fault => simp
    | ok file =>
      cases file with
      | none => simpa using ih
      | some file => simp

theorem lockup_none_iff : lockup_file_in_this_dir t dir name len ref = .ok (none,ref') ↔
    (∀ attempt ∈ searches t dir name, searched t dir name len attempt = .ok none) ∧ ref' = ref := by
  rw [lockup_file_in_this_dir,searches,List.forall_mem_append]
  by_cases first : ∀ attempt ∈ [0,1], searched t dir name len attempt = .ok none
  · rw [get_again_none_iff.mpr ⟨first,rfl⟩]
    dsimp only
    rw [and_iff_right first]
    split
    · exact get_again_none_iff
    · rw [Except.ok.injEq,Prod.mk.injEq]
      simp [eq_comm]
  · refine iff_of_false ?_ (fun both => first both.1.1)
    split
    · next ref₁ got => exact absurd (get_again_none_iff.mp got).1 first
    · next other => exact fun got => absurd (get_again_none_iff.mp got).1 first

/-- Nothing is found, and nothing counted, exactly when the name is missing. -/
theorem lockup_missing_iff : lockup_file_in_this_dir t dir name (name.takeWhile (fun c => ¬separator c)).length ref =
    .ok (none,ref') ↔ Missing t dir name ∧ ref' = ref := by
  have named (child : List Char × ι) : Named name (name.takeWhile (fun c => ¬separator c)).length child ↔
      child.1 = name.takeWhile (fun c => ¬separator c) := by
    have whole := List.takeWhile_append_dropWhile (p := fun c => decide ¬separator c = true) (l := name)
    have matched : (child.1.take (name.takeWhile (fun c => ¬separator c)).length =
        (name.takeWhile (fun c => ¬separator c) ++ name.dropWhile (fun c => ¬separator c)).take _ ∧ _) ↔ _ := Tree.name_matches
    rw [whole] at matched
    exact matched
  rw [lockup_none_iff,Missing]
  simp only [searched_none_iff,named]
  refine and_congr_left' ?_
  constructor
  · intro all
    obtain ⟨directory,dot,dots,_⟩ := all 0 (by simp [searches])
    exact ⟨directory,dot,dots,fun attempt member => (all attempt member).2.2.2⟩
  · rintro ⟨directory,dot,dots,all⟩ attempt member
    exact ⟨directory,dot,dots,all attempt member⟩

end Search

section Walk
variable {ι : Type} [DecidableEq ι] {t : Files ι} {dir : ι} {path : List Char} {ref ref' : Refs ι} {r : Option ι}

/-! ### The walk -/

theorem skip_separators (dir : ι) (path : List Char) (ref : Refs ι) :
    loop_file_l1 t dir path ref = loop_file_l1 t dir (path.dropWhile separator) ref := by
  induction path with
  | nil => rfl
  | cons c rest ih =>
    by_cases sep : separator c = true
    · rw [loop_file_l1,if_pos sep,List.dropWhile_cons_of_pos sep]
      exact ih
    · rw [List.dropWhile_cons_of_neg sep]

/-- Every component that is found is counted. -/
theorem walk_counts (walked : loop_file_l1 t dir path ref = .ok (r,ref')) : ∃ files, Counted ref ref' files := by
  fun_induction loop_file_l1 t dir path ref with
  | case1 =>
    cases walked
    exact ⟨[],fun f => rfl⟩
  | case2 dir ref c rest sep ih => exact ih walked
  | case3 => cases walked
  | case4 dir ref c rest name ref₁ missing =>
    cases walked
    exact ⟨_,lockup_counts missing⟩
  | case5 dir ref c rest name file ref₁ found ih =>
    obtain ⟨files,counted⟩ := ih walked
    exact ⟨_,(lockup_counts found).trans counted⟩

/-- Nothing is found and nothing counted exactly when the first component is missing. -/
theorem walk_missing_iff (walked : loop_file_l1 t dir path ref = .ok (r,ref')) :
    r = none ∧ ref' = ref ↔ path.dropWhile separator ≠ [] ∧ Missing t dir (path.dropWhile separator) := by
  have stops := List.head?_dropWhile_not separator path
  rw [skip_separators] at walked
  cases left : path.dropWhile separator with
  | nil =>
    rw [left,loop_file_l1] at walked
    cases walked
    exact iff_of_false (fun none_ => by cases none_.1) (fun some_ => some_.1 rfl)
  | cons c rest =>
    rw [left] at walked stops
    rw [loop_file_l1,if_neg (by simpa using stops)] at walked
    rw [and_iff_right (List.cons_ne_nil c rest)]
    split at walked
    · cases walked
    · next ref₁ missing =>
      cases walked
      exact iff_of_true ⟨rfl,(lockup_missing_iff.mp missing).2⟩ (lockup_missing_iff.mp missing).1
    · next file ref₁ found =>
      refine iff_of_false ?_ ?_
      · rintro ⟨rfl,rfl⟩
        obtain ⟨files,counted⟩ := walk_counts walked
        have more := ((lockup_counts found).trans counted) file
        rw [List.count_append] at more
        simp at more
      · intro missing
        rw [lockup_missing_iff.mpr ⟨missing,rfl⟩] at found
        cases found

/-! ### The start of a path -/

theorem loop_file_l2_start {i : Nat} {id rest label : List Char} {c : Char} (is_id : id = label ++ [':'])
    (taken : (path.take (i + 1)).filter (fun c => ¬separator c) = label ++ [c]) (behind : path.drop (i + 1) = rest)
    (walked : loop_file_l2 t path i ref = .ok (r,ref')) : walk t (t.fss_volumn_search id) rest ref = .ok (r,ref') := by
  rw [loop_file_l2,taken,behind,List.dropLast_concat,← is_id] at walked
  split at walked
  · cases walked
  · exact walked

theorem fss_loop_file_start {current_path : Option ι} (returned : fss_loop_file t current_path path ref = .ok (r,ref')) :
    walk t (start t current_path path).1 (start t current_path path).2 ref = .ok (r,ref') := by
  rw [fss_loop_file] at returned
  rw [start,volumeLabel]
  by_cases rooted : path.head? = some '/'
  · rw [if_pos rooted] at returned
    dsimp only at returned
    have front : ∀ c ∈ path.take 1, separator c = true := by
      obtain ⟨rest,rfl⟩ := List.head?_eq_some_iff.mp rooted
      simp [separator]
    rw [if_pos rooted,← List.drop_one]
    cases label : labelled (path.drop 1) with
    | none =>
      rw [Tree.ends_label_false path 1 label,if_neg (by decide)] at returned
      rw [if_pos rooted]
      exact returned
    | some parts =>
      obtain ⟨id,rest⟩ := parts
      obtain ⟨name,c,is_id,at_colon,seen,taken,behind⟩ := Tree.label_seen path 1 label front
      rw [at_colon,if_pos seen] at returned
      exact loop_file_l2_start is_id taken behind returned
  · rw [if_neg rooted] at returned
    dsimp only at returned
    rw [if_neg rooted]
    cases label : labelled path with
    | none =>
      rw [Tree.ends_label_false path 0 label,if_neg (by decide)] at returned
      rw [if_neg rooted]
      exact returned
    | some parts =>
      obtain ⟨id,rest⟩ := parts
      obtain ⟨name,c,is_id,at_colon,seen,taken,behind⟩ := Tree.label_seen path 0 label (by simp)
      rw [at_colon,if_pos seen] at returned
      exact loop_file_l2_start is_id taken behind returned

/-- A resolution finds nothing and counts nothing exactly when there is nothing to find. -/
theorem nothing_found_iff {current_path : Option ι} (returned : fss_loop_file t current_path path ref = .ok (r,ref')) :
    r = none ∧ ref' = ref ↔ NothingFound t current_path path := by
  have walked := fss_loop_file_start returned
  rw [NothingFound]
  generalize start t current_path path = place at *
  obtain ⟨dir,rest⟩ := place
  cases dir with
  | none =>
    cases walked
    exact iff_of_true ⟨rfl,rfl⟩ trivial
  | some dir => exact walk_missing_iff walked

theorem fss_open_none {current_path : Option ι} {fOpen : Bool}
    (returned : fss_loop_file t current_path path ref = .ok (none,ref')) :
    fss_open t fOpen current_path path ref = .ok (none,ref') := by
  rw [fss_open,returned]

theorem fss_open_some {current_path : Option ι} {file : ι}
    (returned : fss_loop_file t current_path path ref = .ok (some file,ref')) :
    fss_open t true current_path path ref = .ok (some file,ref') := by
  rw [fss_open,returned]
  dsimp only
  split
  · rfl
  · next closed =>
    split
    · next root => exact absurd (t.rooted file root) closed
    · rfl

/-- Of the resolutions that return, those that find nothing at all are the balanced ones. -/
theorem balanced_iff {current_path : Option ι} (returned : fss_loop_file t current_path path ref = .ok (r,ref')) :
    Balanced t current_path path ref ↔ NothingFound t current_path path := by
  rw [← nothing_found_iff returned]
  constructor
  · intro balanced
    cases r with
    | none => exact ⟨rfl,balanced.nothing ref' returned⟩
    | some file =>
      -- the reference that the resolution should count is not given back
      have counted := balanced.found file ref' returned
      have kept : ref' = ref := balanced.closed true file ref' (fss_open_some returned)
      have more := counted_inc file ref file
      rw [← counted,kept] at more
      simp at more
  · rintro ⟨rfl,rfl⟩
    refine ⟨?_,?_,?_,?_⟩
    · intro file ref₁ other
      rw [returned] at other
      cases other
    · intro ref₁ other
      rw [returned] at other
      cases other
      rfl
    · intro fOpen file ref₁ opened
      rw [fss_open_none returned] at opened
      cases opened
    · intro fOpen ref₁ failed
      rw [fss_open_none returned] at failed
      cases failed
      rfl

end Walk

/-- A root 0 with a directory `a`, which has a file `b`. -/
def nested : Files (Fin 3) where
  type f := if f = 2 then .FSS_FILE_TYPE_NORMAL else .FSS_FILE_TYPE_DIR
  parent f := if f = 0 then none else some (f - 1)
  has_private f := f = 0
  rooted := by decide
  fss_volumn_search id := if id = ['0',':'] then some 0 else none
  children _ _ f := if f = 0 then [(['a'],1)] else if f = 1 then [(['b'],2)] else []
  import_file _ _ := true

theorem balanced_iff_missing : Balanced nested (some 0) ['c'] (fun _ => 0) ↔ NothingFound nested (some 0) ['c'] := by
  have returned : fss_loop_file nested (some 0) ['c'] (fun _ => 0) = .ok (none,fun _ => 0) := by
    show loop_file_l1 nested 0 ['c'] (fun _ => 0) = _
    rw [loop_file_l1,if_neg (by decide)]
    rfl
  exact balanced_iff returned

/-- The directory on the way to a file keeps its reference when the file is closed, and the file keeps its own. -/
theorem directory_stays_counted : ∃ ref', fss_open nested true (some 0) ['a','/','b'] (fun _ => 0) = .ok (some 2,ref') ∧
    (fss_close 2 ref') 1 = 1 ∧ (fss_close 2 ref') 2 = 1 ∧ ¬Balanced nested (some 0) ['a','/','b'] (fun _ => 0) := by
  have returned : fss_loop_file nested (some 0) ['a','/','b'] (fun _ => 0) =
      .ok (some 2,FSS_FILE_INC_REF_COUNTER 2 (FSS_FILE_INC_REF_COUNTER 1 (fun _ => 0))) := by
    show loop_file_l1 nested 0 ['a','/','b'] (fun _ => 0) = _
    rw [loop_file_l1,if_neg (by decide)]
    show loop_file_l1 nested 1 ['/','b'] (FSS_FILE_INC_REF_COUNTER 1 (fun _ => 0)) = _
    rw [loop_file_l1,if_pos (by decide),loop_file_l1,if_neg (by decide)]
    show loop_file_l1 nested 2 [] (FSS_FILE_INC_REF_COUNTER 2 (FSS_FILE_INC_REF_COUNTER 1 (fun _ => 0))) = _
    rw [loop_file_l1]
  refine ⟨_,fss_open_some returned,rfl,rfl,?_⟩
  intro balanced
  have kept := balanced.closed true 2 _ (fss_open_some returned)
  exact absurd (congrFun kept 1) (by decide)

end GridOS.FileRefs
