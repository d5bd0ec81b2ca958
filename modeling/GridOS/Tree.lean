import Mathlib.Tactic
import Mathlib.Data.List.TakeWhile

/-!
Path resolution in the file tree, `source/subsystem/fs/tree.c`, on directories whose entries are
all in memory, without an action to call. A string is the list of its characters in front of the
terminating zero, and `file_name + iStart` the rest of it. What the code must not do ends the
resolution with a `Fault`.
-/
namespace GridOS.Tree

inductive fss_file_type
  | FSS_FILE_TYPE_NORMAL
  | FSS_FILE_TYPE_DIR
  deriving DecidableEq

/-- `child_head` is that of `t.dir` and means nothing in a file of another type. -/
structure fss_file (ι : Type) where
  name : List Char
  type : fss_file_type
  parent : Option ι
  child_head : List ι

/-- The files `ι`, and the volumns with their root directories. A file in a directory may have any
    name, also one of the two special ones. -/
structure Files (ι : Type) where
  file : ι → fss_file ι
  volumns : List (List Char × ι)

inductive Fault
  /-- The directory fields of a file that is no directory. -/
  | not_a_directory
  /-- The reference counter of no file. -/
  | null_file
  /-- A character behind the end of `interval`. -/
  | interval_overflow
  deriving DecidableEq

def FSS_VOLUMN_LABEL_CHECK_LEN : Nat := 5

def separator (c : Char) : Bool := c = '/' ∨ c = '\\'
def colon (c : Char) : Bool := c = ':' ∨ c = ';'

section Code
variable {ι : Type} (t : Files ι)

def isDir (f : ι) : Prop := (t.file f).type = .FSS_FILE_TYPE_DIR

instance (f : ι) : Decidable (isDir t f) := inferInstanceAs (Decidable (_ = _))

/-- `name` is `file_name + iStart`, and `len` is `iEnd - iStart`. -/
def get_file_by_name (current_path : ι) (name : List Char) (len : Nat) : Except Fault (Option ι) :=
  -- the lock of the directory is taken first
  if ¬isDir t current_path then .error .not_a_directory else
  if name = ['.'] then .ok (some current_path) else
  if name = ['.','.'] then
    match (t.file current_path).parent with
    | some parent => .ok (some parent)
    | none => .error .null_file
  else .ok ((t.file current_path).child_head.find? (fun f =>
    (t.file f).name.take len = name.take len ∧ (t.file f).name.length = len))

/-- Whether the import succeeds: the entries of a directory are in memory already. -/
def import_file (current_path : ι) : Bool := isDir t current_path

/-- The code from `loop_again` on. -/
def loop_again (current_path : ι) (name : List Char) (len : Nat) (looped : Bool) :
    Except Fault (Option ι) := do
  if let some file ← get_file_by_name t current_path name len then return some file
  if let some file ← get_file_by_name t current_path name len then return some file
  if ¬looped ∧ (t.file current_path).child_head = [] ∧ import_file t current_path then
    -- and once more with `looped` set
    if let some file ← get_file_by_name t current_path name len then return some file
    get_file_by_name t current_path name len
  else return none

def lockup_file_in_this_dir (current_path : ι) (name : List Char) (len : Nat) : Except Fault (Option ι) :=
  loop_again t current_path name len false

/-- The code from `loop_file_l1` on; `path` is `path_string + i`. -/
def loop_file_l1 (cur_dir : ι) (path : List Char) : Except Fault (Option ι) :=
  match path with
  | [] => .ok (some cur_dir)
  | c :: rest =>
    if separator c then loop_file_l1 cur_dir rest else
    match lockup_file_in_this_dir t cur_dir (c :: rest) ((c :: rest).takeWhile (fun c => ¬separator c)).length with
    | .error fault => .error fault
    | .ok none => .ok none
    | .ok (some file) => loop_file_l1 file (rest.dropWhile (fun c => ¬separator c))
termination_by path.length
decreasing_by
  · simp
  · exact Nat.lt_succ_of_le (List.dropWhile_sublist _).length_le

def fss_volumn_search (id : List Char) : Option ι := (t.volumns.find? (fun v => v.1 = id)).map Prod.snd

def get_unix : Option ι := fss_volumn_search t ['0',':']

/-- The `for` loops over a label: where the first of `n` characters from `i` on is that ends one. -/
def label_end (path : List Char) : Nat → Nat → Nat
  | 0, i => i
  | n+1, i => match path[i]? with
    | none => i
    | some c => if separator c ∨ colon c then i else label_end path n (i + 1)

/-- The label ends at `i`. -/
def ends_label (path : List Char) (i : Nat) : Bool :=
  (path[i]?).any colon ∧ (path[i + 1]?).all separator

/-- The code from `loop_file_l2` on when a label ends at `i`. -/
def loop_file_l2 (path : List Char) (i : Nat) : Except Fault (Option ι) :=
  let label := (path.take (i + 1)).filter (fun c => ¬separator c)
  let interval := label.dropLast ++ [':']
  if interval.length + 1 > FSS_VOLUMN_LABEL_CHECK_LEN then .error .interval_overflow else
  match fss_volumn_search t interval with
  | none => .ok none
  | some root_dir => loop_file_l1 t root_dir (path.drop (i + 1))

def fss_loop_file (current_path : ι) (path_string : List Char) : Except Fault (Option ι) :=
  if path_string.head? = some '/' then
    let i := label_end path_string FSS_VOLUMN_LABEL_CHECK_LEN 1
    if ends_label path_string i then loop_file_l2 t path_string i else
    match get_unix t with
    | none => .ok none
    | some root_dir => loop_file_l1 t root_dir (path_string.drop 1)
  else
    let i := label_end path_string FSS_VOLUMN_LABEL_CHECK_LEN 0
    if ends_label path_string i then loop_file_l2 t path_string i else loop_file_l1 t current_path path_string

end Code

/-! ### What a path means -/

/-- The names between the separators. -/
def components (path : List Char) : List (List Char) := (path.splitOnP separator).filter (fun name => name ≠ [])

/-- Whether a separator ends the path. -/
def trailing (path : List Char) : Bool := path.getLast?.any separator

def inLabel (c : Char) : Bool := ¬(separator c ∨ colon c)

/-- The label that a string begins with, and what follows its colon. -/
def labelled (body : List Char) : Option (List Char × List Char) :=
  let label := body.takeWhile inLabel
  match body.dropWhile inLabel with
  | c :: rest => if colon c ∧ label.length ≤ FSS_VOLUMN_LABEL_CHECK_LEN ∧ rest.head?.all separator then
      some (label ++ [':'],rest) else none
  | [] => none

/-- The label in front of a path, with or without a `/` before it, and what follows it. -/
def volumeLabel (path : List Char) : Option (List Char × List Char) :=
  labelled (if path.head? = some '/' then path.tail else path)

section Meaning
variable {ι : Type} (t : Files ι)

def up (f : ι) : ι := ((t.file f).parent).getD f

def child (d : ι) (name : List Char) : Option ι := (t.file d).child_head.find? (fun f => (t.file f).name = name)

/-- The file that the components lead to from `f`. -/
def resolve : ι → List (List Char) → Option ι
  | f, [] => some f
  | f, name :: names =>
    if ¬isDir t f then none else
    if name = ['.'] then resolve f names else
    if name = ['.','.'] then resolve (up t f) names else
    match child t f name with
    | some g => resolve g names
    | none => none

/-- The file that a path means: one in the labelled volumn, one from the root, or one from the
    current directory. -/
def resolvePath (current_path : ι) (path : List Char) : Option ι :=
  match volumeLabel path with
  | some (id,rest) => (fss_volumn_search t id).bind (fun root_dir => resolve t root_dir (components rest))
  | none =>
    if path.head? = some '/' then (get_unix t).bind (fun root_dir => resolve t root_dir (components path))
    else resolve t current_path (components path)

/-- From `f` on the names lead to `goal` when a special name is one only at the end of the path and a
    plain name before it. -/
def LeadsPlainly (ends : Bool) (goal : Option ι) : ι → List (List Char) → Prop
  | f, [] => goal = some f
  | f, name :: names => isDir t f ∧
    if name = ['.'] ∧ names = [] ∧ ends = true then goal = some f
    else if name = ['.','.'] ∧ names = [] ∧ ends = true then (t.file f).parent ≠ none ∧ goal = (t.file f).parent
    else match child t f name with
      | some g => LeadsPlainly ends goal g names
      | none => goal = none

/-- A special name in the middle of a path to `goal` does no harm: no child has it and there is no
    `goal`, or the names behind it lead from that child to `goal`. -/
def Harmless (ends : Bool) (goal : Option ι) (f : ι) (name : List Char) (names : List (List Char)) : Prop :=
  match child t f name with
  | some g => LeadsPlainly t ends goal g names
  | none => goal = none

/-- The code goes right from `f` on: every file it looks into is a directory; and one of the special
    names ends the path and does not leave the root, or does no harm. -/
def GoesRight (ends : Bool) : ι → List (List Char) → Prop
  | _, [] => True
  | f, name :: names => isDir t f ∧
    if name = ['.'] then (names = [] ∧ ends = true) ∨ Harmless t ends (resolve t f names) f name names
    else if name = ['.','.'] then
      if names = [] ∧ ends = true then (t.file f).parent ≠ none
      else Harmless t ends (resolve t (up t f) names) f name names
    else ∀ g, child t f name = some g → GoesRight ends g names

/-- The label fits `interval`, and the code goes right from where the path starts. -/
def PathGoesRight (current_path : ι) (path : List Char) : Prop :=
  match volumeLabel path with
  | some (id,rest) => id.length < FSS_VOLUMN_LABEL_CHECK_LEN ∧
      ∀ root_dir, fss_volumn_search t id = some root_dir → GoesRight t (¬trailing rest) root_dir (components rest)
  | none =>
    if path.head? = some '/' then
      ∀ root_dir, get_unix t = some root_dir → GoesRight t (¬trailing path) root_dir (components path)
    else GoesRight t (¬trailing path) current_path (components path)

end Meaning

/-! ### The components of a path -/

section Components
variable {c : Char} {path rest : List Char}

theorem components_separator (sep : separator c = true) : components (c :: rest) = components rest := by
  simp [components,List.splitOnP_cons_eq_if_modifyHead,sep]

/-- A path that begins with a name: the name, and what is behind it. -/
theorem name_split (rest : List Char) (name : separator c = false) : ∃ first after, c :: rest = first ++ after ∧
    first ≠ [] ∧ (∀ d ∈ first, separator d = false) ∧ ∀ d ∈ after.head?, separator d = true := by
  refine ⟨(c :: rest).takeWhile (fun c => ¬separator c),rest.dropWhile (fun c => ¬separator c),?_,?_,?_,?_⟩
  · rw [List.takeWhile_cons_of_pos (by simpa using name),List.cons_append,List.takeWhile_append_dropWhile]
  · rw [List.takeWhile_cons_of_pos (by simpa using name)]
    exact List.cons_ne_nil _ _
  · intro d member
    simpa using List.mem_takeWhile_imp member
  · intro d member
    have stops := List.head?_dropWhile_not (fun c => decide ¬separator c = true) rest
    rw [Option.mem_def.mp member] at stops
    simpa using stops

theorem components_name {first after : List Char} (some_name : first ≠ []) (inside : ∀ d ∈ first, separator d = false)
    (behind : ∀ d ∈ after.head?, separator d = true) : components (first ++ after) = first :: components after := by
  cases after with
  | nil =>
    rw [List.append_nil,components,List.splitOnP_eq_singleton inside]
    simp [components,some_name]
  | cons d after =>
    have sep := behind d rfl
    rw [components_separator sep,components,List.splitOnP_append_cons_of_forall_mem inside d sep]
    simp [components,some_name]

/-- Only separators are left when no component is. -/
theorem trailing_of_no_components (some_char : path ≠ []) (nothing : components path = []) : trailing path = true := by
  induction path with
  | nil => exact absurd rfl some_char
  | cons c path ih =>
    have sep : separator c = true := by
      by_contra name
      obtain ⟨first,after,split,some_name,inside,behind⟩ := name_split path (Bool.eq_false_iff.mpr name)
      rw [split,components_name some_name inside behind] at nothing
      cases nothing
    rw [components_separator sep] at nothing
    cases path with
    | nil => simp [trailing,sep]
    | cons d path =>
      have rest := ih (List.cons_ne_nil _ _) nothing
      simpa [trailing,List.getLast?_cons_cons] using rest

theorem trailing_append {first after : List Char} (inside : ∀ d ∈ first, separator d = false) :
    trailing (first ++ after) = trailing after := by
  cases after with
  | nil =>
    rw [List.append_nil]
    cases last : first.getLast? with
    | none => simp [trailing,last]
    | some d => simp [trailing,last,inside d (List.mem_of_getLast? last)]
  | cons d after =>
    have last : (first ++ d :: after).getLast? = (d :: after).getLast? := by
      rw [List.getLast?_append_of_ne_nil first (List.cons_ne_nil d after)]
    rw [trailing,last,trailing]

end Components

/-! ### The walk along a path -/

section Walk
variable {ι : Type} {t : Files ι} {cur : ι}

/-- Looking twice finds what looking once does, and an import finds nothing new. -/
theorem lockup_eq (name : List Char) (len : Nat) :
    lockup_file_in_this_dir t cur name len = get_file_by_name t cur name len := by
  rw [lockup_file_in_this_dir,loop_again]
  cases found : get_file_by_name t cur name len with
  | error fault => rfl
  | ok file =>
    cases file with
    | some f => rfl
    | none =>
      show (if _ then _ else _) = _
      split <;> rfl

/-- The comparison of a name with the first characters of a string. -/
theorem name_matches {name first after : List Char} :
    (name.take first.length = (first ++ after).take first.length ∧ name.length = first.length) ↔ name = first := by
  rw [List.take_left']
  · constructor
    · rintro ⟨taken,length⟩
      rwa [List.take_of_length_le (Nat.le_of_eq length)] at taken
    · intro same
      rw [same]
      exact ⟨List.take_length,rfl⟩
  · rfl

theorem child_eq {first after : List Char} : (t.file cur).child_head.find? (fun f =>
    (t.file f).name.take first.length = (first ++ after).take first.length ∧ (t.file f).name.length = first.length) =
    child t cur first := by
  rw [child]
  congr 1
  funext f
  exact decide_eq_decide.mpr name_matches

/-- What is found for the first name of a path. -/
theorem get_first {first after : List Char} (directory : isDir t cur)
    (behind : ∀ d ∈ after.head?, separator d = true) :
    get_file_by_name t cur (first ++ after) first.length =
      if first = ['.'] ∧ after = [] then .ok (some cur)
      else if first = ['.','.'] ∧ after = [] then
        match (t.file cur).parent with
        | some parent => .ok (some parent)
        | none => .error .null_file
      else .ok (child t cur first) := by
  have whole : ∀ {name : List Char}, (∀ d ∈ name, separator d = false) →
      (first ++ after = name ↔ first = name ∧ after = []) := by
    intro name plain
    constructor
    · intro same
      have nothing : after = [] := by
        cases after with
        | nil => rfl
        | cons d after =>
          have sep := behind d rfl
          rw [plain d (by rw [← same]; simp)] at sep
          cases sep
      rw [nothing,List.append_nil] at same
      exact ⟨same,nothing⟩
    · rintro ⟨rfl,rfl⟩
      exact List.append_nil _
  have one : first ++ after = ['.'] ↔ first = ['.'] ∧ after = [] := whole (by simp [separator])
  have two : first ++ after = ['.','.'] ↔ first = ['.','.'] ∧ after = [] := whole (by simp [separator])
  rw [get_file_by_name,if_neg (not_not.mpr directory),child_eq]
  simp only [one,two]

/-- The walk over the first name of a path. -/
theorem loop_name {first after : List Char} (some_name : first ≠ []) (inside : ∀ d ∈ first, separator d = false)
    (behind : ∀ d ∈ after.head?, separator d = true) : loop_file_l1 t cur (first ++ after) =
    (get_file_by_name t cur (first ++ after) first.length).bind
      (fun found => found.elim (.ok none) (fun file => loop_file_l1 t file after)) := by
  cases first with
  | nil => exact absurd rfl some_name
  | cons c first =>
    have plain : separator c = false := inside c List.mem_cons_self
    have stops : after.takeWhile (fun c => ¬separator c) = [] ∧ after.dropWhile (fun c => ¬separator c) = after := by
      cases after with
      | nil => exact ⟨rfl,rfl⟩
      | cons d after => simp [behind d rfl]
    have taken : ((c :: first) ++ after).takeWhile (fun c => ¬separator c) = c :: first := by
      rw [List.takeWhile_append_of_pos (by simpa using inside),stops.1,List.append_nil]
    have dropped : (first ++ after).dropWhile (fun c => ¬separator c) = after := by
      rw [List.dropWhile_append_of_pos (by simpa using fun d member => inside d (List.mem_cons_of_mem c member)),stops.2]
    rw [List.cons_append] at taken ⊢
    rw [loop_file_l1,if_neg (by simp [plain]),lockup_eq,taken,dropped]
    cases get_file_by_name t cur (c :: (first ++ after)) (c :: first).length with
    | error fault => rfl
    | ok found => cases found <;> rfl

/-- A step of the walk, when the rest of it leads on plainly. -/
theorem walk_name {first after : List Char} (some_name : first ≠ []) (inside : ∀ d ∈ first, separator d = false)
    (behind : ∀ d ∈ after.head?, separator d = true) {goal : Option ι}
    (ih : ∀ f, loop_file_l1 t f after = .ok goal ↔ LeadsPlainly t (¬trailing after) goal f (components after)) :
    loop_file_l1 t cur (first ++ after) = .ok goal ↔
      LeadsPlainly t (¬trailing after) goal cur (first :: components after) := by
  rw [loop_name some_name inside behind]
  by_cases directory : isDir t cur
  · -- nothing behind the name is the same as no component behind it and no separator
    have nothing : after = [] ↔ components after = [] ∧ decide (¬trailing after = true) = true := by
      constructor
      · rintro rfl
        exact ⟨by simp [components],by simp [trailing]⟩
      · rintro ⟨none_left,plain⟩
        by_contra some_left
        rw [trailing_of_no_components some_left none_left] at plain
        cases plain
    rw [get_first directory behind,LeadsPlainly]
    simp only [← nothing,directory,true_and]
    by_cases dot : first = ['.'] ∧ after = []
    · rw [if_pos dot,if_pos dot,dot.2]
      simp [loop_file_l1,Except.bind,eq_comm]
    rw [if_neg dot,if_neg dot]
    by_cases dots : first = ['.','.'] ∧ after = []
    · rw [if_pos dots,if_pos dots,dots.2]
      cases (t.file cur).parent with
      | none => simp [Except.bind]
      | some parent => simp [loop_file_l1,Except.bind,eq_comm]
    rw [if_neg dots,if_neg dots]
    cases child t cur first with
    | none => simp [Except.bind,eq_comm]
    | some g => exact ih g
  · rw [get_file_by_name,if_pos directory]
    simp [LeadsPlainly,directory,Except.bind]

/-- The walk takes a special name for one at the end of the path only. -/
theorem walk_plainly (goal : Option ι) (path : List Char) (cur : ι) :
    loop_file_l1 t cur path = .ok goal ↔ LeadsPlainly t (¬trailing path) goal cur (components path) := by
  induction length : path.length using Nat.strong_induction_on generalizing path cur with
  | _ n ih =>
    cases path with
    | nil =>
      rw [loop_file_l1,Except.ok.injEq]
      exact eq_comm
    | cons c rest =>
      subst length
      cases sep : separator c with
      | true =>
        have step := ih rest.length (by simp) rest cur rfl
        rw [loop_file_l1,if_pos sep,components_separator sep,step]
        cases rest with
        | nil => simp [components,LeadsPlainly]
        | cons d rest => rw [trailing,trailing,List.getLast?_cons_cons]
      | false =>
        obtain ⟨first,after,split,some_name,inside,behind⟩ := name_split rest sep
        have shorter : after.length < (c :: rest).length := by
          rw [split,List.length_append]
          exact Nat.lt_add_of_pos_left (List.length_pos_iff.mpr some_name)
        rw [split,components_name some_name inside behind,trailing_append inside]
        exact walk_name some_name inside behind (fun f => ih after.length shorter after f rfl)

/-- Going right is leading plainly to the file that the components lead to. -/
theorem leads_plainly_iff (ends : Bool) (names : List (List Char)) (f : ι) :
    LeadsPlainly t ends (resolve t f names) f names ↔ GoesRight t ends f names := by
  induction names generalizing f with
  | nil => simp [LeadsPlainly,GoesRight,resolve]
  | cons name names ih =>
    rw [LeadsPlainly,GoesRight,resolve]
    refine and_congr_right fun directory => ?_
    rw [if_neg (not_not.mpr directory)]
    by_cases dot : name = ['.']
    · simp only [dot,true_and,if_true,Harmless]
      by_cases last : names = [] ∧ ends = true
      · simp [last,resolve]
      · simp [last]
    rw [if_neg dot,if_neg dot]
    simp only [dot,false_and,if_false]
    by_cases dots : name = ['.','.']
    · simp only [dots,true_and,if_true,Harmless]
      by_cases last : names = [] ∧ ends = true
      · cases parent : (t.file f).parent with
        | none => simp [last]
        | some p => simp [last,resolve,up,parent]
      · simp [last]
    simp only [dots,false_and,if_false]
    cases child t f name with
    | none => simp
    | some g => simpa using ih g

/-- The walk finds the file that the components lead to exactly when it goes right. -/
theorem walk_iff (path : List Char) (cur : ι) : loop_file_l1 t cur path = .ok (resolve t cur (components path)) ↔
    GoesRight t (¬trailing path) cur (components path) :=
  (walk_plainly _ path cur).trans (leads_plainly_iff _ _ cur)

end Walk

/-! ### The label in front of a path -/

section Label
variable (path : List Char) (start : Nat)

/-- The loop over a label ends behind it, or after `n` characters. -/
theorem label_end_eq (n i : Nat) : label_end path n i =
    i + min n ((path.drop i).takeWhile inLabel).length := by
  induction n generalizing i with
  | zero => simp [label_end]
  | succ n ih =>
    rw [label_end]
    cases here : path[i]? with
    | none => simp [List.drop_eq_nil_of_le (List.getElem?_eq_none_iff.mp here)]
    | some c =>
      obtain ⟨inside,rfl⟩ := List.getElem?_eq_some_iff.mp here
      rw [List.drop_eq_getElem_cons inside]
      by_cases ends : separator path[i] ∨ colon path[i]
      · rw [List.takeWhile_cons_of_neg (by simpa [inLabel] using Or.resolve_left ends)]
        simp [ends]
      · rw [List.takeWhile_cons_of_pos (by simpa [inLabel] using ends)]
        simp only [ends,if_false,ih,List.length_cons]
        omega

theorem separator_of_colon {c : Char} (is_colon : colon c = true) : separator c = false := by
  simp only [colon,decide_eq_true_eq] at is_colon
  rcases is_colon with rfl | rfl
  · decide
  · decide

/-- The parts of a string with a label. -/
theorem labelled_parts {body id rest : List Char} (has_label : labelled body = some (id,rest)) :
    ∃ label c, body = label ++ c :: rest ∧ id = label ++ [':'] ∧ (∀ d ∈ label, inLabel d) ∧ colon c ∧
      label = body.takeWhile inLabel ∧
      label.length ≤ FSS_VOLUMN_LABEL_CHECK_LEN ∧ rest.head?.all separator := by
  rw [labelled] at has_label
  cases behind : body.dropWhile inLabel with
  | nil => simp [behind] at has_label
  | cons c after =>
    simp only [behind] at has_label
    split at has_label
    case isTrue fits =>
      cases has_label
      refine ⟨_,c,?_,rfl,?_,fits.1,rfl,fits.2⟩
      · rw [← behind,List.takeWhile_append_dropWhile]
      · intro d member
        exact List.mem_takeWhile_imp member
    case isFalse => cases has_label

/-- What is copied of a string up to the colon behind the label. -/
theorem label_copied {label rest : List Char} {c : Char} (body : path.drop start = label ++ c :: rest)
    (plain : ∀ d ∈ label, inLabel d) (is_colon : colon c) (front : ∀ c ∈ path.take start, separator c = true) :
    (path.take (start + label.length + 1)).filter (fun c => ¬separator c) = label ++ [c] := by
  have first_part : path.take (start + label.length + 1) = path.take start ++ (label ++ [c]) := by
    rw [Nat.add_assoc,List.take_add,body,List.take_length_add_append]
    simp
  have no_front : (path.take start).filter (fun c => ¬separator c) = [] := by
    simpa using front
  have all_label : (label ++ [c]).filter (fun c => ¬separator c) = label ++ [c] := by
    refine List.filter_eq_self.mpr (fun d member => ?_)
    rcases List.mem_append.mp member with in_label | last
    · have plain := plain d in_label
      simp [inLabel] at plain
      simp [plain.1]
    · rw [List.mem_singleton.mp last]
      simp [separator_of_colon is_colon]
  rw [first_part,List.filter_append,no_front,all_label,List.nil_append]

/-- Where the loops end at a label, and what is copied of it and left behind it. -/
theorem label_seen {id rest : List Char} (has_label : labelled (path.drop start) = some (id,rest))
    (front : ∀ c ∈ path.take start, separator c = true) : ∃ label c, id = label ++ [':'] ∧
      label_end path FSS_VOLUMN_LABEL_CHECK_LEN start = start + label.length ∧
      ends_label path (start + label.length) = true ∧
      (path.take (start + label.length + 1)).filter (fun c => ¬separator c) = label ++ [c] ∧
      path.drop (start + label.length + 1) = rest := by
  obtain ⟨label,c,body,rfl,plain,is_colon,taken,short,ends⟩ := labelled_parts has_label
  refine ⟨label,c,rfl,?_,?_,label_copied path start body plain is_colon front,?_⟩
  · rw [label_end_eq,← taken,Nat.min_eq_right short]
  · have here : path[start + label.length]? = some c := by
      rw [← List.getElem?_drop,body,List.getElem?_append_right (Nat.le_refl _)]
      simp
    have next : path[start + label.length + 1]? = rest.head? := by
      rw [Nat.add_assoc,← List.getElem?_drop,body,List.getElem?_append_right (Nat.le_succ _)]
      simp [List.head?_eq_getElem?]
    rw [ends_label,here,next]
    simp [is_colon,ends]
  · rw [Nat.add_assoc,← List.drop_drop,body]
    simp

/-- With a label the code looks its volumn up, and goes on behind it. -/
theorem loop_file_l2_eq {ι : Type} {t : Files ι} {id rest : List Char}
    (has_label : labelled (path.drop start) = some (id,rest)) (front : ∀ c ∈ path.take start, separator c = true) :
    ends_label path (label_end path FSS_VOLUMN_LABEL_CHECK_LEN start) = true ∧
    loop_file_l2 t path (label_end path FSS_VOLUMN_LABEL_CHECK_LEN start) =
      if id.length + 1 > FSS_VOLUMN_LABEL_CHECK_LEN then .error .interval_overflow else
      match fss_volumn_search t id with
      | none => .ok none
      | some root_dir => loop_file_l1 t root_dir rest := by
  obtain ⟨label,c,rfl,at_colon,ends,front_part,behind⟩ := label_seen path start has_label front
  rw [at_colon]
  refine ⟨ends,?_⟩
  rw [loop_file_l2,front_part,behind]
  simp

/-- Without a label the code does not see one. -/
theorem ends_label_false (no_label : labelled (path.drop start) = none) :
    ends_label path (label_end path FSS_VOLUMN_LABEL_CHECK_LEN start) = false := by
  have behind (k : Nat) : path[start + ((path.drop start).takeWhile inLabel).length + k]? =
      ((path.drop start).dropWhile inLabel)[k]? := by
    rw [Nat.add_assoc,← List.getElem?_drop]
    nth_rewrite 1 [← List.takeWhile_append_dropWhile (p := inLabel) (l := path.drop start)]
    rw [List.getElem?_append_right (Nat.le_add_right _ _),Nat.add_sub_cancel_left]
  rw [label_end_eq]
  by_cases short : ((path.drop start).takeWhile inLabel).length ≤ FSS_VOLUMN_LABEL_CHECK_LEN
  · have here := behind 0
    have next := behind 1
    rw [Nat.min_eq_right short,ends_label]
    rw [Nat.add_zero] at here
    rw [here,next]
    rw [labelled] at no_label
    cases after : (path.drop start).dropWhile inLabel with
    | nil => simp
    | cons c rest =>
      simp only [after,short,true_and] at no_label
      split at no_label
      case isTrue => cases no_label
      case isFalse not_label => simpa [List.head?_eq_getElem?] using not_label
  · -- the loop ends inside of the label
    have inside : FSS_VOLUMN_LABEL_CHECK_LEN < ((path.drop start).takeWhile inLabel).length := Nat.lt_of_not_le short
    have here : path[start + FSS_VOLUMN_LABEL_CHECK_LEN]? =
        some ((path.drop start).takeWhile inLabel)[FSS_VOLUMN_LABEL_CHECK_LEN] := by
      rw [← List.getElem?_drop]
      nth_rewrite 1 [← List.takeWhile_append_dropWhile (p := inLabel) (l := path.drop start)]
      rw [List.getElem?_append_left inside,List.getElem?_eq_getElem inside]
    have plain := List.mem_takeWhile_imp (List.getElem_mem inside)
    rw [Nat.min_eq_left inside.le,ends_label,here]
    simp [inLabel] at plain
    simp [plain.2]

end Label

section Resolution
variable {ι : Type} (t : Files ι) (current_path : ι) (path : List Char)

/-- What `fss_loop_file` does, in terms of the label. -/
theorem fss_loop_file_eq : fss_loop_file t current_path path =
    match volumeLabel path with
    | some (id,rest) =>
      if id.length + 1 > FSS_VOLUMN_LABEL_CHECK_LEN then .error .interval_overflow else
      match fss_volumn_search t id with
      | none => .ok none
      | some root_dir => loop_file_l1 t root_dir rest
    | none =>
      if path.head? = some '/' then
        match get_unix t with
        | none => .ok none
        | some root_dir => loop_file_l1 t root_dir path
      else loop_file_l1 t current_path path := by
  rw [fss_loop_file,volumeLabel]
  by_cases rooted : path.head? = some '/'
  · obtain ⟨rest,rfl⟩ : ∃ rest, path = '/' :: rest := by
      cases path with
      | nil => cases rooted
      | cons c rest => exact ⟨rest,by rw [Option.some.inj rooted]⟩
    have slash (root_dir : ι) : loop_file_l1 t root_dir ('/' :: rest) = loop_file_l1 t root_dir rest := by
      rw [loop_file_l1,if_pos (by decide)]
    simp only [rooted,if_true,List.tail_cons]
    cases label : labelled rest with
    | none =>
      simp only [ends_label_false ('/' :: rest) 1 label]
      simp [slash]
    | some parts =>
      obtain ⟨ends,goes⟩ := loop_file_l2_eq (t := t) ('/' :: rest) 1 label (by simp [separator])
      simp only [ends,goes,if_true]
  · simp only [rooted,if_false]
    cases label : labelled path with
    | none => simp [ends_label_false path 0 label]
    | some parts =>
      obtain ⟨ends,goes⟩ := loop_file_l2_eq (t := t) path 0 label (by simp)
      simp only [ends,goes,if_true]

/-- `fss_loop_file` finds the file that the path means exactly when the label in front of it fits
    `interval` and the walk goes right. -/
theorem fss_loop_file_iff :
    fss_loop_file t current_path path = .ok (resolvePath t current_path path) ↔ PathGoesRight t current_path path := by
  rw [fss_loop_file_eq,resolvePath,PathGoesRight]
  cases volumeLabel path with
  | some parts =>
    obtain ⟨id,rest⟩ := parts
    by_cases fits : id.length < FSS_VOLUMN_LABEL_CHECK_LEN
    · simp only [fits,true_and]
      rw [if_neg (Nat.not_lt.mpr fits)]
      cases fss_volumn_search t id with
      | none => simp
      | some root_dir => simpa using walk_iff rest root_dir
    · have overflow : id.length + 1 > FSS_VOLUMN_LABEL_CHECK_LEN := Nat.lt_succ_of_le (Nat.le_of_not_lt fits)
      simp [overflow,fits]
  | none =>
    by_cases rooted : path.head? = some '/'
    · simp only [rooted,if_true]
      cases get_unix t with
      | none => simp
      | some root_dir => simpa using walk_iff path root_dir
    · simp only [rooted,if_false]
      exact walk_iff path current_path

end Resolution

/-- A root directory with a plain file `a` in it. -/
def oneFile : Files Bool where
  file f := if f then ⟨['a'],.FSS_FILE_TYPE_NORMAL,some false,[]⟩ else ⟨['r'],.FSS_FILE_TYPE_DIR,none,[true]⟩
  volumns := [(['0',':'],false)]

/-- `./a` means `a` and is not found, since `.` is compared with the whole rest of the string; `a/b`
    and `..` mean nothing and the root, and the code takes the lock of a plain file and counts a
    reference to no file. -/
theorem special_paths_go_wrong : (fss_loop_file oneFile false ['.','/','a'] = .ok none ∧
      resolvePath oneFile false ['.','/','a'] = some true) ∧
    (fss_loop_file oneFile false ['a','/','b'] = .error .not_a_directory ∧
      resolvePath oneFile false ['a','/','b'] = none) ∧
    (fss_loop_file oneFile false ['.','.'] = .error .null_file ∧
      resolvePath oneFile false ['.','.'] = some false) := by
  refine ⟨⟨?_,by decide⟩,⟨?_,by decide⟩,⟨?_,by decide⟩⟩
  all_goals
    rw [fss_loop_file_eq]
    simp [volumeLabel,labelled,inLabel,separator,colon,loop_file_l1,lockup_eq,get_file_by_name,isDir,oneFile]

end GridOS.Tree
