import GridOS.Tree

/-!
What `fss_loop_file` of `source/subsystem/fs/tree.c` reads of the path, and where it writes the label in front of it. A
string is the memory from its first character on. The characters are read one by one up to the terminating zero and not
behind it; `interval` has room for five, while a label of five and its colon are copied.
-/
namespace GridOS.PathReads
open GridOS.Tree (separator colon FSS_VOLUMN_LABEL_CHECK_LEN volumeLabel labelled)

abbrev Str : Type := Nat → Char

/-- The characters with a zero behind them. -/
def str (s : List Char) : Str := fun i => s.getD i '\x00'

inductive Access
  /-- `path_string[i]`. -/
  | path (i : Nat)
  /-- `interval[k]`. -/
  | interval (k : Int)
  deriving DecidableEq

/-- A result, and the accesses on the way to it. -/
def Logged (α : Type) : Type := α × List Access

instance : Monad Logged where
  pure a := (a,[])
  bind m f := ((f m.1).1,m.2 ++ (f m.1).2)

def char (path : Str) (i : Nat) : Logged Char := (path i,[.path i])
def touch (k : Int) : Logged Unit := ((),[.interval k])

inductive fss_action_reason
  | LOOP_FILE_END
  | LOOP_NOT_FOUND
  | LOOP_FOUND

/-- What a resolution meets: the root directories of the volumns, if there are any, the files of the directories when they
    are searched for the component at an index of the path, each up to four times, and what the action returns. -/
structure Surroundings (ι : Type) where
  fss_volumn_search : Str → Option ι
  parent : ι → Option ι
  children : Nat → Nat → ι → List (List Char × ι)
  import_file : Nat → ι → Bool
  action : Option (fss_action_reason → ι → Nat → Nat → Option ι)

/-- What a search comes to; the code crashes when it counts a reference to the parent of the root. -/
inductive Got (ι : Type)
  | file (f : ι)
  | nothing
  | crash

section Code
variable {ι : Type} (t : Surroundings ι) (path : Str)

/-- Whether `FSS_STRCMP` of the path from `i` on finds no difference. -/
def strcmp : List Char → Nat → Logged Bool
  | [], i => do
    let c ← char path i
    return c = '\x00'
  | d :: ct, i => do
    let c ← char path i
    if c ≠ d then return false
    if c = '\x00' then return true
    strcmp ct (i + 1)

/-- Whether `FSS_STRNCMP` of a name with the path from `i` on finds no difference. -/
def strncmp : List Char → Nat → Nat → Logged Bool
  | _, _, 0 => return true
  | [], i, _ + 1 => do
    let c ← char path i
    return c = '\x00'
  | d :: cs, i, count + 1 => do
    let c ← char path i
    if d ≠ c then return false
    if d = '\x00' then return true
    strncmp cs (i + 1) count

/-- The loop over the files of a directory. -/
def search_children (iStart iEnd : Nat) : List (List Char × ι) → Logged (Got ι)
  | [] => return .nothing
  | (name,file) :: rest => do
    if (← strncmp path name iStart (iEnd - iStart)) ∧ name.length = iEnd - iStart then return .file file
    search_children iStart iEnd rest

def get_file_by_name (current_path : ι) (iStart iEnd attempt : Nat) : Logged (Got ι) := do
  if ← strcmp path ['.'] iStart then return .file current_path
  if ← strcmp path ['.','.'] iStart then
    match t.parent current_path with
    | some parent => return .file parent
    | none => return .crash
  search_children path iStart iEnd (t.children iStart attempt current_path)

/-- Searches until one of them comes to something. -/
def get_again (current_path : ι) (iStart iEnd : Nat) : List Nat → Logged (Got ι)
  | [] => return .nothing
  | attempt :: attempts => do
    match ← get_file_by_name t path current_path iStart iEnd attempt with
    | .nothing => get_again current_path iStart iEnd attempts
    | got => return got

def lockup_file_in_this_dir (current_path : ι) (iStart iEnd : Nat) : Logged (Got ι) := do
  match ← get_again t path current_path iStart iEnd [0,1] with
  | .nothing =>
    if (t.children iStart 1 current_path).isEmpty ∧ t.import_file iStart current_path then
      get_again t path current_path iStart iEnd [2,3]
    else return .nothing
  | got => return got

/-- The loop over a name; `none` when there is no fuel left. -/
def name_end : Nat → Nat → Logged (Option Nat)
  | 0, _ => return none
  | fuel + 1, i => do
    let c ← char path i
    if c = '\x00' ∨ separator c then return some i
    name_end fuel (i + 1)

/-- Where the walk goes on behind a component. -/
def next_dir (cur_dir : ι) (j i : Nat) (got : Got ι) : Option ι :=
  match got, t.action with
  | .crash, _ => none
  | .nothing, none => none
  | .nothing, some action => action .LOOP_NOT_FOUND cur_dir j i
  | .file file, none => some file
  | .file file, some action => action .LOOP_FOUND file j i

/-- The code from `loop_file_l1` on; `none` also when there is no fuel left. -/
def loop_file_l1 : Nat → ι → Nat → Logged (Option ι)
  | 0, _, _ => return none
  | fuel + 1, cur_dir, i => do
    let c ← char path i
    if c = '\x00' then
      match t.action with
      | none => return some cur_dir
      | some action => return action .LOOP_FILE_END cur_dir 0 0
    match ← name_end path fuel i with
    | none => return none
    | some iEnd =>
      if iEnd = i then loop_file_l1 fuel cur_dir (i + 1) else
      let got ← lockup_file_in_this_dir t path cur_dir i iEnd
      match next_dir t cur_dir i iEnd got with
      | none => return none
      | some file => loop_file_l1 fuel file iEnd

/-- The loops over a label, from `i` on and over at most `n` characters. -/
def label_end : Nat → Nat → Logged Nat
  | 0, i => return i
  | n + 1, i => do
    let c ← char path i
    if c = '\x00' ∨ separator c ∨ colon c then return i
    label_end n (i + 1)

/-- Whether a label ends at `i`. -/
def ends_label (i : Nat) : Logged Bool := do
  let c ← char path i
  if colon c then
    let d ← char path (i + 1)
    return d = '\x00' ∨ separator d
  else return false

/-- The loop that copies `n` characters from `j` on to `interval[k]`. -/
def copy_label : Nat → Nat → Nat → Str → Logged (Nat × Str)
  | 0, _, k, interval => return (k,interval)
  | n + 1, j, k, interval => do
    let c ← char path j
    if separator c then copy_label n (j + 1) k interval else
    touch k
    copy_label n (j + 1) (k + 1) (Function.update interval k c)

/-- The code from `loop_file_l2` on, over an `interval` that holds whatever it holds. -/
def loop_file_l2 (fuel : Nat) (current_path : Option ι) (interval : Str) (i : Nat) : Logged (Option ι) := do
  if ← ends_label path i then
    let (k,interval) ← copy_label path (i + 1) 0 0 interval
    touch (k - 1)
    let interval := if interval (k - 1) = ';' then Function.update interval (k - 1) ':' else interval
    touch k
    match t.fss_volumn_search (Function.update interval k '\x00') with
    | none => return none
    | some root_dir => loop_file_l1 t path fuel root_dir (i + 1)
  else
    match current_path with
    | none => return none
    | some cur_dir => loop_file_l1 t path fuel cur_dir 0

/-- The code from `must_be_unix` on. -/
def must_be_unix (fuel : Nat) : Logged (Option ι) :=
  match t.fss_volumn_search (str ['0',':']) with
  | none => return none
  | some root_dir => loop_file_l1 t path fuel root_dir 1

def fss_loop_file (fuel : Nat) (current_path : Option ι) (interval : Str) : Logged (Option ι) := do
  let c ← char path 0
  if c = '/' then
    let i ← label_end path FSS_VOLUMN_LABEL_CHECK_LEN 1
    let d ← char path i
    if d = '\x00' then must_be_unix t path fuel else
    if ← ends_label path i then loop_file_l2 t path fuel current_path interval i
    else must_be_unix t path fuel
  else
    let i ← label_end path FSS_VOLUMN_LABEL_CHECK_LEN 0
    loop_file_l2 t path fuel current_path interval i

end Code

/-! ### What may be accessed -/

/-- The string has `n` characters in front of the terminating zero. -/
def Terminated (path : Str) (n : Nat) : Prop := path n = '\x00' ∧ ∀ i < n, path i ≠ '\x00'

/-- The characters in front of the terminating zero. -/
def text (path : Str) (n : Nat) : List Char := (List.range n).map path

/-- The access is one of the path up to its terminating zero, or one of `interval`. -/
def Access.Inside (n : Nat) : Access → Prop
  | .path i => i ≤ n
  | .interval k => 0 ≤ k ∧ k < FSS_VOLUMN_LABEL_CHECK_LEN

/-- Every access is. -/
def Within {α : Type} (n : Nat) (m : Logged α) : Prop := ∀ a ∈ m.2, a.Inside n

section Within
variable {α β : Type} {n i : Nat} {path : Str}

theorem within_bind {m : Logged α} {f : α → Logged β} : Within n (m >>= f) ↔ Within n m ∧ Within n (f m.1) :=
  List.forall_mem_append

theorem within_pure (a : α) : Within n (pure a : Logged α) := fun _ none_ => absurd none_ List.not_mem_nil

theorem within_char : Within n (char path i) ↔ i ≤ n := List.forall_mem_singleton

theorem within_touch {k : Int} : Within n (touch k) ↔ 0 ≤ k ∧ k < FSS_VOLUMN_LABEL_CHECK_LEN := List.forall_mem_singleton

/-- A character is read first. -/
theorem within_char_bind {f : Char → Logged β} (inside : i ≤ n) (rest : Within n (f (path i))) :
    Within n (char path i >>= f) := within_bind.mpr ⟨within_char.mpr inside,rest⟩

theorem Terminated.next (ends : Terminated path n) (inside : i ≤ n) (some_char : path i ≠ '\x00') : i + 1 ≤ n := by
  rcases Nat.lt_or_eq_of_le inside with before | rfl
  · exact before
  · exact absurd ends.1 some_char

theorem Terminated.get (ends : Terminated path n) (inside : i ≤ n) :
    (text path n)[i]? = if path i = '\x00' then none else some (path i) := by
  rw [text,List.getElem?_map]
  rcases Nat.lt_or_eq_of_le inside with before | rfl
  · rw [if_neg (ends.2 i before),List.getElem?_range before]
    rfl
  · rw [if_pos ends.1,List.getElem?_eq_none (by simp)]
    rfl

theorem not_zero_of_colon {c : Char} (is_colon : colon c = true) : c ≠ '\x00' := by
  rintro rfl
  exact absurd is_colon (by decide)

theorem ends_label_val (path : Str) (i : Nat) :
    (ends_label path i).1 = (colon (path i) && decide (path (i + 1) = '\x00' ∨ separator (path (i + 1)))) := by
  cases is_colon : colon (path i) with
  | false => simp [ends_label,bind,pure,char,is_colon]
  | true =>
    by_cases zero : path (i + 1) = '\x00'
    · simp [ends_label,bind,pure,char,is_colon,zero]
    · simp [ends_label,bind,pure,char,is_colon,zero]

/-- The characters that are copied. -/
def copied (path : Str) (n j m : Nat) : List Char := (((text path n).drop j).take m).filter (fun c => ¬separator c)

theorem copied_succ {j : Nat} (inside : j < n) (m : Nat) : copied path n j (m + 1) =
    if separator (path j) then copied path n (j + 1) m else path j :: copied path n (j + 1) m := by
  have length : j < (text path n).length := by simpa [text] using inside
  have here : (text path n)[j] = path j := by simp [text]
  rw [copied,List.drop_eq_getElem_cons length,List.take_succ_cons,here,List.filter_cons]
  by_cases sep : separator (path j) = true
  · simp [sep,copied]
  · simp [sep,copied]

theorem copied_pos {i : Nat} (inside : i < n) (is_colon : colon (path i) = true) : 0 < (copied path n 0 (i + 1)).length := by
  have length : i < ((text path n).take (i + 1)).length := by simpa [text] using inside
  have here : ((text path n).take (i + 1))[i] = path i := by simp [text]
  refine List.length_pos_of_mem (a := path i) (List.mem_filter.mpr ⟨?_,?_⟩)
  · rw [List.drop_zero,← here]
    exact List.getElem_mem length
  · simp [Tree.separator_of_colon is_colon]

theorem copy_label_count (m : Nat) {j : Nat} (inside : j + m ≤ n) (k : Nat) (interval : Str) :
    (copy_label path m j k interval).1.1 = k + (copied path n j m).length := by
  induction m generalizing j k interval with
  | zero => simp [copied,copy_label,pure]
  | succ m ih =>
    rw [copied_succ (show j < n by omega)]
    change (if separator (path j) = true then copy_label path m (j + 1) k interval else
      touch k >>= fun _ => copy_label path m (j + 1) (k + 1) (Function.update interval k (path j))).1.1 = _
    split
    · exact ih (by omega) k interval
    · refine (ih (by omega) (k + 1) (Function.update interval k (path j))).trans ?_
      rw [List.length_cons]
      omega

theorem copy_label_within (m : Nat) {j : Nat} (inside : j + m ≤ n) (k : Nat) (interval : Str)
    (room : k + (copied path n j m).length ≤ FSS_VOLUMN_LABEL_CHECK_LEN) : Within n (copy_label path m j k interval) := by
  induction m generalizing j k interval with
  | zero => exact within_pure _
  | succ m ih =>
    rw [copied_succ (show j < n by omega)] at room
    refine within_char_bind (by omega) ?_
    split at room
    · next sep =>
      rw [if_pos sep]
      exact ih (by omega) k interval room
    · next char =>
      rw [if_neg char]
      rw [List.length_cons] at room
      refine within_bind.mpr ⟨within_touch.mpr ⟨by omega,by exact_mod_cast (by omega : k < FSS_VOLUMN_LABEL_CHECK_LEN)⟩,?_⟩
      exact ih (by omega) (k + 1) _ (by omega)

/-- What is copied fits exactly when the label does. -/
theorem label_fits_iff {s : List Char} (start : Nat) (front : ∀ c ∈ s.take start, separator c = true) :
    (Tree.ends_label s (Tree.label_end s FSS_VOLUMN_LABEL_CHECK_LEN start) = true →
      ((s.take (Tree.label_end s FSS_VOLUMN_LABEL_CHECK_LEN start + 1)).filter (fun c => ¬separator c)).length <
        FSS_VOLUMN_LABEL_CHECK_LEN) ↔
    ∀ id rest, labelled (s.drop start) = some (id,rest) → id.length < FSS_VOLUMN_LABEL_CHECK_LEN := by
  cases label : labelled (s.drop start) with
  | none =>
    rw [Tree.ends_label_false s start label]
    exact iff_of_true (fun no_label => by cases no_label) (fun _ _ same => by cases same)
  | some parts =>
    obtain ⟨id,rest⟩ := parts
    obtain ⟨name,c,rfl,at_colon,seen,taken,_⟩ := Tree.label_seen s start label front
    rw [at_colon,seen,taken]
    constructor
    · intro fits id' rest' same
      cases same
      have room := fits rfl
      rw [List.length_append,List.length_singleton] at room ⊢
      exact room
    · intro fits _
      have room := fits _ _ rfl
      rw [List.length_append,List.length_singleton] at room ⊢
      exact room

end Within

/-! ### Looking a component up -/

section Lookup
variable {ι : Type} {t : Surroundings ι} {path : Str} {n : Nat} (ends : Terminated path n)
include ends

theorem strcmp_within (ct : List Char) {i : Nat} (inside : i ≤ n) : Within n (strcmp path ct i) := by
  induction ct generalizing i with
  | nil => exact within_char_bind inside (within_pure _)
  | cons d ct ih =>
    refine within_char_bind inside ?_
    split
    · exact within_pure _
    · split
      · exact within_pure _
      · next some_char => exact ih (ends.next inside some_char)

theorem strncmp_within (cs : List Char) {i : Nat} (inside : i ≤ n) (count : Nat) : Within n (strncmp path cs i count) := by
  induction cs generalizing i count with
  | nil =>
    cases count with
    | zero => exact within_pure _
    | succ count => exact within_char_bind inside (within_pure _)
  | cons d cs ih =>
    cases count with
    | zero => exact within_pure _
    | succ count =>
      refine within_char_bind inside ?_
      split
      · exact within_pure _
      · next same =>
        split
        · exact within_pure _
        · next some_char => exact ih (ends.next inside (by rwa [← not_not.mp same])) count

theorem search_children_within {iStart : Nat} (inside : iStart ≤ n) (iEnd : Nat) (children : List (List Char × ι)) :
    Within n (search_children path iStart iEnd children) := by
  induction children with
  | nil => exact within_pure _
  | cons child rest ih =>
    refine within_bind.mpr ⟨strncmp_within ends _ inside _,?_⟩
    split
    · exact within_pure _
    · exact ih

theorem get_file_by_name_within (current_path : ι) {iStart : Nat} (inside : iStart ≤ n) (iEnd attempt : Nat) :
    Within n (get_file_by_name t path current_path iStart iEnd attempt) := by
  refine within_bind.mpr ⟨strcmp_within ends _ inside,?_⟩
  split
  · exact within_pure _
  · refine within_bind.mpr ⟨strcmp_within ends _ inside,?_⟩
    split
    · split
      · exact within_pure _
      · exact within_pure _
    · exact search_children_within ends inside _ _

theorem get_again_within (current_path : ι) {iStart : Nat} (inside : iStart ≤ n) (iEnd : Nat) (attempts : List Nat) :
    Within n (get_again t path current_path iStart iEnd attempts) := by
  induction attempts with
  | nil => exact within_pure _
  | cons attempt attempts ih =>
    refine within_bind.mpr ⟨get_file_by_name_within ends current_path inside iEnd attempt,?_⟩
    split
    · exact ih
    · exact within_pure _

theorem lockup_within (current_path : ι) {iStart : Nat} (inside : iStart ≤ n) (iEnd : Nat) :
    Within n (lockup_file_in_this_dir t path current_path iStart iEnd) := by
  refine within_bind.mpr ⟨get_again_within ends current_path inside iEnd _,?_⟩
  split
  · split
    · exact get_again_within ends current_path inside iEnd _
    · exact within_pure _
  · exact within_pure _

/-! ### The walk -/

theorem name_end_within (fuel : Nat) {i : Nat} (inside : i ≤ n) : Within n (name_end path fuel i) := by
  induction fuel generalizing i with
  | zero => exact within_pure _
  | succ fuel ih =>
    refine within_char_bind inside ?_
    split
    · exact within_pure _
    · next goes_on => exact ih (ends.next inside (fun zero => goes_on (.inl zero)))

theorem name_end_le {fuel i iEnd : Nat} (inside : i ≤ n) (ended : (name_end path fuel i).1 = some iEnd) : iEnd ≤ n := by
  induction fuel generalizing i with
  | zero => cases ended
  | succ fuel ih =>
    change (if path i = '\x00' ∨ separator (path i) then pure (some i) else name_end path fuel (i + 1)).1 = some iEnd at ended
    split at ended
    · obtain rfl := Option.some.inj ended
      exact inside
    · next goes_on => exact ih (ends.next inside (fun zero => goes_on (.inl zero))) ended

theorem loop_file_l1_within (fuel : Nat) (cur_dir : ι) {i : Nat} (inside : i ≤ n) :
    Within n (loop_file_l1 t path fuel cur_dir i) := by
  induction fuel generalizing cur_dir i with
  | zero => exact within_pure _
  | succ fuel ih =>
    refine within_char_bind inside ?_
    split
    · split
      · exact within_pure _
      · exact within_pure _
    · next some_char =>
      refine within_bind.mpr ⟨name_end_within ends fuel inside,?_⟩
      split
      · exact within_pure _
      · next iEnd ended =>
        split
        · exact ih cur_dir (ends.next inside some_char)
        · refine within_bind.mpr ⟨lockup_within ends cur_dir inside iEnd,?_⟩
          split
          · exact within_pure _
          · next file _ => exact ih file (name_end_le ends inside ended)

/-! ### The label -/

theorem label_end_within (m : Nat) {i : Nat} (inside : i ≤ n) : Within n (label_end path m i) := by
  induction m generalizing i with
  | zero => exact within_pure _
  | succ m ih =>
    refine within_char_bind inside ?_
    split
    · exact within_pure _
    · next goes_on => exact ih (ends.next inside (fun zero => goes_on (.inl zero)))

/-- The loops over a label end where they end in the text. -/
theorem label_end_eq (m : Nat) {i : Nat} (inside : i ≤ n) :
    (label_end path m i).1 = Tree.label_end (text path n) m i ∧ (label_end path m i).1 ≤ n := by
  induction m generalizing i with
  | zero => exact ⟨rfl,inside⟩
  | succ m ih =>
    rw [Tree.label_end,ends.get inside]
    change (if path i = '\x00' ∨ separator (path i) ∨ colon (path i) then pure i else label_end path m (i + 1)).1 = _ ∧
      (if path i = '\x00' ∨ separator (path i) ∨ colon (path i) then pure i else label_end path m (i + 1)).1 ≤ n
    by_cases zero : path i = '\x00'
    · rw [if_pos (.inl zero),if_pos zero]
      exact ⟨rfl,inside⟩
    · rw [if_neg zero]
      by_cases stops : separator (path i) ∨ colon (path i)
      · simp only [stops,or_true,if_true]
        exact ⟨rfl,inside⟩
      · simp only [zero,stops,or_false,if_false]
        exact ih (ends.next inside zero)

theorem ends_label_within {i : Nat} (inside : i ≤ n) : Within n (ends_label path i) := by
  refine within_char_bind inside ?_
  split
  · next is_colon => exact within_char_bind (ends.next inside (not_zero_of_colon is_colon)) (within_pure _)
  · exact within_pure _

theorem ends_label_eq {i : Nat} (inside : i ≤ n) : (ends_label path i).1 = Tree.ends_label (text path n) i := by
  rw [ends_label_val,Tree.ends_label,ends.get inside]
  cases is_colon : colon (path i) with
  | false =>
    by_cases zero : path i = '\x00'
    · simp [zero]
    · simp [zero,is_colon]
  | true =>
    have some_char := not_zero_of_colon is_colon
    rw [if_neg some_char,ends.get (ends.next inside some_char)]
    by_cases zero : path (i + 1) = '\x00'
    · simp [zero,is_colon]
    · simp [zero,is_colon]

theorem must_be_unix_within (fuel : Nat) (some_char : path 0 ≠ '\x00') : Within n (must_be_unix t path fuel) := by
  unfold must_be_unix
  split
  · exact within_pure _
  · exact loop_file_l1_within ends fuel _ (ends.next (Nat.zero_le n) some_char)

/-- The copy is the only access that can be wrong. -/
theorem loop_file_l2_within (fuel : Nat) (current_path : Option ι) (interval : Str) {i : Nat} (inside : i ≤ n) :
    Within n (loop_file_l2 t path fuel current_path interval i) ↔
      (Tree.ends_label (text path n) i = true → (copied path n 0 (i + 1)).length < FSS_VOLUMN_LABEL_CHECK_LEN) := by
  rw [← ends_label_eq ends inside]
  unfold loop_file_l2
  rw [within_bind]
  cases at_label : (ends_label path i).1 with
  | false =>
    refine iff_of_true ⟨ends_label_within ends inside,?_⟩ (fun no_label => by cases no_label)
    rw [if_neg (by decide)]
    split
    · exact within_pure _
    · exact loop_file_l1_within ends fuel _ (Nat.zero_le n)
  | true =>
    rw [ends_label_val,Bool.and_eq_true] at at_label
    have next := ends.next inside (not_zero_of_colon at_label.1)
    have all : 0 + (i + 1) ≤ n := by omega
    have count : (copy_label path (i + 1) 0 0 interval).1.1 = 0 + (copied path n 0 (i + 1)).length :=
      copy_label_count (i + 1) all 0 interval
    have within : _ → Within n (copy_label path (i + 1) 0 0 interval) := copy_label_within (i + 1) all 0 interval
    have some_copied := copied_pos next at_label.1
    rw [if_pos rfl,within_bind]
    generalize copy_label path (i + 1) 0 0 interval = copy at *
    obtain ⟨⟨k,interval'⟩,log⟩ := copy
    change k = _ at count
    rw [Nat.zero_add] at count within
    rw [← count] at within some_copied ⊢
    constructor
    · rintro ⟨_,_,behind⟩ _
      have last := (within_bind.mp (within_bind.mp behind).2).1
      exact_mod_cast (within_touch.mp last).2
    · intro fits
      have room := fits rfl
      refine ⟨ends_label_within ends inside,within room.le,?_⟩
      refine within_bind.mpr ⟨within_touch.mpr ⟨by omega,by omega⟩,within_bind.mpr ⟨within_touch.mpr ⟨by omega,by omega⟩,?_⟩⟩
      split
      · exact within_pure _
      · exact loop_file_l1_within ends fuel _ next

/-- Every access is inside exactly when the label in front of the path, with its colon, is shorter than `interval`. -/
theorem volume_prefix_iff (fuel : Nat) (current_path : Option ι) (interval : Str) :
    Within n (fss_loop_file t path fuel current_path interval) ↔
      ∀ id rest, volumeLabel (text path n) = some (id,rest) → id.length < FSS_VOLUMN_LABEL_CHECK_LEN := by
  have first := ends.get (Nat.zero_le n)
  rw [← List.head?_eq_getElem?] at first
  unfold fss_loop_file
  rw [within_bind,volumeLabel]
  change Within n (char path 0) ∧ Within n (if path 0 = '/' then _ else _) ↔ _
  have read : Within n (char path 0) := within_char.mpr (Nat.zero_le n)
  rw [and_iff_right read]
  by_cases slash : path 0 = '/'
  · have some_char : path 0 ≠ '\x00' := by
      rw [slash]
      decide
    have one : 1 ≤ n := ends.next (Nat.zero_le n) some_char
    rw [if_neg some_char,slash] at first
    obtain ⟨rest,shape⟩ := List.head?_eq_some_iff.mp first
    have front : ∀ c ∈ (text path n).take 1, separator c = true := by
      rw [shape]
      simp [separator]
    obtain ⟨at_end,inside⟩ := label_end_eq ends FSS_VOLUMN_LABEL_CHECK_LEN one
    rw [if_pos slash,if_pos first,← List.drop_one,← label_fits_iff 1 front,← at_end,within_bind,
      and_iff_right (label_end_within ends FSS_VOLUMN_LABEL_CHECK_LEN one)]
    generalize (label_end path FSS_VOLUMN_LABEL_CHECK_LEN 1).1 = i at *
    rw [within_bind,and_iff_right (within_char.mpr inside)]
    change Within n (if path i = '\x00' then _ else _) ↔ _
    have no_label (unseen : Tree.ends_label (text path n) i = false) : Within n (must_be_unix t path fuel) ↔
        (Tree.ends_label (text path n) i = true → (copied path n 0 (i + 1)).length < FSS_VOLUMN_LABEL_CHECK_LEN) :=
      iff_of_true (must_be_unix_within ends fuel some_char) (fun seen => by rw [unseen] at seen; cases seen)
    by_cases zero : path i = '\x00'
    · rw [if_pos zero]
      exact no_label (by rw [Tree.ends_label,ends.get inside,if_pos zero]; simp)
    · rw [if_neg zero,within_bind,and_iff_right (ends_label_within ends inside)]
      cases seen : (ends_label path i).1 with
      | true => exact loop_file_l2_within ends fuel current_path interval inside
      | false => exact no_label ((ends_label_eq ends inside).symm.trans seen)
  · have relative : ¬(text path n).head? = some '/' := by
      rw [first]
      split
      · exact fun same => by cases same
      · exact fun same => slash (Option.some.inj same)
    have fits := label_fits_iff (s := text path n) 0 (by simp)
    obtain ⟨at_end,inside⟩ := label_end_eq ends FSS_VOLUMN_LABEL_CHECK_LEN (Nat.zero_le n)
    rw [List.drop_zero,← at_end] at fits
    rw [if_neg slash,if_neg relative,← fits,within_bind,
      and_iff_right (label_end_within ends FSS_VOLUMN_LABEL_CHECK_LEN (Nat.zero_le n))]
    exact loop_file_l2_within ends fuel current_path interval inside

end Lookup

/-- No volumns and no files. -/
def no_files : Surroundings Unit where
  fss_volumn_search _ := none
  parent _ := none
  children _ _ _ := []
  import_file _ _ := true
  action := none

theorem volume_prefix_iff_short : Within 4 (fss_loop_file no_files (str ['0',':','/','a']) 5 (some ()) (str [])) ↔
    ∀ id rest, volumeLabel (text (str ['0',':','/','a']) 4) = some (id,rest) → id.length < FSS_VOLUMN_LABEL_CHECK_LEN := by
  have ends : Terminated (str ['0',':','/','a']) 4 := ⟨rfl,by decide⟩
  exact volume_prefix_iff ends 5 (some ()) (str [])

/-- The label of four characters that the code gives as an example: its terminating zero is written behind `interval`. -/
theorem label_terminated_behind : Terminated (str ['0','0','0','0',':']) 5 ∧
    ¬Within 5 (fss_loop_file no_files (str ['0','0','0','0',':']) 5 (some ()) (str [])) := by
  refine ⟨⟨rfl,by decide⟩,?_⟩
  intro within
  have wrong := within (.interval 5) (by decide)
  exact absurd wrong.2 (by decide)

end GridOS.PathReads
