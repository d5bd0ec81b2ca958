import GridOS.FileRefs
import GridOS.PathReads
import GridOS.TreeImport

/-!
The views of a resolution agree. `FileRefs` adds the reference counters to the resolution of `Tree`, `PathReads`
the accesses to the path and to `interval`, and `TreeImport` the import of one directory; without what they add,
each of them finds the file that `Tree` finds.
-/
namespace GridOS.TreeViews
open GridOS.Tree (Fault separator colon label_end ends_label FSS_VOLUMN_LABEL_CHECK_LEN)

variable {ι : Type} (t : Tree.Files ι)

/-- The files of a directory with their names. -/
def named (dir : ι) : List (List Char × ι) := (t.file dir).child_head.map fun f => ((t.file f).name,f)

/-- A search by the name is a search among the named files. -/
theorem find_named (dir : ι) (test : List Char → Bool) :
    ((named t dir).find? fun child => test child.1).map Prod.snd = (t.file dir).child_head.find? fun f => test (t.file f).name := by
  rw [named,List.find?_map,Option.map_map]
  exact congrFun Option.map_id _

theorem named_empty (dir : ι) : named t dir = [] ↔ (t.file dir).child_head = [] := List.map_eq_nil_iff

/-! ### The counters -/

section Refs
variable [DecidableEq ι]

/-- The tree as the counters' model sees it: every search meets the same files. -/
def counted (has_private : ι → Bool) (rooted : ∀ f, (t.file f).parent = none → has_private f = true) : FileRefs.Files ι where
  type f := (t.file f).type
  parent f := (t.file f).parent
  has_private := has_private
  rooted := rooted
  fss_volumn_search := Tree.fss_volumn_search t
  children _ _ := named t
  import_file _ := Tree.import_file t

variable (has_private : ι → Bool) (rooted : ∀ f, (t.file f).parent = none → has_private f = true)

omit [DecidableEq ι] in
theorem searched_agrees (dir : ι) (name : List Char) (len attempt : Nat) :
    FileRefs.searched (counted t has_private rooted) dir name len attempt = Tree.get_file_by_name t dir name len := by
  rw [FileRefs.searched,Tree.get_file_by_name]
  refine if_congr Iff.rfl rfl (if_congr Iff.rfl rfl (if_congr Iff.rfl rfl ?_))
  exact congrArg Except.ok (find_named t dir fun other => decide (other.take len = name.take len ∧ other.length = len))

/-- What is found, without the counters. -/
def found (r : Except Fault (Option ι × FileRefs.Refs ι)) : Except Fault (Option ι) := r.map Prod.fst

omit [DecidableEq ι] in
theorem found_error {r : Except Fault (Option ι × FileRefs.Refs ι)} {fault : Fault} (same : found r = .error fault) : r = .error fault := by
  cases r with
  | error _ => exact congrArg Except.error (Except.error.inj same)
  | ok _ => cases same

omit [DecidableEq ι] in
theorem found_ok {r : Except Fault (Option ι × FileRefs.Refs ι)} {file : Option ι} (same : found r = .ok file) :
    ∃ ref, r = .ok (file,ref) := by
  cases r with
  | error _ => cases same
  | ok both =>
    obtain rfl : both.1 = file := Except.ok.inj same
    exact ⟨both.2,rfl⟩

theorem get_agrees (dir : ι) (name : List Char) (len attempt : Nat) (ref : FileRefs.Refs ι) :
    found (FileRefs.get_file_by_name (counted t has_private rooted) dir name len attempt ref) = Tree.get_file_by_name t dir name len := by
  rw [FileRefs.get_file_by_name,searched_agrees]
  cases Tree.get_file_by_name t dir name len with
  | error fault => rfl
  | ok file => cases file <;> rfl

theorem again_agrees (dir : ι) (name : List Char) (len : Nat) {attempts : List Nat} (some_attempt : attempts ≠ [])
    (ref : FileRefs.Refs ι) : found (FileRefs.get_again (counted t has_private rooted) dir name len attempts ref) =
      Tree.get_file_by_name t dir name len := by
  induction attempts generalizing ref with
  | nil => exact absurd rfl some_attempt
  | cons attempt attempts ih =>
    have one := get_agrees t has_private rooted dir name len attempt ref
    rw [FileRefs.get_again]
    cases got : FileRefs.get_file_by_name (counted t has_private rooted) dir name len attempt ref with
    | error fault => rwa [got] at one
    | ok r =>
      rw [got] at one
      obtain ⟨file,ref'⟩ := r
      cases file with
      | some file => exact one
      | none =>
        by_cases last : attempts = []
        · rw [last]
          exact one
        · exact ih last ref'

theorem lockup_agrees (dir : ι) (name : List Char) (len : Nat) (ref : FileRefs.Refs ι) :
    found (FileRefs.lockup_file_in_this_dir (counted t has_private rooted) dir name len ref) =
      Tree.lockup_file_in_this_dir t dir name len := by
  have first := again_agrees t has_private rooted dir name len (show [0,1] ≠ [] by decide) ref
  rw [Tree.lockup_eq,FileRefs.lockup_file_in_this_dir]
  cases got : FileRefs.get_again (counted t has_private rooted) dir name len [0,1] ref with
  | error fault => rwa [got] at first
  | ok r =>
    rw [got] at first
    obtain ⟨file,ref'⟩ := r
    cases file with
    | some file => exact first
    | none =>
      dsimp only
      split
      · exact again_agrees t has_private rooted dir name len (by decide) ref'
      · exact first

theorem loop_agrees (dir : ι) (path : List Char) (ref : FileRefs.Refs ι) :
    found (FileRefs.loop_file_l1 (counted t has_private rooted) dir path ref) = Tree.loop_file_l1 t dir path := by
  fun_induction Tree.loop_file_l1 t dir path generalizing ref with
  | case1 dir =>
    rw [FileRefs.loop_file_l1]
    rfl
  | case2 dir c rest sep ih =>
    rw [FileRefs.loop_file_l1,if_pos sep]
    exact ih ref
  | case3 dir c rest char fault failed =>
    rw [← lockup_agrees t has_private rooted dir _ _ ref] at failed
    rw [FileRefs.loop_file_l1,if_neg char,found_error failed]
    rfl
  | case4 dir c rest char nothing =>
    rw [← lockup_agrees t has_private rooted dir _ _ ref] at nothing
    obtain ⟨ref',looked⟩ := found_ok nothing
    rw [FileRefs.loop_file_l1,if_neg char,looked]
    rfl
  | case5 dir c rest char file some_file ih =>
    rw [← lockup_agrees t has_private rooted dir _ _ ref] at some_file
    obtain ⟨ref',looked⟩ := found_ok some_file
    rw [FileRefs.loop_file_l1,if_neg char,looked]
    exact ih ref'

/-- The resolution that counts references finds what the resolution finds. -/
theorem refs_agree (current_path : ι) (path : List Char) (ref : FileRefs.Refs ι) :
    found (FileRefs.fss_loop_file (counted t has_private rooted) (some current_path) path ref) = Tree.fss_loop_file t current_path path := by
  have label (i : Nat) : found (FileRefs.loop_file_l2 (counted t has_private rooted) path i ref) = Tree.loop_file_l2 t path i := by
    rw [FileRefs.loop_file_l2,Tree.loop_file_l2]
    split
    · rfl
    · show found (FileRefs.walk _ (Tree.fss_volumn_search t _) _ ref) = _
      cases Tree.fss_volumn_search t _ with
      | none => rfl
      | some root_dir => exact loop_agrees t has_private rooted root_dir _ ref
  rw [FileRefs.fss_loop_file,Tree.fss_loop_file]
  split
  · dsimp only
    split
    · exact label _
    · show found (FileRefs.walk _ (Tree.get_unix t) _ ref) = _
      cases Tree.get_unix t with
      | none => rfl
      | some root_dir => exact loop_agrees t has_private rooted root_dir _ ref
  · dsimp only
    split
    · exact label _
    · exact loop_agrees t has_private rooted current_path path ref

end Refs

/-! ### The accesses -/

section Reads
open PathReads

theorem bind_val {α β : Type} (m : Logged α) (f : α → Logged β) : (m >>= f).1 = (f m.1).1 := rfl

theorem pure_val {α : Type} (a : α) : (pure a : Logged α).1 = a := rfl

theorem char_val (path : Str) (i : Nat) : (char path i).1 = path i := rfl

/-- The memory holds the string. -/
def Spells (s : Str) (id : List Char) : Prop := Terminated s id.length ∧ text s id.length = id

/-- The surroundings are the tree, and every search meets the same files. -/
structure Surrounds (t : Tree.Files ι) (t' : Surroundings ι) : Prop where
  fss_volumn_search : ∀ s id, Spells s id → t'.fss_volumn_search s = Tree.fss_volumn_search t id
  parent : ∀ f, t'.parent f = (t.file f).parent
  children : ∀ i attempt dir, t'.children i attempt dir = named t dir
  action : t'.action = none

theorem spells_unique {s : Str} {id id' : List Char} (spells : Spells s id) (spells' : Spells s id') : id = id' := by
  have length : id.length = id'.length := by
    by_contra differ
    rcases Nat.lt_or_gt_of_ne differ with shorter | longer
    · exact spells'.1.2 _ shorter spells.1.1
    · exact spells.1.2 _ longer spells'.1.1
  rw [← spells.2,← spells'.2,length]

/-- Every tree has surroundings. -/
theorem surrounded (t : Tree.Files ι) : ∃ t', Surrounds t t' := by
  classical
  refine ⟨{ fss_volumn_search := fun s => if spelled : ∃ id, Spells s id then Tree.fss_volumn_search t spelled.choose else none
            parent := fun f => (t.file f).parent
            children := fun _ _ => named t
            import_file := fun _ => Tree.import_file t
            action := none },?_,fun _ => rfl,fun _ _ _ => rfl,rfl⟩
  intro s id spells
  have spelled : ∃ id, Spells s id := ⟨id,spells⟩
  dsimp only
  rw [dif_pos spelled,spells_unique spelled.choose_spec spells]

variable {t} {t' : Surroundings ι} {path : Str} {n i : Nat}

theorem drop_text (before : i < n) : (text path n).drop i = path i :: (text path n).drop (i + 1) := by
  have length : i < (text path n).length := by simpa [text] using before
  rw [List.drop_eq_getElem_cons length]
  simp [text]

theorem drop_text_end : (text path n).drop n = [] := List.drop_of_length_le (by simp [text])

/-- A file that is found. -/
def got (file : Option ι) : Got ι := file.elim .nothing .file

/-- Without an action the walk goes on in what is found. -/
theorem next_val (surrounds : Surrounds t t') (dir : ι) (j i : Nat) (file : Option ι) : next_dir t' dir j i (got file) = file := by
  unfold next_dir
  rw [surrounds.action]
  cases file <;> rfl

/-- The characters of a name. -/
def component (path : List Char) : List Char := path.takeWhile fun c => ¬separator c

theorem component_le (inside : i ≤ n) : i + (component ((text path n).drop i)).length ≤ n := by
  have shorter : (component ((text path n).drop i)).length ≤ _ := (List.takeWhile_sublist _).length_le
  have length : (text path n).length = n := by simp [text]
  rw [List.length_drop,length] at shorter
  omega

/-- Behind a name the rest of the path is left. -/
theorem drop_component (l : List Char) : l.drop (component l).length = l.dropWhile fun c => ¬separator c := by
  have parts : component l ++ (l.dropWhile fun c => ¬separator c) = l := List.takeWhile_append_dropWhile
  exact (congrArg (List.drop _) parts.symm).trans List.drop_left

section
variable (ends : Terminated path n)
include ends

/-- The zero is at the end only. -/
theorem zero_iff (inside : i ≤ n) : path i = '\x00' ↔ i = n := by
  refine ⟨?_,fun last => last ▸ ends.1⟩
  intro zero
  by_contra before
  exact ends.2 i (by omega) zero

theorem strcmp_val (ct : List Char) (some_chars : ∀ c ∈ ct, c ≠ '\x00') (inside : i ≤ n) :
    (strcmp path ct i).1 = decide ((text path n).drop i = ct) := by
  induction ct generalizing i with
  | nil =>
    rw [strcmp,bind_val,pure_val,char_val,decide_eq_decide,zero_iff ends inside]
    constructor
    · rintro rfl
      exact drop_text_end
    · intro none_left
      by_contra before
      rw [drop_text (by omega)] at none_left
      cases none_left
  | cons d ct ih =>
    have some_char := some_chars d List.mem_cons_self
    rw [strcmp,bind_val,char_val]
    by_cases last : i = n
    · subst last
      rw [ends.1,if_pos some_char.symm,pure_val,drop_text_end]
      rfl
    · rw [drop_text (by omega)]
      split
      · next differ =>
        rw [pure_val]
        simp [differ]
      · next same =>
        rw [not_not] at same
        rw [if_neg (same ▸ some_char),ih (fun c mem => some_chars c (List.mem_cons_of_mem d mem)) (by omega)]
        simp [same]

theorem strncmp_val (name : List Char) (count : Nat) (inside : i + count ≤ n) :
    (strncmp path name i count).1 = decide (name.take count = ((text path n).drop i).take count) := by
  induction count generalizing name i with
  | zero => simp [strncmp,pure_val]
  | succ count ih =>
    have some_char : path i ≠ '\x00' := ends.2 i (by omega)
    rw [drop_text (by omega),List.take_succ_cons]
    cases name with
    | nil =>
      rw [strncmp,bind_val,char_val,pure_val]
      simp [some_char]
    | cons d cs =>
      rw [strncmp,bind_val,char_val,List.take_succ_cons]
      split
      · next differ =>
        rw [pure_val]
        simp [differ]
      · next same =>
        rw [not_not] at same
        rw [if_neg (same ▸ some_char),ih cs (by omega)]
        simp [same]

theorem search_val {iEnd : Nat} (order : i ≤ iEnd) (inside : iEnd ≤ n) (children : List (List Char × ι)) :
    (search_children path i iEnd children).1 = got ((children.find? fun child => decide
      (child.1.take (iEnd - i) = ((text path n).drop i).take (iEnd - i) ∧ child.1.length = iEnd - i)).map Prod.snd) := by
  induction children with
  | nil => rfl
  | cons child rest ih =>
    rw [search_children,bind_val,strncmp_val ends _ _ (by omega),List.find?_cons]
    by_cases same : child.1.take (iEnd - i) = ((text path n).drop i).take (iEnd - i) ∧ child.1.length = iEnd - i
    · rw [if_pos (by simpa using same),decide_eq_true same]
      rfl
    · rw [if_neg (by simpa using same),decide_eq_false same]
      exact ih

theorem get_val (surrounds : Surrounds t t') {dir : ι} {iEnd : Nat} (order : i ≤ iEnd) (inside : iEnd ≤ n) (attempt : Nat)
    {file : Option ι} (resolved : Tree.get_file_by_name t dir ((text path n).drop i) (iEnd - i) = .ok file) :
    (PathReads.get_file_by_name t' path dir i iEnd attempt).1 = got file := by
  rw [Tree.get_file_by_name] at resolved
  split at resolved
  · cases resolved
  rw [PathReads.get_file_by_name,bind_val,strcmp_val ends _ (by simp) (by omega)]
  split at resolved
  · next dot =>
    cases resolved
    rw [if_pos (by simpa using dot)]
    rfl
  · next dot =>
    rw [if_neg (by simpa using dot),bind_val,strcmp_val ends _ (by simp) (by omega)]
    split at resolved
    · next dots =>
      rw [if_pos (by simpa using dots),surrounds.parent]
      cases above : (t.file dir).parent with
      | none =>
        rw [above] at resolved
        cases resolved
      | some parent =>
        rw [above] at resolved
        cases resolved
        rfl
    · next dots =>
      cases resolved
      rw [if_neg (by simpa using dots),surrounds.children,search_val ends order inside]
      exact congrArg got (find_named t dir fun name =>
        decide (name.take (iEnd - i) = ((text path n).drop i).take (iEnd - i) ∧ name.length = iEnd - i))

theorem again_val (surrounds : Surrounds t t') {dir : ι} {iEnd : Nat} (order : i ≤ iEnd) (inside : iEnd ≤ n) {attempts : List Nat}
    (some_attempt : attempts ≠ []) {file : Option ι} (resolved : Tree.get_file_by_name t dir ((text path n).drop i) (iEnd - i) = .ok file) :
    (PathReads.get_again t' path dir i iEnd attempts).1 = got file := by
  induction attempts with
  | nil => exact absurd rfl some_attempt
  | cons attempt attempts ih =>
    rw [PathReads.get_again,bind_val,get_val ends surrounds order inside attempt resolved]
    cases file with
    | some file => rfl
    | none =>
      by_cases last : attempts = []
      · rw [last]
        rfl
      · exact ih last

theorem lockup_val (surrounds : Surrounds t t') {dir : ι} {iEnd : Nat} (order : i ≤ iEnd) (inside : iEnd ≤ n)
    {file : Option ι} (resolved : Tree.lockup_file_in_this_dir t dir ((text path n).drop i) (iEnd - i) = .ok file) :
    (PathReads.lockup_file_in_this_dir t' path dir i iEnd).1 = got file := by
  rw [Tree.lockup_eq] at resolved
  have twice := again_val ends surrounds order inside (show [0,1] ≠ [] by decide) resolved
  rw [PathReads.lockup_file_in_this_dir,bind_val,twice]
  cases file with
  | some file => rfl
  | none =>
    show (if _ then _ else _ : Logged (Got ι)).1 = _
    split
    · exact again_val ends surrounds order inside (by decide) resolved
    · rfl

theorem name_end_val (inside : i ≤ n) (fuel : Nat) (enough : n - i < fuel) :
    (name_end path fuel i).1 = some (i + (component ((text path n).drop i)).length) := by
  induction fuel generalizing i with
  | zero => omega
  | succ fuel ih =>
    rw [name_end,bind_val,char_val]
    by_cases last : i = n
    · subst last
      rw [if_pos (.inl ends.1),pure_val,drop_text_end]
      rfl
    · have some_char : path i ≠ '\x00' := ends.2 i (by omega)
      rw [drop_text (by omega),component,List.takeWhile_cons]
      by_cases sep : separator (path i) = true
      · rw [if_pos (.inr sep),pure_val]
        simp [sep]
      · rw [if_neg (by simp [some_char,sep]),ih (by omega) (by omega),if_pos (by simpa using sep)]
        rw [List.length_cons,component]
        congr 1
        omega

theorem loop_val (surrounds : Surrounds t t') {dir : ι} {file : Option ι} (inside : i ≤ n) (fuel : Nat) (enough : n - i + 2 ≤ fuel)
    (resolved : Tree.loop_file_l1 t dir ((text path n).drop i) = .ok file) :
    (PathReads.loop_file_l1 t' path fuel dir i).1 = file := by
  induction fuel generalizing dir i with
  | zero => omega
  | succ fuel ih =>
    rw [PathReads.loop_file_l1,bind_val,char_val]
    by_cases last : i = n
    · subst last
      rw [drop_text_end,Tree.loop_file_l1] at resolved
      rw [if_pos ends.1,surrounds.action]
      exact Except.ok.inj resolved
    rw [if_neg (ends.2 i (by omega)),bind_val,name_end_val ends inside fuel (by omega)]
    have name : i + (component ((text path n).drop i)).length ≤ n := component_le inside
    have behind := drop_component ((text path n).drop i)
    rw [List.drop_drop] at behind
    rw [drop_text (by omega),Tree.loop_file_l1] at resolved
    by_cases sep : separator (path i) = true
    · have none_left : component ((text path n).drop i) = [] := by
        rw [drop_text (by omega),component]
        simp [sep]
      rw [if_pos sep] at resolved
      rw [none_left]
      dsimp only
      rw [if_pos (by rfl)]
      exact ih (by omega) (by omega) resolved
    · rw [if_neg sep,← drop_text (by omega)] at resolved
      have nonempty : 0 < (component ((text path n).drop i)).length := by
        rw [drop_text (by omega),component,List.takeWhile_cons_of_pos (by simpa using sep)]
        exact Nat.succ_pos _
      have rest : ((text path n).drop (i + 1)).dropWhile (fun c => ¬separator c) =
          (text path n).drop (i + (component ((text path n).drop i)).length) := by
        rw [behind,drop_text (i := i) (by omega),List.dropWhile_cons_of_pos (by simpa using sep)]
      rw [rest] at resolved
      cases looked : Tree.lockup_file_in_this_dir t dir ((text path n).drop i)
          (((text path n).drop i).takeWhile fun c => ¬separator c).length with
      | error fault =>
        rw [looked] at resolved
        cases resolved
      | ok found =>
        rw [looked] at resolved
        have value := lockup_val ends surrounds (Nat.le_add_right i _) name (by rw [Nat.add_sub_cancel_left]; exact looked)
        dsimp only
        rw [if_neg (by omega),bind_val,value,next_val surrounds]
        cases found with
        | none =>
          cases resolved
          rfl
        | some f => exact ih name (by omega) resolved

end

/-! ### The label -/

/-- What the label's copy leaves in `interval`. -/
theorem copy_label_val (m : Nat) {j : Nat} (inside : j + m ≤ n) (k : Nat) (interval : Str) (q : Nat) :
    (copy_label path m j k interval).1.2 q =
      if k ≤ q ∧ q < k + (copied path n j m).length then (copied path n j m).getD (q - k) '\x00' else interval q := by
  induction m generalizing j k interval with
  | zero => simp [copied,copy_label,pure]
  | succ m ih =>
    rw [copied_succ (show j < n by omega),copy_label,bind_val,char_val]
    split
    · exact ih (by omega) k interval
    · rw [bind_val,ih (by omega) (k + 1) _,List.length_cons]
      by_cases first : q = k
      · rw [first,if_neg (by omega),if_pos (by omega),Function.update_self,Nat.sub_self]
        rfl
      · rw [Function.update_of_ne first]
        by_cases behind : k + 1 ≤ q ∧ q < k + 1 + (copied path n (j + 1) m).length
        · have place : q - k = q - (k + 1) + 1 := by omega
          rw [if_pos behind,if_pos (by omega),place]
          rfl
        · rw [if_neg behind,if_neg (by omega)]

theorem spells_of {s : Str} {id : List Char} (same : ∀ q < id.length, s q = id.getD q '\x00') (zero : s id.length = '\x00')
    (some_chars : ∀ c ∈ id, c ≠ '\x00') : Spells s id := by
  have inside {q : Nat} (before : q < id.length) : s q = id[q] := by
    rw [same q before,List.getD_eq_getElem?_getD,List.getElem?_eq_getElem before]
    rfl
  refine ⟨⟨zero,?_⟩,?_⟩
  · intro q before
    rw [inside before]
    exact some_chars _ (List.getElem_mem before)
  · refine List.ext_getElem (by simp [text]) ?_
    intro q _ before
    simp [text,inside before]

/-- The characters of a label that ends at `i`. -/
theorem copied_colon (before : i < n) (is_colon : colon (path i) = true) :
    copied path n 0 (i + 1) = ((text path n).take i).filter (fun c => ¬separator c) ++ [path i] := by
  have length : i < (text path n).length := by simpa [text] using before
  have here : (text path n)[i] = path i := by simp [text]
  rw [copied,List.drop_zero,List.take_succ_eq_append_getElem length,List.filter_append,here]
  simp [Tree.separator_of_colon is_colon]

/-- The walk begins in the volumn that the label names. -/
theorem label_val (ends : Terminated path n) (surrounds : Surrounds t t') (inside : i ≤ n) (fuel : Nat) (enough : n + 2 ≤ fuel) (current_path : Option ι)
    (interval : Str) (at_label : ends_label (text path n) i = true) {file : Option ι}
    (resolved : Tree.loop_file_l2 t (text path n) i = .ok file) :
    (PathReads.loop_file_l2 t' path fuel current_path interval i).1 = file := by
  rw [← ends_label_eq ends inside] at at_label
  have colons := at_label
  rw [ends_label_val,Bool.and_eq_true] at colons
  have before := ends.next inside (not_zero_of_colon colons.1)
  have shape := copied_colon before colons.1
  have count : (copy_label path (i + 1) 0 0 interval).1.1 = 0 + (copied path n 0 (i + 1)).length :=
    copy_label_count (i + 1) (by omega) 0 interval
  have copy : ∀ q, (copy_label path (i + 1) 0 0 interval).1.2 q = _ :=
    copy_label_val (n := n) (i + 1) (show 0 + (i + 1) ≤ n by omega) 0 interval
  generalize label : ((text path n).take i).filter (fun c => ¬separator c) = name at shape
  rw [shape] at count copy
  rw [List.length_append,List.length_singleton,Nat.zero_add] at count
  unfold PathReads.loop_file_l2
  rw [bind_val,at_label,if_pos rfl,bind_val]
  generalize copy_label path (i + 1) 0 0 interval = result at count copy ⊢
  obtain ⟨⟨k,interval'⟩,log⟩ := result
  dsimp only at count copy ⊢
  subst count
  rw [Nat.add_sub_cancel]
  have some_name : ∀ c ∈ name, c ≠ '\x00' := by
    intro c mem
    rw [← label] at mem
    obtain ⟨q,before,rfl⟩ := List.mem_map.mp (List.mem_of_mem_take (List.mem_of_mem_filter mem))
    exact ends.2 q (List.mem_range.mp before)
  have last : interval' name.length = path i := by
    rw [copy,if_pos (by simp)]
    simp
  -- the last character is the colon, or a semicolon that becomes one
  have spells : Spells (Function.update (if interval' name.length = ';' then Function.update interval' name.length ':' else interval')
      (name.length + 1) '\x00') (name ++ [':']) := by
    refine spells_of ?_ ?_ ?_
    · intro q before
      rw [List.length_append,List.length_singleton] at before
      rw [Function.update_of_ne (by omega)]
      by_cases inside : q < name.length
      · have kept : (if interval' name.length = ';' then Function.update interval' name.length ':' else interval') q = interval' q := by
          split
          · exact Function.update_of_ne (by omega) ..
          · rfl
        rw [kept,copy,if_pos (by simp; omega)]
        simp [List.getElem?_append_left inside]
      · obtain rfl : q = name.length := by omega
        have second : path i ≠ ';' → path i = ':' := by
          have is_colon := colons.1
          simp only [colon,decide_eq_true_eq] at is_colon
          exact is_colon.resolve_right
        rw [last]
        split
        · simp
        · next other => rw [last,second other]; simp
    · rw [List.length_append,List.length_singleton]
      exact Function.update_self ..
    · intro c mem
      obtain mem | mem := List.mem_append.mp mem
      · exact some_name c mem
      · rw [List.mem_singleton.mp mem]
        decide
  have volumn := surrounds.fss_volumn_search _ _ spells
  rw [bind_val,bind_val,volumn]
  have taken : ((text path n).take (i + 1)).filter (fun c => ¬separator c) = name ++ [path i] := by rw [← shape,copied,List.drop_zero]
  rw [Tree.loop_file_l2] at resolved
  rw [taken,List.dropLast_concat] at resolved
  split at resolved
  · cases resolved
  · cases named : Tree.fss_volumn_search t (name ++ [':']) with
    | none =>
      rw [named] at resolved
      exact Except.ok.inj resolved
    | some root_dir =>
      rw [named] at resolved
      exact loop_val ends surrounds before fuel (by omega) resolved

/-- The resolution that logs its accesses finds what the resolution finds. -/
theorem reads_agree (ends : Terminated path n) (surrounds : Surrounds t t') {current_path : ι} {file : Option ι} (fuel : Nat)
    (enough : n + 2 ≤ fuel) (resolved : Tree.fss_loop_file t current_path (text path n) = .ok file) (interval : Str) :
    (PathReads.fss_loop_file t' path fuel (some current_path) interval).1 = file := by
  have head : (text path n).head? = some '/' ↔ path 0 = '/' := by
    rw [List.head?_eq_getElem?,ends.get (Nat.zero_le n)]
    by_cases zero : path 0 = '\x00'
    · rw [if_pos zero,zero]
      decide
    · rw [if_neg zero,Option.some.injEq]
  have at_end {start : Nat} (inside : start ≤ n) := label_end_eq ends FSS_VOLUMN_LABEL_CHECK_LEN inside
  rw [Tree.fss_loop_file] at resolved
  unfold PathReads.fss_loop_file
  rw [bind_val,char_val]
  by_cases slash : path 0 = '/'
  · have one : 1 ≤ n := ends.next (Nat.zero_le n) (by rw [slash]; decide)
    obtain ⟨same,inside⟩ := at_end one
    rw [if_pos (head.mpr slash),← same] at resolved
    rw [if_pos slash,bind_val,bind_val,char_val]
    generalize (PathReads.label_end path FSS_VOLUMN_LABEL_CHECK_LEN 1).1 = i at inside resolved ⊢
    dsimp only at resolved
    by_cases at_label : ends_label (text path n) i = true
    · have some_char : path i ≠ '\x00' := by
        have label := at_label
        rw [← ends_label_eq ends inside,ends_label_val,Bool.and_eq_true] at label
        exact not_zero_of_colon label.1
      rw [if_pos at_label] at resolved
      rw [if_neg some_char,bind_val,ends_label_eq ends inside,if_pos at_label]
      exact label_val ends surrounds inside fuel enough _ interval at_label resolved
    · have walked : (must_be_unix t' path fuel).1 = file := by
        have spells : Spells (str ['0',':']) ['0',':'] := spells_of (by decide) rfl (by simp)
        have volumn : t'.fss_volumn_search (str ['0',':']) = Tree.get_unix t := surrounds.fss_volumn_search _ _ spells
        rw [if_neg at_label] at resolved
        unfold must_be_unix
        rw [volumn]
        cases root : Tree.get_unix t with
        | none =>
          rw [root] at resolved
          exact Except.ok.inj resolved
        | some root_dir =>
          rw [root] at resolved
          exact loop_val ends surrounds one fuel (by omega) resolved
      split
      · exact walked
      · rw [bind_val,ends_label_eq ends inside,if_neg at_label]
        exact walked
  · obtain ⟨same,inside⟩ := at_end (Nat.zero_le n)
    rw [if_neg (mt head.mp slash),← same] at resolved
    rw [if_neg slash,bind_val]
    generalize (PathReads.label_end path FSS_VOLUMN_LABEL_CHECK_LEN 0).1 = i at inside resolved ⊢
    dsimp only at resolved
    by_cases at_label : ends_label (text path n) i = true
    · rw [if_pos at_label] at resolved
      exact label_val ends surrounds inside fuel enough _ interval at_label resolved
    · rw [if_neg at_label] at resolved
      unfold PathReads.loop_file_l2
      rw [bind_val,ends_label_eq ends inside,if_neg at_label]
      exact loop_val ends surrounds (Nat.zero_le n) fuel (by omega) resolved

end Reads

/-! ### A directory that is filled from the disk -/

/-- What the import's model has of a file. -/
def entry (f : ι) : TreeImport.fss_file := ⟨(t.file f).name,(t.file f).type⟩

/-- The directory is that of the tree. -/
structure Holds (dir : ι) (d : TreeImport.Directory) : Prop where
  directory : Tree.isDir t dir
  parent : d.has_parent = (t.file dir).parent.isSome
  children : d.child_head = (t.file dir).child_head.map (entry t)

/-- What the tree finds in a directory, and what the import's model does. -/
inductive Agrees (dir : ι) : Except Fault (Option ι) → Except TreeImport.Fault (Option TreeImport.Found) → Prop
  | crash : Agrees dir (.error .null_file) (.error .null_file)
  | nothing : Agrees dir (.ok none) (.ok none)
  | current_path : Agrees dir (.ok (some dir)) (.ok (some .current_path))
  | parent {p : ι} (above : (t.file dir).parent = some p) : Agrees dir (.ok (some p)) (.ok (some .parent))
  | child {f : ι} (below : f ∈ (t.file dir).child_head) : Agrees dir (.ok (some f)) (.ok (some (.child (entry t f))))

variable {t} {dir : ι} {d : TreeImport.Directory}

theorem search_agrees (holds : Holds t dir d) (name : List Char) (len : Nat) :
    Agrees t dir (Tree.get_file_by_name t dir name len) (TreeImport.get_file_by_name d name len) := by
  rw [Tree.get_file_by_name,TreeImport.get_file_by_name,if_neg (not_not.mpr holds.directory)]
  by_cases dot : name = ['.']
  · rw [if_pos dot,if_pos dot]
    exact .current_path
  rw [if_neg dot,if_neg dot]
  by_cases dots : name = ['.','.']
  · rw [if_pos dots,if_pos dots,holds.parent]
    cases above : (t.file dir).parent with
    | none => exact .crash
    | some p => exact .parent above
  rw [if_neg dots,if_neg dots,holds.children,List.find?_map,Option.map_map]
  let test (f : ι) : Bool := decide ((t.file f).name.take len = name.take len ∧ (t.file f).name.length = len)
  change Agrees t dir (.ok ((t.file dir).child_head.find? test)) (.ok (((t.file dir).child_head.find? test).map (.child ∘ entry t)))
  cases found : (t.file dir).child_head.find? test with
  | none => exact .nothing
  | some f => exact .child (List.mem_of_find?_eq_some found)

/-- Twice the same is found. -/
theorem twice_eq (name : List Char) (len : Nat) : TreeImport.get_twice d name len = TreeImport.get_file_by_name d name len := by
  rw [TreeImport.get_twice]
  cases got : TreeImport.get_file_by_name d name len with
  | error fault => rfl
  | ok file => cases file <;> rfl

/-- A lookup in a directory that is complete imports nothing and finds what the tree finds. -/
theorem import_agrees (holds : Holds t dir d) (complete : d.complete = true) (disk : List TreeImport.fss_directory_entry)
    (o : TreeImport.Outcome) (name : List Char) (len : Nat) : (TreeImport.lockup_file_in_this_dir disk o name len d).1 = d ∧
      Agrees t dir (Tree.lockup_file_in_this_dir t dir name len) (TreeImport.lockup_file_in_this_dir disk o name len d).2 := by
  have agrees := search_agrees holds name len
  have stays : TreeImport.import_file disk o d = (d,.ok 0) := by rw [TreeImport.import_file,if_pos complete]
  rw [Tree.lockup_eq,TreeImport.lockup_file_in_this_dir,twice_eq,stays]
  cases got : TreeImport.get_file_by_name d name len with
  | error fault =>
    rw [got] at agrees
    exact ⟨rfl,agrees⟩
  | ok file =>
    rw [got] at agrees
    cases file with
    | some file => exact ⟨rfl,agrees⟩
    | none =>
      dsimp only
      rw [twice_eq,got]
      split <;> exact ⟨rfl,agrees⟩

end GridOS.TreeViews
