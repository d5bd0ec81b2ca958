import GridOS.Environ

/-!
The command line is cut in place into the arguments of a program. A separator is a space or a tab, but the end of a word
is searched for as a space. Memory is what the command line points to; places are counted from there.
-/
namespace GridOS.CmdLine
open GridOS.Environ (byte)

def E2BIG : Nat := 7

def SPACE : byte := 32#8
def TAB : byte := 9#8

/-! ### The code -/

/-- `strchr`: the first place with the character before the end of the string, if there is one. -/
def strchr (s : Nat → byte) (c : byte) : (rounds : Nat) → Nat → Option (Option Nat)
  | 0, _ => none
  | rounds+1, p =>
    if s p = c then some (some p) else
    if s p = 0#8 then some none else strchr s c rounds (p+1)

/-- What the call returns, the number it stores, the places in `argv` and the command line after it. -/
structure Split where
  returns : Nat
  argc : Option Nat
  argv : List Nat
  cmdline : Nat → byte

/-- The loop, with the words that `argv` holds. -/
def split (max_size max_argc : Nat) : (rounds i : Nat) → (argv : List Nat) → (cmdline : Nat → byte) → Option Split
  | 0, _, _, _ => none
  | rounds+1, i, argv, cmdline =>
    if max_size ≤ i then some ⟨0,some argv.length,argv,cmdline⟩ else
    if cmdline i = SPACE ∨ cmdline i = TAB then split max_size max_argc rounds (i+1) argv cmdline else
    let argv := argv ++ [i]
    if max_argc ≤ argv.length then some ⟨E2BIG,none,argv,cmdline⟩ else
    match strchr cmdline SPACE (max_size + 1) i with
    | none => none
    | some none => some ⟨0,some argv.length,argv,cmdline⟩
    | some (some cur) => split max_size max_argc rounds (i + (cur - i + 1)) argv (Function.update cmdline cur 0#8)

def crt0_split_cmdline (cmdline : Nat → byte) (max_size max_argc : Nat) : Option Split :=
  split max_size max_argc (max_size + 1) 0 [] cmdline

/-! ### The words of a line -/

def separator (c : byte) : Bool := c = SPACE ∨ c = TAB

/-- The maximal runs of characters other than separators. -/
def words (line : List byte) : List (List byte) := (line.splitOnP separator).filter (fun w => !w.isEmpty)

/-- A string with its end, at a place. -/
def Spells (mem : Nat → byte) : Nat → List byte → Prop
  | p, [] => mem p = 0#8
  | p, c :: w => mem p = c ∧ Spells mem (p+1) w

/-- The call succeeds with the number of words, and each place in `argv` holds its word as a string. -/
def Splits (cmdline : Nat → byte) (max_argc : Nat) (line : List byte) : Prop :=
  ∃ after, crt0_split_cmdline cmdline line.length max_argc = some after ∧ after.returns = 0 ∧
    after.argc = some (words line).length ∧ List.Forall₂ (Spells after.cmdline) after.argv (words line)

/-- No tab comes directly behind a character of a word. -/
def TabsApart (line : List byte) : Prop := line.IsChain (fun c next => next = TAB → separator c = true)

/-! ### Strings in memory -/

/-- A byte before the string or behind its end does not count. -/
theorem spells_update {mem : Nat → byte} {place p : Nat} {value : byte} {w : List byte}
    (outside : place < p ∨ p + w.length < place) : Spells (Function.update mem place value) p w ↔ Spells mem p w := by
  induction w generalizing p with
  | nil =>
    rw [List.length_nil] at outside
    exact Eq.congr_left (Function.update_of_ne (by omega) ..)
  | cons c w ih =>
    rw [List.length_cons] at outside
    unfold Spells
    rw [Function.update_of_ne (by omega),ih (by omega)]

/-- Two strings at one place are one. -/
theorem spells_unique {mem : Nat → byte} {p : Nat} {w w' : List byte} (proper : 0#8 ∉ w) (proper' : 0#8 ∉ w')
    (spells : Spells mem p w) (spells' : Spells mem p w') : w = w' := by
  induction w generalizing p w' with
  | nil =>
    cases w' with
    | nil => rfl
    | cons c w' =>
      have zero : c = 0#8 := spells'.1.symm.trans spells
      exact absurd (zero ▸ List.mem_cons_self) proper'
  | cons c w ih =>
    cases w' with
    | nil =>
      have zero : c = 0#8 := spells.1.symm.trans spells'
      exact absurd (zero ▸ List.mem_cons_self) proper
    | cons d w' =>
      have tail := ih (fun zero => proper (List.mem_cons_of_mem _ zero)) (fun zero => proper' (List.mem_cons_of_mem _ zero))
        spells.2 spells'.2
      rw [tail,← spells.1,← spells'.1]

theorem all_unique {mem : Nat → byte} {argv : List Nat} {ws ws' : List (List byte)} (proper : ∀ w ∈ ws, 0#8 ∉ w)
    (proper' : ∀ w ∈ ws', 0#8 ∉ w) (spelled : List.Forall₂ (Spells mem) argv ws)
    (spelled' : List.Forall₂ (Spells mem) argv ws') : ws = ws' := by
  induction spelled generalizing ws' with
  | nil => exact (List.forall₂_nil_left_iff.mp spelled').symm
  | cons here _ ih =>
    obtain ⟨w',rest,here',later,rfl⟩ := List.forall₂_cons_left_iff.mp spelled'
    rw [spells_unique (proper _ List.mem_cons_self) (proper' _ List.mem_cons_self) here here',
      ih (fun w member => proper w (List.mem_cons_of_mem _ member)) (fun w member => proper' w (List.mem_cons_of_mem _ member))
        later]

/-- The part of a string up to a place that becomes its end. -/
theorem spells_cut {mem : Nat → byte} {p : Nat} {w rest : List byte} (spells : Spells mem p (w ++ rest)) :
    Spells (Function.update mem (p + w.length) 0#8) p w := by
  induction w generalizing p with
  | nil => exact Function.update_self ..
  | cons c w ih =>
    have tail := ih spells.2
    refine ⟨?_,?_⟩
    · rw [Function.update_of_ne (by rw [List.length_cons]; omega)]
      exact spells.1
    · rwa [Nat.add_right_comm] at tail

theorem spells_drop {mem : Nat → byte} {p : Nat} {w rest : List byte} (spells : Spells mem p (w ++ rest)) :
    Spells mem (p + w.length) rest := by
  induction w generalizing p with
  | nil => exact spells
  | cons c w ih =>
    have tail := ih spells.2
    rwa [Nat.add_right_comm] at tail

/-! ### The pieces that the loop makes -/

/-- The loop takes a separator away, or a word up to the next space. -/
inductive Pieces : List byte → List (List byte) → Prop
  | nil : Pieces [] []
  | skip {c : byte} {rest : List byte} {ws : List (List byte)} : separator c = true → Pieces rest ws → Pieces (c :: rest) ws
  | word {c : byte} {w rest : List byte} {ws : List (List byte)} : separator c = false → SPACE ∉ w → Pieces rest ws →
      Pieces ((c :: w) ++ SPACE :: rest) ((c :: w) :: ws)
  | last {c : byte} {w : List byte} : separator c = false → SPACE ∉ w → Pieces (c :: w) [c :: w]

theorem separator_iff (c : byte) : separator c = true ↔ c = SPACE ∨ c = TAB := decide_eq_true_iff

theorem words_skip {c : byte} {rest : List byte} (sep : separator c = true) : words (c :: rest) = words rest := by
  unfold words
  rw [List.splitOnP_cons_eq_if_modifyHead,if_pos sep]
  rfl

theorem words_append {c : byte} (w rest : List byte) (sep : separator c = true) :
    words (w ++ c :: rest) = words w ++ words rest := by
  unfold words
  rw [List.splitOnP_append_cons w rest sep,List.filter_append]

theorem words_single {c : byte} {w : List byte} (inside : ∀ d ∈ c :: w, separator d = false) : words (c :: w) = [c :: w] := by
  unfold words
  rw [List.splitOnP_eq_singleton inside]
  rfl

/-- A line that begins within a word has a word. -/
theorem words_ne_nil {c : byte} {w : List byte} (inside : separator c = false) : words (c :: w) ≠ [] := by
  obtain ⟨head,tail,parts⟩ := List.exists_cons_of_ne_nil (List.splitOnP_ne_nil separator w)
  unfold words
  rw [List.splitOnP_cons_eq_if_modifyHead,if_neg (by rw [inside]; exact Bool.false_ne_true),parts]
  simp

/-- What is between separators holds none, and is from the line. -/
theorem splitOnP_apart {line w : List byte} (member : w ∈ line.splitOnP separator) :
    ∀ c ∈ w, separator c = false ∧ c ∈ line := by
  induction line generalizing w with
  | nil =>
    rw [List.splitOnP_nil,List.mem_singleton] at member
    rw [member]
    exact fun c none => by cases none
  | cons c line ih =>
    obtain ⟨head,tail,parts⟩ := List.exists_cons_of_ne_nil (List.splitOnP_ne_nil separator line)
    rw [parts] at ih
    rw [List.splitOnP_cons_eq_if_modifyHead,parts] at member
    have later {v : List byte} (there : v ∈ head :: tail) : ∀ d ∈ v, separator d = false ∧ d ∈ c :: line :=
      fun d inside => (ih there d inside).imp id (List.mem_cons_of_mem _)
    by_cases sep : separator c = true
    · rw [if_pos sep] at member
      rcases List.mem_cons.mp member with rfl | behind
      · exact fun d none => by cases none
      · exact later behind
    · rw [if_neg sep,List.modifyHead_cons] at member
      rcases List.mem_cons.mp member with rfl | behind
      · intro d inside
        rcases List.mem_cons.mp inside with rfl | inside
        · exact ⟨Bool.eq_false_iff.mpr sep,List.mem_cons_self⟩
        · exact later List.mem_cons_self d inside
      · exact later (List.mem_cons_of_mem _ behind)

theorem words_apart {line w : List byte} (member : w ∈ words line) : ∀ c ∈ w, separator c = false ∧ c ∈ line :=
  splitOnP_apart (List.mem_filter.mp member).1

theorem tab_in_no_word {c : byte} {w line : List byte} (tab : TAB ∈ w) : c :: w ∉ words line := fun member =>
  Bool.noConfusion (words_apart member TAB (List.mem_cons_of_mem _ tab)).1

/-- The characters of a piece are those of the line. -/
theorem Pieces.from_line {line : List byte} {ws : List (List byte)} (pieces : Pieces line ws) :
    ∀ w ∈ ws, ∀ c ∈ w, c ∈ line := by
  induction pieces with
  | nil => exact fun w none => by cases none
  | skip _ _ ih => exact fun w member c inside => List.mem_cons_of_mem _ (ih w member c inside)
  | @word c w rest ws _ _ _ ih =>
    intro v member d inside
    rcases List.mem_cons.mp member with rfl | later
    · exact List.mem_append_left _ inside
    · exact List.mem_append_right _ (List.mem_cons_of_mem _ (ih v later d inside))
  | last _ _ =>
    intro v member d inside
    rwa [List.mem_singleton.mp member] at inside

/-- Every piece has a word of its own. -/
theorem Pieces.few {line : List byte} {ws : List (List byte)} (pieces : Pieces line ws) : ws.length ≤ (words line).length := by
  induction pieces with
  | nil => exact Nat.zero_le _
  | skip sep _ ih => rwa [words_skip sep]
  | @word c w rest ws inside _ _ ih =>
    have some_word := List.length_pos_iff.mpr (words_ne_nil inside : words (c :: w) ≠ [])
    rw [words_append _ _ (by decide),List.length_append,List.length_cons]
    omega
  | last inside _ => exact List.length_pos_iff.mpr (words_ne_nil inside)

/-- Within a word up to the next space, a tab anywhere comes somewhere directly behind another character. -/
theorem tabsApart_word {c : byte} {w : List byte} (inside : separator c = false) (no_space : SPACE ∉ w) :
    TabsApart (c :: w) ↔ TAB ∉ w := by
  induction w generalizing c with
  | nil => exact iff_of_true (List.isChain_singleton c) List.not_mem_nil
  | cons d w ih =>
    unfold TabsApart
    rw [List.isChain_cons_cons,List.mem_cons,not_or]
    by_cases tab : d = TAB
    · refine iff_of_false (fun apart => ?_) (fun none => none.1 tab.symm)
      rw [apart.1 tab] at inside
      exact Bool.noConfusion inside
    · have letter : separator d = false := by
        refine Bool.eq_false_iff.mpr fun sep => ?_
        rcases (separator_iff d).mp sep with rfl | rfl
        · exact no_space List.mem_cons_self
        · exact tab rfl
      have later := ih letter (fun space => no_space (List.mem_cons_of_mem _ space))
      exact and_congr (iff_of_true (fun wrong => absurd wrong tab) (fun wrong => tab wrong.symm)) later

theorem tabsApart_skip {c : byte} {rest : List byte} (sep : separator c = true) : TabsApart (c :: rest) ↔ TabsApart rest := by
  cases rest with
  | nil => exact iff_of_true (List.isChain_singleton c) List.isChain_nil
  | cons d rest =>
    unfold TabsApart
    rw [List.isChain_cons_cons]
    exact and_iff_right fun _ => sep

theorem tabsApart_append (w rest : List byte) : TabsApart (w ++ SPACE :: rest) ↔ TabsApart w ∧ TabsApart rest := by
  have space : separator SPACE = true := by decide
  have not_tab : SPACE ≠ TAB := by decide
  have skip : TabsApart (SPACE :: rest) ↔ TabsApart rest := tabsApart_skip space
  rw [← skip]
  unfold TabsApart
  rw [List.isChain_append]
  refine and_congr_right fun _ => and_iff_left fun c _ d head tab => ?_
  rw [List.head?_cons,Option.mem_some_iff] at head
  exact absurd (head.trans tab) not_tab

theorem letters {c : byte} {w : List byte} (inside : separator c = false) (no_space : SPACE ∉ w) (no_tab : TAB ∉ w) :
    ∀ d ∈ c :: w, separator d = false := by
  intro d member
  refine Bool.eq_false_iff.mpr fun sep => ?_
  rcases List.mem_cons.mp member with rfl | member
  · rw [sep] at inside
    exact Bool.noConfusion inside
  · rcases (separator_iff d).mp sep with rfl | rfl
    · exact no_space member
    · exact no_tab member

/-- The pieces are the words exactly when the tabs are apart. -/
theorem Pieces.words_iff {line : List byte} {ws : List (List byte)} (pieces : Pieces line ws) :
    ws = words line ↔ TabsApart line := by
  induction pieces with
  | nil => exact iff_of_true rfl List.isChain_nil
  | skip sep _ ih =>
    rw [words_skip sep,tabsApart_skip sep]
    exact ih
  | @word c w rest ws inside no_space _ ih =>
    rw [tabsApart_append,tabsApart_word inside no_space]
    by_cases tab : TAB ∈ w
    · refine iff_of_false (fun same => ?_) (fun apart => apart.1 tab)
      have member : c :: w ∈ words (c :: w ++ SPACE :: rest) := by
        rw [← same]
        exact List.mem_cons_self
      exact tab_in_no_word tab member
    · rw [words_append _ _ (by decide),words_single (letters inside no_space tab),List.singleton_append,List.cons_inj_right,
        and_iff_right tab]
      exact ih
  | @last c w inside no_space =>
    rw [tabsApart_word inside no_space]
    by_cases tab : TAB ∈ w
    · refine iff_of_false (fun same => ?_) (fun apart => apart tab)
      have member : c :: w ∈ words (c :: w) := by
        rw [← same]
        exact List.mem_cons_self
      exact tab_in_no_word tab member
    · exact iff_of_true (words_single (letters inside no_space tab)).symm tab

/-! ### The loop -/

/-- The search passes over a word. -/
theorem strchr_word {s : Nat → byte} {w tail : List byte} : ∀ {rounds p : Nat}, w.length ≤ rounds → SPACE ∉ w → 0#8 ∉ w →
    Spells s p (w ++ tail) → strchr s SPACE rounds p = strchr s SPACE (rounds - w.length) (p + w.length) := by
  induction w with
  | nil => exact fun _ _ _ _ => rfl
  | cons c w ih =>
    intro rounds p enough no_space proper spells
    rw [List.length_cons] at enough
    obtain ⟨rounds,rfl⟩ : ∃ k, rounds = k + 1 := ⟨rounds - 1,by omega⟩
    rw [List.mem_cons,not_or] at no_space proper
    have here : s p = c := spells.1
    rw [strchr,here,if_neg (Ne.symm no_space.1),if_neg (Ne.symm proper.1),ih (by omega) no_space.2 proper.2 spells.2,
      List.length_cons,Nat.add_sub_add_right,Nat.add_right_comm,Nat.add_assoc]

theorem strchr_found {s : Nat → byte} {w rest : List byte} {rounds p : Nat} (enough : w.length < rounds)
    (no_space : SPACE ∉ w) (proper : 0#8 ∉ w) (spells : Spells s p (w ++ SPACE :: rest)) :
    strchr s SPACE rounds p = some (some (p + w.length)) := by
  obtain ⟨left,more⟩ : ∃ k, rounds - w.length = k + 1 := ⟨rounds - w.length - 1,by omega⟩
  rw [strchr_word enough.le no_space proper spells,more,strchr,if_pos (spells_drop spells).1]

theorem strchr_none {s : Nat → byte} {w : List byte} {rounds p : Nat} (enough : w.length < rounds)
    (no_space : SPACE ∉ w) (proper : 0#8 ∉ w) (spells : Spells s p w) : strchr s SPACE rounds p = some none := by
  obtain ⟨left,more⟩ : ∃ k, rounds - w.length = k + 1 := ⟨rounds - w.length - 1,by omega⟩
  have whole : Spells s p (w ++ []) := by rwa [List.append_nil]
  have last : s (p + w.length) = 0#8 := spells_drop whole
  rw [strchr_word enough.le no_space proper whole,more,strchr,last,if_neg (by decide),if_pos rfl]

/-- The loop cuts the rest of the line into pieces behind those that are done. -/
theorem split_pieces {max_size max_argc : Nat} : ∀ (rounds : Nat) {i : Nat} {argv : List Nat} {cmdline : Nat → byte}
    {rest : List byte} {done : List (List byte)}, i + rest.length = max_size → rest.length < rounds →
    Spells cmdline i rest → 0#8 ∉ rest →
    List.Forall₂ (fun p w => Spells cmdline p w ∧ p + w.length < i) argv done →
    done.length + (words rest).length < max_argc →
    ∃ after ws, split max_size max_argc rounds i argv cmdline = some after ∧ Pieces rest ws ∧ after.returns = 0 ∧
      after.argc = some (done ++ ws).length ∧ List.Forall₂ (Spells after.cmdline) after.argv (done ++ ws) := by
  intro rounds
  induction rounds with
  | zero => exact fun _ enough => absurd enough (Nat.not_lt_zero _)
  | succ rounds ih =>
    intro i argv cmdline rest done place enough spells proper before few
    rw [split]
    cases rest with
    | nil =>
      rw [List.length_nil,Nat.add_zero] at place
      rw [if_pos place.ge]
      refine ⟨_,[],rfl,.nil,rfl,?_,?_⟩
      · rw [List.append_nil,before.length_eq]
      · rw [List.append_nil]
        exact before.imp fun p w both => both.1
    | cons c rest =>
      have here : cmdline i = c := spells.1
      rw [List.length_cons] at place enough
      rw [if_neg (by omega),here]
      by_cases sep : separator c = true
      · rw [if_pos ((separator_iff c).mp sep)]
        rw [words_skip sep] at few
        have still : List.Forall₂ (fun p w => Spells cmdline p w ∧ p + w.length < i + 1) argv done :=
          before.imp fun p w both => ⟨both.1,Nat.lt_succ_of_lt both.2⟩
        obtain ⟨after,ws,run,pieces,right⟩ := ih (by omega) (by omega) spells.2
          (fun zero => proper (List.mem_cons_of_mem _ zero)) still few
        exact ⟨after,ws,run,.skip sep pieces,right⟩
      have inside : separator c = false := Bool.eq_false_iff.mpr sep
      have some_word := List.length_pos_iff.mpr (words_ne_nil inside : words (c :: rest) ≠ [])
      have length := before.length_eq
      have letter : c ≠ SPACE := by
        rintro rfl
        exact sep (by decide)
      rw [if_neg (mt (separator_iff c).mpr sep)]
      dsimp only
      rw [List.length_append,List.length_singleton,if_neg (by omega)]
      by_cases space : SPACE ∈ rest
      · -- the word ends at the next space, and the loop goes on behind it
        obtain ⟨w,rest,rfl,before_space⟩ := List.eq_append_cons_of_mem space
        rw [List.length_append,List.length_cons] at place enough
        have no_space : SPACE ∉ c :: w := by
          rw [List.mem_cons,not_or]
          exact ⟨Ne.symm letter,before_space⟩
        have part : 0#8 ∉ c :: w := fun zero => proper (List.mem_append_left (SPACE :: rest) zero)
        have search : strchr cmdline SPACE (max_size + 1) i = some (some (i + (c :: w).length)) :=
          strchr_found (by rw [List.length_cons]; omega) no_space part spells
        have step : i + (i + (c :: w).length - i + 1) = i + (c :: w).length + 1 := by omega
        have behind : Spells (Function.update cmdline (i + (c :: w).length) 0#8) (i + (c :: w).length + 1) rest := by
          refine (spells_update (.inl (Nat.lt_succ_self _))).mpr ?_
          have whole : Spells cmdline i ((c :: w) ++ SPACE :: rest) := spells
          exact (spells_drop whole).2
        have still : List.Forall₂ (fun p v => Spells (Function.update cmdline (i + (c :: w).length) 0#8) p v ∧
            p + v.length < i + (c :: w).length + 1) (argv ++ [i]) (done ++ [c :: w]) := by
          refine List.rel_append (before.imp fun p v both => ⟨?_,by omega⟩) (.cons ⟨spells_cut spells,Nat.lt_succ_self _⟩ .nil)
          exact (spells_update (.inr (by omega))).mpr both.1
        have fewer : (done ++ [c :: w]).length + (words rest).length < max_argc := by
          have some_word := List.length_pos_iff.mpr (words_ne_nil inside : words (c :: w) ≠ [])
          have parts := words_append (c :: w) rest (show separator SPACE = true by decide)
          rw [List.cons_append] at parts
          rw [parts,List.length_append] at few
          rw [List.length_append,List.length_singleton]
          omega
        rw [search]
        dsimp only
        rw [step]
        obtain ⟨after,ws,run,pieces,returns,argc,right⟩ := ih (by rw [List.length_cons]; omega) (by omega) behind
          (fun zero => proper (List.mem_cons_of_mem _ (List.mem_append_right w (List.mem_cons_of_mem _ zero)))) still fewer
        rw [List.append_assoc] at argc right
        exact ⟨after,(c :: w) :: ws,run,.word inside before_space pieces,returns,argc,right⟩
      · have no_space : SPACE ∉ c :: rest := by
          rw [List.mem_cons,not_or]
          exact ⟨Ne.symm letter,space⟩
        have search : strchr cmdline SPACE (max_size + 1) i = some none :=
          strchr_none (by rw [List.length_cons]; omega) no_space proper spells
        rw [search]
        refine ⟨_,[c :: rest],rfl,.last inside space,rfl,?_,?_⟩
        · rw [List.length_append,List.length_singleton,length]
        · exact List.rel_append (before.imp fun p w both => both.1) (.cons spells .nil)

/-- With room for its words the line is split into them exactly when no tab comes directly behind a word. -/
theorem splits_iff {cmdline : Nat → byte} {line : List byte} {max_argc : Nat} (spells : Spells cmdline 0 line)
    (proper : 0#8 ∉ line) (few : (words line).length < max_argc) : Splits cmdline max_argc line ↔ TabsApart line := by
  obtain ⟨after,ws,run,pieces,returns,argc,right⟩ := split_pieces (line.length + 1) (Nat.zero_add _) (Nat.lt_succ_self _)
    spells proper .nil (by rwa [List.length_nil,Nat.zero_add])
  rw [List.nil_append] at argc right
  rw [← pieces.words_iff]
  constructor
  · rintro ⟨other,same,_,_,spelled⟩
    obtain rfl := Option.some.inj (run.symm.trans same)
    refine all_unique ?_ ?_ right spelled
    · exact fun w member zero => proper (pieces.from_line w member _ zero)
    · exact fun w member zero => proper (words_apart member _ zero).2
  · intro same
    rw [same] at argc right
    exact ⟨after,run,returns,argc,right⟩

/-- Leading, mixed and trailing separators. -/
theorem two_words : Splits (fun p => [SPACE,97#8,SPACE,TAB,98#8,SPACE].getD p 0#8) 64 [SPACE,97#8,SPACE,TAB,98#8,SPACE] := by
  refine (splits_iff ?_ (by decide) (by decide)).mpr ?_
  · simp [Spells]
  · unfold TabsApart
    decide

/-- The tab stays in the word, and the word behind it is none of its own. -/
theorem tab_behind_word : (words [97#8,TAB,98#8]).length = 2 ∧
    ¬Splits (fun p => [97#8,TAB,98#8].getD p 0#8) 64 [97#8,TAB,98#8] := by
  refine ⟨by decide,?_⟩
  rintro ⟨after,run,_,argc,_⟩
  cases run
  exact absurd argc (by decide)

end GridOS.CmdLine
