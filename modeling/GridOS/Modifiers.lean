import GridOS.Keyboard

/-!
The shift and caps lock state of the keyboard and the prefix of an extended key, over whole runs of scan codes:
`ext_code` against what the keys say that were pressed and released.
-/
namespace GridOS.Modifiers
open GridOS.Keyboard

/-- What the events of a run say: which shift keys are held, the parity of the presses of caps lock, whether the last event
    was a prefix, and whether there was one at all. -/
structure Keys where
  left : Bool
  right : Bool
  caps : Bool
  prefixed : Bool
  some_prefix : Bool
  deriving DecidableEq

def released : Keys := ⟨false,false,false,false,false⟩

/-- Whether a key is held behind an event: from a press until a release. -/
def held (before : Bool) (down : Int) : Bool := if down = 1 then true else if down = 0 then false else before

def Keys.after (k : Keys) (e : Scan) : Keys :=
  if e.scancode = IF_EXTEND then { k with prefixed := true, some_prefix := true }
  else if e.scancode = KEY_SHIFT_LEFT then { k with left := held k.left e.down, prefixed := false }
  else if e.scancode = KEY_SHIFT_RIGHT then { k with right := held k.right e.down, prefixed := false }
  else if e.scancode = KEY_CAP_LOCK then { k with caps := k.caps ^^ decide (e.down = 1), prefixed := false }
  else { k with prefixed := false }

/-- Any other key. -/
def plain (e : Scan) : Prop :=
  e.scancode ≠ IF_EXTEND ∧ e.scancode ≠ KEY_SHIFT_LEFT ∧ e.scancode ≠ KEY_SHIFT_RIGHT ∧ e.scancode ≠ KEY_CAP_LOCK

instance (e : Scan) : Decidable (plain e) := inferInstanceAs (Decidable (_ ∧ _ ∧ _ ∧ _))

/-- The keys of the number block are looked up in the extended table in any case. -/
def number_block (e : Scan) : Prop := e.scancode > 71 ∧ e.scancode < 81

/-- The state of the device is that of the keys. -/
structure Agrees (dev : ifi_device) (k : Keys) : Prop where
  shift : in_shift_state dev = (k.left || k.right)
  caps : in_cap_lock_state dev = k.caps

/-- A key that is looked up is looked up in the extended table when the event before it is the prefix. -/
def Selects (dev : ifi_device) (k : Keys) (e : Scan) : Prop :=
  plain e → e.down ≠ 0 → (table_name dev e.scancode e.down = some .double ↔ k.prefixed = true ∨ number_block e)

/-- No prefix comes while shift is held or caps lock is on, no shift key is released while the other one is held, and no
    plain key is looked up later behind a prefix unless shift is held or caps lock on. -/
def Careful (k : Keys) (e : Scan) : Prop :=
  (e.scancode = IF_EXTEND → k.left = false ∧ k.right = false ∧ k.caps = false) ∧
  (e.scancode = KEY_SHIFT_LEFT → e.down = 0 → k.right = false) ∧
  (e.scancode = KEY_SHIFT_RIGHT → e.down = 0 → k.left = false) ∧
  (plain e → e.down ≠ 0 → ¬number_block e → k.some_prefix = true →
    k.prefixed = true ∨ k.left = true ∨ k.right = true ∨ k.caps = true)

def keys (events : List Scan) : Keys := events.foldl Keys.after released

section Runs
variable {behind : Nat → Nat}

def run (behind : Nat → Nat) (events : List Scan) : ifi_device :=
  events.foldl (fun dev e => (kb_input_stream behind dev e).2) ifi_device_create

/-! ### The word -/

/-- The word for a state. -/
def word (shift caps some_prefix : Bool) : BitVec 32 :=
  (if shift then EXTER_SHIFT_BIT else 0) ||| (if caps then EXTER_CAP_LOCK_BIT else 0) |||
    (if some_prefix then EXT_CODE_1 else 0)

/-- The word with the bit of caps lock turned over. -/
def turned (ext_code : BitVec 32) : BitVec 32 :=
  if ext_code &&& EXTER_CAP_LOCK_BIT ≠ 0 then ext_code &&& ~~~EXTER_CAP_LOCK_BIT else ext_code ||| EXTER_CAP_LOCK_BIT

/-- What an event does to the word. -/
def ext_code_after (ext_code : BitVec 32) (e : Scan) : BitVec 32 :=
  if e.scancode = IF_EXTEND then EXT_CODE_1
  else if e.scancode = KEY_SHIFT_LEFT ∨ e.scancode = KEY_SHIFT_RIGHT then
    if e.down = 1 then ext_code ||| EXTER_SHIFT_BIT
    else if e.down = 0 then ext_code &&& ~~~EXTER_SHIFT_BIT
    else ext_code
  else if e.scancode = KEY_CAP_LOCK then if e.down = 1 then turned ext_code else ext_code
  else ext_code

theorem store_ext_code (dev : ifi_device) (code : List Nat) : (code.foldl store dev).ext_code = dev.ext_code := by
  induction code generalizing dev with
  | nil => rfl
  | cons first rest ih => rw [List.foldl_cons,ih]; rfl

theorem store_code_ext_code (dev : ifi_device) (table : Option KeyTable) (scancode : Nat) (codes : List Nat) :
    (store_code behind dev table scancode codes).2.ext_code = dev.ext_code := by
  unfold store_code
  dsimp only
  split
  · rfl
  · exact store_ext_code dev _

theorem turn_ext_code (dev : ifi_device) : (set_ext_cap_lock_bit dev).ext_code = turned dev.ext_code := by
  unfold set_ext_cap_lock_bit turned in_cap_lock_state
  split
  · next set => rw [if_pos (of_decide_eq_true set)]
  · next clear => rw [if_neg (fun set => clear (decide_eq_true set))]

theorem input_ext_code (dev : ifi_device) (e : Scan) :
    (kb_input_stream behind dev e).2.ext_code = ext_code_after dev.ext_code e := by
  unfold kb_input_stream ext_code_after
  split
  · rfl
  · split
    · split
      · rfl
      · split <;> rfl
    · split
      · split
        · exact turn_ext_code dev
        · rfl
      · exact store_code_ext_code dev _ _ _

theorem word_shift (shift caps some_prefix : Bool) :
    word shift caps some_prefix ||| EXTER_SHIFT_BIT = word true caps some_prefix ∧
      word shift caps some_prefix &&& ~~~EXTER_SHIFT_BIT = word false caps some_prefix := by
  cases shift <;> cases caps <;> cases some_prefix <;> decide

theorem word_caps (shift caps some_prefix : Bool) :
    turned (word shift caps some_prefix) = word shift (!caps) some_prefix := by
  cases shift <;> cases caps <;> cases some_prefix <;> decide

theorem word_states (shift caps some_prefix : Bool) :
    (decide (word shift caps some_prefix &&& EXTER_SHIFT_BIT ≠ 0) = shift ∧
      decide (word shift caps some_prefix &&& EXTER_CAP_LOCK_BIT ≠ 0) = caps) ∧
      (word shift caps some_prefix = EXT_CODE_1 ↔ shift = false ∧ caps = false ∧ some_prefix = true) := by
  cases shift <;> cases caps <;> cases some_prefix <;> decide

/-! ### One event -/

/-- The word is that of the keys, and directly behind a prefix no other bit is set. -/
structure Inv (dev : ifi_device) (k : Keys) : Prop where
  ext_code : dev.ext_code = word (k.left || k.right) k.caps k.some_prefix
  alone : k.prefixed = true → k.left = false ∧ k.right = false ∧ k.caps = false ∧ k.some_prefix = true

variable {dev : ifi_device} {k : Keys} {e : Scan}

theorem Inv.agrees (inv : Inv dev k) : Agrees dev k := by
  obtain ⟨⟨shift,caps⟩,_⟩ := word_states (k.left || k.right) k.caps k.some_prefix
  constructor
  · rw [in_shift_state,inv.ext_code]; exact shift
  · rw [in_cap_lock_state,inv.ext_code]; exact caps

/-- The table of a plain key, by what the keys say. -/
theorem Inv.table_name (inv : Inv dev k) (down : e.down ≠ 0) : table_name dev e.scancode e.down = some .double ↔
    ((k.left || k.right) = false ∧ k.caps = false ∧ k.some_prefix = true) ∨ number_block e := by
  have prefix_alone := (word_states (k.left || k.right) k.caps k.some_prefix).2
  rw [Keyboard.table_name,if_neg down,inv.ext_code]
  unfold number_block
  split
  · next extended =>
    rw [prefix_alone] at extended
    exact iff_of_true rfl extended
  · next single =>
    rw [prefix_alone] at single
    exact iff_of_false (by simp) single

/-- A plain key is looked up rightly exactly when the condition is met. -/
theorem Inv.selects_iff (inv : Inv dev k) : Selects dev k e ↔
    (plain e → e.down ≠ 0 → ¬number_block e → k.some_prefix = true →
      k.prefixed = true ∨ k.left = true ∨ k.right = true ∨ k.caps = true) := by
  unfold Selects
  refine forall_congr' (fun _ => forall_congr' (fun down => ?_))
  rw [inv.table_name down]
  have alone := inv.alone
  by_cases block : number_block e
  · simp [block]
  · simp only [block,or_false,not_false_eq_true,true_imp_iff]
    revert alone
    cases k.left <;> cases k.right <;> cases k.caps <;> cases k.some_prefix <;> cases k.prefixed <;> decide

/-- The word behind an event. -/
theorem Inv.after_word (inv : Inv dev k) (behind : Nat → Nat) : (kb_input_stream behind dev e).2.ext_code =
    if e.scancode = IF_EXTEND then word false false true
    else if e.scancode = KEY_SHIFT_LEFT ∨ e.scancode = KEY_SHIFT_RIGHT then
      word (held (k.left || k.right) e.down) k.caps k.some_prefix
    else if e.scancode = KEY_CAP_LOCK then word (k.left || k.right) (k.caps ^^ decide (e.down = 1)) k.some_prefix
    else word (k.left || k.right) k.caps k.some_prefix := by
  obtain ⟨set,clear⟩ := word_shift (k.left || k.right) k.caps k.some_prefix
  rw [input_ext_code,inv.ext_code]
  unfold ext_code_after held
  split
  · decide
  · split
    · split
      · exact set
      · split
        · exact clear
        · rfl
    · split
      · by_cases press : e.down = 1
        · rw [if_pos press,decide_eq_true press,word_caps,Bool.xor_true]
        · rw [if_neg press,decide_eq_false press,Bool.xor_false]
      · rfl

theorem agrees_word {shift caps some_prefix : Bool} (ext_code : dev.ext_code = word shift caps some_prefix) :
    Agrees dev k ↔ shift = (k.left || k.right) ∧ caps = k.caps := by
  obtain ⟨⟨shift_bit,caps_bit⟩,_⟩ := word_states shift caps some_prefix
  rw [← ext_code] at shift_bit caps_bit
  constructor
  · rintro ⟨shift_state,caps_state⟩
    exact ⟨shift_bit.symm.trans shift_state,caps_bit.symm.trans caps_state⟩
  · rintro ⟨shift_state,caps_state⟩
    exact ⟨shift_bit.trans shift_state,caps_bit.trans caps_state⟩

/-- One bit for two keys is right until one of them is released while the other is held. -/
theorem held_or (one other : Bool) (down : Int) :
    held (one || other) down = (held one down || other) ↔ (down = 0 → other = false) := by
  unfold held
  by_cases press : down = 1
  · simp [press]
  · by_cases release : down = 0
    · simp [release]
    · simp [press,release]

/-- Whether an event leaves the state right is the rest of the condition. -/
theorem Inv.after_agrees_iff (inv : Inv dev k) (behind : Nat → Nat) :
    Agrees (kb_input_stream behind dev e).2 (k.after e) ↔
      (e.scancode = IF_EXTEND → k.left = false ∧ k.right = false ∧ k.caps = false) ∧
      (e.scancode = KEY_SHIFT_LEFT → e.down = 0 → k.right = false) ∧
      (e.scancode = KEY_SHIFT_RIGHT → e.down = 0 → k.left = false) := by
  have ext_code := inv.after_word (e := e) behind
  unfold Keys.after
  by_cases extend : e.scancode = IF_EXTEND
  · rw [if_pos extend] at ext_code ⊢
    rw [agrees_word ext_code,extend]
    constructor
    · rintro ⟨shift,caps⟩
      obtain ⟨left,right⟩ := Bool.or_eq_false_iff.mp shift.symm
      exact ⟨fun _ => ⟨left,right,caps.symm⟩,fun wrong => absurd wrong (by decide),fun wrong => absurd wrong (by decide)⟩
    · rintro ⟨no_bit,_⟩
      obtain ⟨left,right,caps⟩ := no_bit rfl
      rw [left,right,caps]
      exact ⟨rfl,rfl⟩
  · rw [if_neg extend] at ext_code ⊢
    by_cases left : e.scancode = KEY_SHIFT_LEFT
    · rw [if_pos (.inl left)] at ext_code
      rw [if_pos left,agrees_word ext_code,left]
      simp [IF_EXTEND,KEY_SHIFT_LEFT,KEY_SHIFT_RIGHT,held_or]
    · by_cases right : e.scancode = KEY_SHIFT_RIGHT
      · rw [if_pos (.inr right),Bool.or_comm k.left] at ext_code
        rw [if_neg left,if_pos right,agrees_word ext_code,right]
        simp [IF_EXTEND,KEY_SHIFT_LEFT,KEY_SHIFT_RIGHT,Bool.or_comm k.left,held_or]
      · rw [if_neg (by simp [left,right])] at ext_code
        rw [if_neg left,if_neg right]
        by_cases caps : e.scancode = KEY_CAP_LOCK
        · rw [if_pos caps] at ext_code ⊢
          rw [agrees_word ext_code]
          simp [extend,left,right]
        · rw [if_neg caps] at ext_code ⊢
          rw [agrees_word ext_code]
          simp [extend,left,right]

theorem Inv.step (inv : Inv dev k) (behind : Nat → Nat) (careful : Careful k e) :
    Inv (kb_input_stream behind dev e).2 (k.after e) := by
  obtain ⟨no_bit,no_right,no_left,_⟩ := careful
  have ext_code := inv.after_word (e := e) behind
  unfold Keys.after
  by_cases extend : e.scancode = IF_EXTEND
  · obtain ⟨left,right,caps⟩ := no_bit extend
    rw [if_pos extend] at ext_code ⊢
    refine ⟨?_,fun _ => ⟨left,right,caps,rfl⟩⟩
    rw [ext_code,left,right,caps]
    rfl
  · rw [if_neg extend] at ext_code ⊢
    by_cases left : e.scancode = KEY_SHIFT_LEFT
    · rw [if_pos (.inl left),(held_or _ _ _).mpr (no_right left)] at ext_code
      rw [if_pos left]
      exact ⟨ext_code,fun behind_prefix => by cases behind_prefix⟩
    · rw [if_neg left]
      by_cases right : e.scancode = KEY_SHIFT_RIGHT
      · rw [if_pos (.inr right),Bool.or_comm k.left,(held_or _ _ _).mpr (no_left right),Bool.or_comm _ k.left] at ext_code
        rw [if_pos right]
        exact ⟨ext_code,fun behind_prefix => by cases behind_prefix⟩
      · rw [if_neg (by simp [left,right])] at ext_code
        rw [if_neg right]
        by_cases caps : e.scancode = KEY_CAP_LOCK
        · rw [if_pos caps] at ext_code ⊢
          exact ⟨ext_code,fun behind_prefix => by cases behind_prefix⟩
        · rw [if_neg caps] at ext_code ⊢
          exact ⟨ext_code,fun behind_prefix => by cases behind_prefix⟩

theorem Inv.careful_iff (inv : Inv dev k) (behind : Nat → Nat) :
    Careful k e ↔ Agrees (kb_input_stream behind dev e).2 (k.after e) ∧ Selects dev k e := by
  rw [inv.after_agrees_iff,inv.selects_iff,Careful]
  simp only [and_assoc]

/-! ### Whole runs -/

theorem run_concat (before : List Scan) (e : Scan) :
    run behind (before ++ [e]) = (kb_input_stream behind (run behind before) e).2 := by simp [run]

theorem keys_concat (before : List Scan) (e : Scan) : keys (before ++ [e]) = (keys before).after e := by simp [keys]

theorem start_inv : Inv ifi_device_create released := ⟨by decide,fun behind_prefix => by cases behind_prefix⟩

theorem run_inv {events : List Scan} (careful : ∀ before e, before ++ [e] <+: events → Careful (keys before) e)
    (before : List Scan) (starts : before <+: events) : Inv (run behind before) (keys before) := by
  induction before using List.reverseRecOn with
  | nil => exact start_inv
  | append_singleton before e ih =>
    rw [run_concat,keys_concat]
    exact (ih ((List.prefix_append before [e]).trans starts)).step behind (careful before e starts)

/-- As long as the states are right, so is the word. -/
theorem run_inv_of_right {events : List Scan}
    (agrees : ∀ before, before <+: events → Agrees (run behind before) (keys before))
    (selects : ∀ before e, before ++ [e] <+: events → Selects (run behind before) (keys before) e)
    (before : List Scan) (starts : before <+: events) : Inv (run behind before) (keys before) := by
  induction before using List.reverseRecOn with
  | nil => exact start_inv
  | append_singleton before e ih =>
    have inv := ih ((List.prefix_append before [e]).trans starts)
    have after := agrees _ starts
    rw [run_concat,keys_concat] at after ⊢
    exact inv.step behind ((inv.careful_iff behind).mpr ⟨after,selects before e starts⟩)

/-- The shift and caps lock state of every state of a run are those of its keys, and the prefix selects the table for one
    event, exactly when every event of the run meets the condition. -/
theorem modifiers_right_iff (behind : Nat → Nat) (events : List Scan) :
    ((∀ before, before <+: events → Agrees (run behind before) (keys before)) ∧
      ∀ before e, before ++ [e] <+: events → Selects (run behind before) (keys before) e) ↔
      ∀ before e, before ++ [e] <+: events → Careful (keys before) e := by
  constructor
  · rintro ⟨agrees,selects⟩ before e starts
    have inv := run_inv_of_right agrees selects before ((List.prefix_append before [e]).trans starts)
    have after := agrees _ starts
    rw [run_concat,keys_concat] at after
    exact (inv.careful_iff behind).mpr ⟨after,selects before e starts⟩
  · intro careful
    constructor
    · intro before starts
      exact (run_inv careful before starts).agrees
    · intro before e starts
      have inv : Inv (run behind before) (keys before) := run_inv careful before ((List.prefix_append before [e]).trans starts)
      exact ((inv.careful_iff behind).mp (careful before e starts)).2

/-- An arrow key while caps lock is on turns it off, and the letter behind the arrow key is looked up as an arrow key; and
    with both shift keys held, one release ends the state. -/
theorem prefix_clears :
    ¬Agrees (run (fun _ => 0) [⟨0x3a,1,by decide⟩,⟨0xe0,1,by decide⟩])
      (keys [⟨0x3a,1,by decide⟩,⟨0xe0,1,by decide⟩]) ∧
    ¬Selects (run (fun _ => 0) [⟨0xe0,1,by decide⟩,⟨0x48,1,by decide⟩])
      (keys [⟨0xe0,1,by decide⟩,⟨0x48,1,by decide⟩]) ⟨0x1e,1,by decide⟩ ∧
    ¬Agrees (run (fun _ => 0) [⟨0x2a,1,by decide⟩,⟨0x36,1,by decide⟩,⟨0x2a,0,by decide⟩])
      (keys [⟨0x2a,1,by decide⟩,⟨0x36,1,by decide⟩,⟨0x2a,0,by decide⟩]) := by
  refine ⟨?_,?_,?_⟩
  · rintro ⟨_,caps⟩
    exact absurd caps (by decide +kernel)
  · intro selects
    have extended : table_name (run (fun _ => 0) [⟨0xe0,1,by decide⟩,⟨0x48,1,by decide⟩]) 0x1e 1 = some .double := by
      decide +kernel
    rcases (selects (by unfold plain; decide) (by decide)).mp extended with prefixed | ⟨low,_⟩
    · exact absurd prefixed (by decide)
    · exact absurd low (by decide)
  · rintro ⟨shift,_⟩
    exact absurd shift (by decide +kernel)

end Runs

end GridOS.Modifiers
