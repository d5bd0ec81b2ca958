import GridOS.Modifiers

/-!
The ring of packages between `kb_input_stream` and `kb_read_input`, with reads between any two rounds of the
loop that stores the codes of a key. The codes of a key are the bytes of a table entry up to a 0, and an entry
from `'\201'` on has none: its sequence goes on into the entries behind it.
-/
namespace GridOS.KeyboardQueue
open GridOS.Keyboard
open GridOS.Modifiers (plain store_code_ext_code)

/-- The first package, when there is one; without one the call waits. -/
def kb_read_input (dev : ifi_device) : Option (ifi_package × ifi_device) :=
  if dev.free_count = IFI_DEVICE_PKG_COUNT then none else
  some (dev.ifi_buffer dev.fetch_pos,
    { dev with fetch_pos := if dev.fetch_pos + 1 = IFI_DEVICE_PKG_COUNT then 0 else dev.fetch_pos + 1
               free_count := dev.free_count + 1 })

section Input
variable (behind : Nat → Nat)

/-- `kb_input_stream` up to the loop that stores: the codes that the loop stores, and the device before it. -/
def kb_input_codes (dev : ifi_device) (e : Scan) : List Nat × ifi_device :=
  if plain e then
    let code := code_of behind (table_name dev e.scancode e.down) e.scancode (code_table dev)
    (if dev.free_count < code.length then [] else code,dev)
  else ([],(kb_input_stream behind dev e).2)

/-- The call is this and the loop. -/
theorem kb_input_stream_eq (dev : ifi_device) (e : Scan) : kb_input_stream behind dev e =
    ((kb_input_codes behind dev e).1.length,(kb_input_codes behind dev e).1.foldl store (kb_input_codes behind dev e).2) := by
  unfold kb_input_codes
  by_cases other : plain e
  · rw [if_pos other]
    obtain ⟨extend,left,right,caps⟩ := other
    rw [kb_input_stream,if_neg extend,if_neg (by simp [left,right]),if_neg caps,store_code]
    dsimp only
    split
    · rfl
    · rfl
  · have nothing : (kb_input_stream behind dev e).1 = 0 := by
      unfold kb_input_stream
      split
      · rfl
      · next extend =>
        split
        · split
          · rfl
          · split <;> rfl
        · next shift =>
          split
          · split <;> rfl
          · next caps => exact absurd ⟨extend,fun left => shift (.inl left),fun right => shift (.inr right),caps⟩ other
    rw [if_neg other]
    exact Prod.ext nothing rfl

/-! ### Runs -/

inductive Op
  /-- A call of `kb_input_stream` begins; the device is not reentrant. -/
  | input (e : Scan)
  /-- The loop of that call stores a code. -/
  | store
  | read

/-- The device, the codes that the call under way has still to store, and what was stored, read, and given to the loop
    so far. -/
structure System where
  dev : ifi_device
  pending : List Nat
  stored : List ifi_package
  read : List ifi_package
  given : List Nat

def step (s : System) : Op → System
  | .input e =>
    if s.pending ≠ [] then s else
    let codes := kb_input_codes behind s.dev e
    { s with dev := codes.2, pending := codes.1, given := s.given ++ codes.1 }
  | .store =>
    match s.pending with
    | [] => s
    | code :: rest => { s with dev := store s.dev code, pending := rest, stored := s.stored ++ [⟨0,code⟩] }
  | .read =>
    match kb_read_input s.dev with
    | none => s
    | some (package,dev) => { s with dev, read := s.read ++ [package] }

def run (ops : List Op) : System := ops.foldl (step behind) ⟨ifi_device_create,[],[],[],[]⟩

end Input

/-- Free and unread packages are all there are, the packages are read in the order they were stored, none is overwritten
    before it is read, and the codes stored are those given to the loop. -/
structure Sound (s : System) : Prop where
  count : s.read.length ≤ s.stored.length ∧
    s.dev.free_count + (s.stored.length - s.read.length) = IFI_DEVICE_PKG_COUNT
  order : s.read <+: s.stored
  kept : ∀ j, s.read.length ≤ j → ∀ package, s.stored[j]? = some package →
    s.dev.ifi_buffer (j % IFI_DEVICE_PKG_COUNT) = package
  given : s.stored.map ifi_package.code ++ s.pending = s.given

/-- A key stays in the tables, and gives the loop nothing or its codes, which are at most three. -/
def Right (behind : Nat → Nat) (s : System) : Op → Prop
  | .input e => s.pending = [] → plain e →
      (∀ table, table_name s.dev e.scancode e.down = some table → e.scancode < table.codes.length ∧
        4 * table.codes.getD e.scancode (behind e.scancode) +
          (sequence (code_table s.dev) (table.codes.getD e.scancode (behind e.scancode))).length < 4 * KEY_MAX) ∧
      ((kb_input_codes behind s.dev e).1 = [] ∨ (kb_input_codes behind s.dev e).1.length ≤ 3 ∧
        (kb_input_codes behind s.dev e).1 =
          code_of behind (table_name s.dev e.scancode e.down) e.scancode (code_table s.dev))
  | _ => True

/-- The bytes of the keys whose entries have no 0 in them. -/
def long_sequence (scancode : Nat) : Nat :=
  if 59 ≤ scancode ∧ scancode ≤ 68 then 4 * (69 - scancode)
  else if scancode = 86 then 8 else if scancode = 87 then 4 else 0

/-- A key that is looked up in the table of single codes has a place in it, and is none of the function keys unless the
    bytes of that key do not fit. -/
def Careful (s : System) : Op → Prop
  | .input e => s.pending = [] → plain e → table_name s.dev e.scancode e.down = some .single →
      e.scancode < BASE_KEY_MAX_NUM ∧
        (long_sequence e.scancode = 0 ∨ s.dev.free_count < long_sequence e.scancode)
  | _ => True

/-! ### The tables -/

theorem code_table_cases (dev : ifi_device) :
    code_table dev = shift_code_key ∨ code_table dev = cap_lock_code_key ∨ code_table dev = normal_code_key := by
  unfold code_table
  split
  · exact .inl rfl
  · split
    · exact .inr (.inl rfl)
    · exact .inr (.inr rfl)

/-- The entries that keys lead to have at most three bytes, the function keys apart. -/
def Regular (codes : List Nat) : Prop :=
  ∀ index < 116, (long_sequence index = 0 → (sequence codes index).length ≤ 3) ∧
    (long_sequence index ≠ 0 → (sequence codes index).length = long_sequence index)

instance (codes : List Nat) : Decidable (Regular codes) :=
  inferInstanceAs (Decidable (∀ index < 116, (_ → _) ∧ (_ → _)))

theorem code_table_regular (dev : ifi_device) : Regular (code_table dev) := by
  have shift : Regular shift_code_key := by decide +kernel
  have cap_lock : Regular cap_lock_code_key := by decide +kernel
  have normal : Regular normal_code_key := by decide +kernel
  rcases code_table_cases dev with same | same | same
  · rw [same]; exact shift
  · rw [same]; exact cap_lock
  · rw [same]; exact normal

/-- The extended table has an entry of the code tables for four keys, and the first one for all others. -/
theorem double_key : ∀ index ∈ double_key_table, index = 0 ∨ 112 ≤ index ∧ index < 116 := by decide +kernel

/-! ### The ring -/

section Runs
variable {behind : Nat → Nat} {s : System}

/-- The positions follow the numbers of packages stored and read, and what is pending fits. -/
structure Inv (s : System) : Prop where
  count : s.read.length ≤ s.stored.length ∧
    s.dev.free_count + (s.stored.length - s.read.length) = IFI_DEVICE_PKG_COUNT
  store_pos : s.dev.store_pos = s.stored.length % IFI_DEVICE_PKG_COUNT
  fetch_pos : s.dev.fetch_pos = s.read.length % IFI_DEVICE_PKG_COUNT
  room : s.pending.length ≤ s.dev.free_count
  order : s.read <+: s.stored
  kept : ∀ j, s.read.length ≤ j → ∀ package, s.stored[j]? = some package →
    s.dev.ifi_buffer (j % IFI_DEVICE_PKG_COUNT) = package
  given : s.stored.map ifi_package.code ++ s.pending = s.given

theorem Inv.sound (inv : Inv s) : Sound s := ⟨inv.count,inv.order,inv.kept,inv.given⟩

theorem advance (n : Nat) : (if n % IFI_DEVICE_PKG_COUNT + 1 = IFI_DEVICE_PKG_COUNT then 0
    else n % IFI_DEVICE_PKG_COUNT + 1) = (n + 1) % IFI_DEVICE_PKG_COUNT := by
  unfold IFI_DEVICE_PKG_COUNT
  split
  · omega
  · omega

theorem store_inv (inv : Inv s) : Inv (step behind s .store) := by
  unfold step
  dsimp only
  split
  · exact inv
  · next code rest pending =>
    obtain ⟨le,sum⟩ := inv.count
    have room := inv.room
    rw [pending,List.length_cons] at room
    have length : (s.stored ++ [(⟨0,code⟩ : ifi_package)]).length = s.stored.length + 1 := by simp
    refine ⟨⟨?_,?_⟩,?_,inv.fetch_pos,?_,inv.order.trans (List.prefix_append ..),?_,?_⟩
    · dsimp only; omega
    · dsimp only [store]; omega
    · dsimp only [store]
      rw [inv.store_pos,length]
      exact advance _
    · dsimp only [store]; omega
    · intro j unread package here
      dsimp only [store] at unread here ⊢
      by_cases last : j = s.stored.length
      · subst last
        rw [List.getElem?_concat_length,Option.some.injEq] at here
        rw [inv.store_pos,Function.update_self]
        exact here
      · have old : j < s.stored.length := by
          have inside := (List.getElem?_eq_some_iff.mp here).1
          omega
        rw [List.getElem?_append_left old] at here
        -- fewer than 32 packages are unread, so the places of two of them differ
        have other : j % IFI_DEVICE_PKG_COUNT ≠ s.dev.store_pos := by
          rw [inv.store_pos]
          unfold IFI_DEVICE_PKG_COUNT at *
          omega
        rw [Function.update_of_ne other]
        exact inv.kept j unread package here
    · dsimp only
      rw [← inv.given,pending,List.map_append]
      simp

theorem read_inv (inv : Inv s) : Inv (step behind s .read) := by
  unfold step kb_read_input
  dsimp only
  by_cases empty : s.dev.free_count = IFI_DEVICE_PKG_COUNT
  · rw [if_pos empty]
    exact inv
  · rw [if_neg empty]
    dsimp only
    obtain ⟨le,sum⟩ := inv.count
    have unread : s.read.length < s.stored.length := by omega
    have first := inv.kept s.read.length le_rfl _ (List.getElem?_eq_getElem unread)
    rw [inv.fetch_pos,first]
    refine ⟨⟨?_,?_⟩,inv.store_pos,?_,?_,?_,?_,inv.given⟩
    · simp only [List.length_append,List.length_singleton]; omega
    · simp only [List.length_append,List.length_singleton]; omega
    · dsimp only
      rw [List.length_append,List.length_singleton]
      exact advance _
    · have room := inv.room
      dsimp only
      omega
    · dsimp only
      have same := List.prefix_iff_eq_take.mp inv.order
      have grown := List.take_succ_eq_append_getElem unread
      rw [← same] at grown
      rw [← grown]
      exact List.take_prefix _ _
    · intro j after package here
      dsimp only at after here ⊢
      rw [List.length_append,List.length_singleton] at after
      exact inv.kept j (by omega) package here

/-- A call that stores no code changes the word alone. -/
theorem modifier_dev (dev : ifi_device) {e : Scan} (modifier : ¬plain e) :
    ∃ ext_code, (kb_input_stream behind dev e).2 = { dev with ext_code } := by
  unfold kb_input_stream
  split
  · exact ⟨_,rfl⟩
  · next extend =>
    split
    · split
      · exact ⟨_,rfl⟩
      · split
        · exact ⟨_,rfl⟩
        · exact ⟨dev.ext_code,rfl⟩
    · next shift =>
      split
      · split
        · unfold set_ext_cap_lock_bit
          split
          · exact ⟨_,rfl⟩
          · exact ⟨_,rfl⟩
        · exact ⟨dev.ext_code,rfl⟩
      · next caps => exact absurd ⟨extend,fun left => shift (.inl left),fun right => shift (.inr right),caps⟩ modifier

/-- The codes fit. -/
theorem input_dev (dev : ifi_device) (e : Scan) :
    (kb_input_codes behind dev e).1.length ≤ dev.free_count ∧
      ∃ ext_code, (kb_input_codes behind dev e).2 = { dev with ext_code } := by
  unfold kb_input_codes
  split
  · refine ⟨?_,dev.ext_code,rfl⟩
    dsimp only
    split
    · exact Nat.zero_le _
    · next fits => exact Nat.not_lt.mp fits
  · next modifier => exact ⟨Nat.zero_le _,modifier_dev dev modifier⟩

theorem input_inv (inv : Inv s) (e : Scan) : Inv (step behind s (.input e)) := by
  unfold step
  dsimp only
  split
  · exact inv
  · next idle =>
    have pending : s.pending = [] := not_not.mp idle
    obtain ⟨room,ext_code,dev⟩ := @input_dev behind s.dev e
    rw [dev]
    refine ⟨inv.count,inv.store_pos,inv.fetch_pos,room,inv.order,inv.kept,?_⟩
    rw [← inv.given,pending,List.append_nil]

theorem step_inv (inv : Inv s) (op : Op) : Inv (step behind s op) := by
  cases op with
  | input e => exact input_inv inv e
  | store => exact store_inv inv
  | read => exact read_inv inv

theorem start_inv : Inv ⟨ifi_device_create,[],[],[],[]⟩ where
  count := ⟨le_rfl,rfl⟩
  store_pos := rfl
  fetch_pos := rfl
  room := Nat.zero_le _
  order := List.nil_prefix
  kept := by intro j _ package here; cases here
  given := rfl

theorem run_inv (behind : Nat → Nat) (ops : List Op) : Inv (run behind ops) := by
  induction ops using List.reverseRecOn with
  | nil => exact start_inv
  | append_singleton before op ih =>
    rw [run,List.foldl_concat]
    exact step_inv ih op

/-! ### The codes of a key -/

theorem long_sequence_bounds (scancode : Nat) :
    long_sequence scancode ≤ 40 ∧ (long_sequence scancode ≠ 0 → 3 < long_sequence scancode) := by
  unfold long_sequence
  split
  · omega
  · split
    · omega
    · split <;> omega

/-- An entry that keys lead to ends in the table. -/
theorem sequence_inside (dev : ifi_device) {index : Nat} (inside : index < 116) :
    4 * index + (sequence (code_table dev) index).length < 4 * KEY_MAX := by
  obtain ⟨short,long⟩ := code_table_regular dev index inside
  have bound := (long_sequence_bounds index).1
  by_cases three : long_sequence index = 0
  · have le := short three
    unfold KEY_MAX
    omega
  · rw [long three]
    unfold KEY_MAX
    omega

/-- A key of the extended table has a place there, and at most three codes. -/
theorem double_codes (dev : ifi_device) (e : Scan) :
    e.scancode < double_key_table.length ∧ double_key_table.getD e.scancode (behind e.scancode) < 116 ∧
      (sequence (code_table dev) (double_key_table.getD e.scancode (behind e.scancode))).length ≤ 3 := by
  have length : double_key_table.length = KEY_MAX := by decide +kernel
  have inside : e.scancode < double_key_table.length := by
    have small := e.small
    rw [length]
    unfold KEY_MAX
    omega
  have place := double_key _ (List.getElem_mem inside)
  rw [List.getD_eq_getElem?_getD,List.getElem?_eq_getElem inside,Option.getD_some]
  generalize double_key_table[e.scancode] = index at place
  have bound : index < 116 := by omega
  refine ⟨inside,bound,(code_table_regular dev index bound).1 ?_⟩
  unfold long_sequence
  rw [if_neg (by omega),if_neg (by omega),if_neg (by omega)]

/-- In the table of single codes each key leads to its own place. -/
theorem single_code {scancode : Nat} (inside : scancode < BASE_KEY_MAX_NUM) (default : Nat) :
    single_key_table.getD scancode default = scancode := by
  unfold single_key_table
  rw [List.getD_eq_getElem?_getD,List.getElem?_range inside,Option.getD_some]

/-- A key of the table of single codes has at most three codes unless it is a function key. -/
theorem single_codes_iff (dev : ifi_device) {scancode : Nat} (inside : scancode < BASE_KEY_MAX_NUM) (free_count : Nat) :
    ((code_of behind (some .single) scancode (code_table dev)).length ≤ 3 ∨
      free_count < (code_of behind (some .single) scancode (code_table dev)).length) ↔
      (long_sequence scancode = 0 ∨ free_count < long_sequence scancode) := by
  have same : code_of behind (some .single) scancode (code_table dev) = sequence (code_table dev) scancode := by
    unfold code_of
    dsimp only [KeyTable.codes]
    rw [single_code inside]
  obtain ⟨short,long⟩ := code_table_regular dev scancode (inside.trans (by decide))
  rw [same]
  by_cases three : long_sequence scancode = 0
  · exact iff_of_true (.inl (short three)) (.inl three)
  · rw [long three]
    have more := (long_sequence_bounds scancode).2 three
    omega

/-- Whether the codes that are given to the loop are at most three. -/
theorem input_short_iff {e : Scan} (other : plain e) :
    ((kb_input_codes behind s.dev e).1 = [] ∨ (kb_input_codes behind s.dev e).1.length ≤ 3 ∧
      (kb_input_codes behind s.dev e).1 =
        code_of behind (table_name s.dev e.scancode e.down) e.scancode (code_table s.dev)) ↔
      ((code_of behind (table_name s.dev e.scancode e.down) e.scancode (code_table s.dev)).length ≤ 3 ∨
        s.dev.free_count < (code_of behind (table_name s.dev e.scancode e.down) e.scancode (code_table s.dev)).length) := by
  unfold kb_input_codes
  rw [if_pos other]
  dsimp only
  generalize code_of behind (table_name s.dev e.scancode e.down) e.scancode (code_table s.dev) = code
  by_cases full : s.dev.free_count < code.length
  · simp [full]
  · rw [if_neg full]
    constructor
    · rintro (nothing | ⟨short,_⟩)
      · exact .inl (by simp [nothing])
      · exact .inl short
    · rintro (short | full')
      · exact .inr ⟨short,rfl⟩
      · exact absurd full' full

/-- A key is right exactly when the condition is met. -/
theorem right_iff (op : Op) : Right behind s op ↔ Careful s op := by
  cases op with
  | store => exact Iff.rfl
  | read => exact Iff.rfl
  | input e =>
    unfold Right Careful
    refine forall_congr' (fun idle => forall_congr' (fun other => ?_))
    rw [input_short_iff other]
    cases table : table_name s.dev e.scancode e.down with
    | none =>
      have one : (code_of behind none e.scancode (code_table s.dev)).length ≤ 3 := Nat.le_add_left 1 2
      exact iff_of_true ⟨fun _ wrong => (by cases wrong),.inl one⟩ (fun wrong => by cases wrong)
    | some name =>
      cases name with
      | double =>
        obtain ⟨inside,bound,three⟩ := @double_codes behind s.dev e
        refine iff_of_true ⟨?_,.inl three⟩ (fun wrong => by cases wrong)
        intro name same
        obtain rfl := Option.some.inj same
        exact ⟨inside,sequence_inside s.dev bound⟩
      | single =>
        have length : single_key_table.length = BASE_KEY_MAX_NUM := List.length_range
        simp only [forall_const]
        constructor
        · rintro ⟨places,codes⟩
          have inside : e.scancode < BASE_KEY_MAX_NUM := by
            rw [← length]
            exact (places .single rfl).1
          exact ⟨inside,(single_codes_iff s.dev inside _).mp codes⟩
        · rintro ⟨inside,codes⟩
          refine ⟨?_,(single_codes_iff s.dev inside _).mpr codes⟩
          intro name same
          obtain rfl := Option.some.inj same
          dsimp only [KeyTable.codes]
          rw [single_code inside,length]
          exact ⟨inside,sequence_inside s.dev (inside.trans (by decide))⟩

/-- Every state of a run is sound, and every key of a run is right exactly when the condition is met. -/
theorem queue_right_iff (behind : Nat → Nat) (ops : List Op) :
    ((∀ before, before <+: ops → Sound (run behind before)) ∧
      ∀ before op, before ++ [op] <+: ops → Right behind (run behind before) op) ↔
      ∀ before op, before ++ [op] <+: ops → Careful (run behind before) op := by
  constructor
  · rintro ⟨_,right⟩ before op starts
    exact (right_iff op).mp (right before op starts)
  · intro careful
    constructor
    · intro before _
      exact (run_inv behind before).sound
    · intro before op starts
      exact (right_iff op).mpr (careful before op starts)

/-- F10 gives four codes, and the scan code 111 has no place in the table. -/
theorem function_key : ¬Right (fun _ => 0) (run (fun _ => 0) []) (.input ⟨68,1,by decide⟩) ∧
    ¬Right (fun _ => 0) (run (fun _ => 0) []) (.input ⟨111,1,by decide⟩) := by
  constructor
  · intro right
    have careful := (right_iff _).mp right rfl (by decide) (by decide)
    exact absurd careful (by decide)
  · intro right
    have careful := (right_iff _).mp right rfl (by decide) (by decide)
    exact absurd careful (by decide)

end Runs

end GridOS.KeyboardQueue
