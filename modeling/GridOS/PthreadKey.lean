import Mathlib.Tactic
import Mathlib.Data.List.Nodup

/-!
The keys of `source/libs/pthread/pthread_key.c` and `pthread_specific.c`. A key is a place in an array of
destructors that grows by doubling, and the tables of the threads are in a second array that grows the same
way. The hash tables themselves are maps. The check of a key lets one place behind the array pass, and what
is read there is whatever it is.
-/
namespace GridOS.PthreadKey

/-- `(destructort_t)-1`. -/
def DESTRUCTORT_INVALID : Nat := 4294967295

section Code
variable {α τ : Type} [DecidableEq α] [DecidableEq τ]

/-! ### The arrays -/

/-- The size that a full array grows to. -/
def new_size (arry : List α) : Nat := if arry.length = 0 then 8 else arry.length <<< 1

/-- The place of the element and the array with it, when there is memory for an array that has to grow. A pointer that is
    -1 is `invalid` here. -/
def find_elem_index_and_add_to_arry (invalid elem : α) (arry : List α) (memory : Bool) : Option (Nat × List α) :=
  let specific_index := arry.findIdx (fun x => decide (x = invalid))
  if specific_index < arry.length then some (specific_index,arry.set specific_index elem) else
  if ¬memory then none else
  let grown := arry ++ List.replicate (new_size arry - arry.length) invalid
  some (specific_index,grown.set specific_index elem)

/-- The array grows to a size in bytes that 32 bits do not hold. -/
def too_large (invalid : α) (arry : List α) (memory : Bool) : Bool :=
  memory && decide (arry.length ≤ arry.findIdx (fun x => decide (x = invalid)) ∧ 4294967296 ≤ new_size arry * 4)

/-! ### The calls -/

/-- The arrays, and for each thread whether it has a table and what is in it; NULL is 0. -/
structure State (τ : Type) where
  destructort_arry : List Nat
  specific_arry : List (Option τ)
  pt_speci : τ → Bool
  table : τ → Nat → Nat

inductive Result
  | created (key : Nat)
  | ok
  | einval
  | enomem
  | value (v : Nat)
  deriving DecidableEq

/-- The check that three calls make; `behind` is the word behind the array. -/
def key_valid (s : State τ) (key behind : Nat) : Bool :=
  decide (key ≤ s.destructort_arry.length ∧ s.destructort_arry.getD key behind ≠ DESTRUCTORT_INVALID)

def pthread_key_create (destructor : Nat) (memory : Bool) (s : State τ) : State τ × Result :=
  match find_elem_index_and_add_to_arry DESTRUCTORT_INVALID destructor s.destructort_arry memory with
  | some (key,destructort_arry) => ({ s with destructort_arry },.created key)
  | none => (s,.enomem)

/-- The key is removed from each table of the array. -/
def remove_all (key : Nat) (specific_arry : List (Option τ)) (table : τ → Nat → Nat) : τ → Nat → Nat :=
  specific_arry.foldl (fun table entry => match entry with
    | some t => Function.update table t (Function.update (table t) key 0)
    | none => table) table

def pthread_key_delete (key behind : Nat) (s : State τ) : State τ × Result :=
  if key_valid s key behind = false then (s,.einval) else
  ({ s with table := remove_all key s.specific_arry s.table
            destructort_arry := s.destructort_arry.set key DESTRUCTORT_INVALID },.ok)

/-- What the allocations of `pthread_setspecific` come to: the table, a larger array, and room in the table. -/
structure Memory where
  create : Bool
  arry : Bool
  add : Bool

def pthread_setspecific (who : τ) (key value behind : Nat) (memory : Memory) (s : State τ) : State τ × Result :=
  if key_valid s key behind = false then (s,.einval) else
  let added : Option (State τ) :=
    if s.pt_speci who then some s else
    if ¬memory.create then none else
    match find_elem_index_and_add_to_arry none (some who) s.specific_arry memory.arry with
    | some (_,specific_arry) => some { s with specific_arry, pt_speci := Function.update s.pt_speci who true }
    | none => none
  match added with
  | none => (s,.enomem)
  | some s =>
    if ¬memory.add then (s,.enomem) else
    ({ s with table := Function.update s.table who (Function.update (s.table who) key value) },.ok)

def pthread_getspecific (who : τ) (key behind : Nat) (s : State τ) : Nat :=
  if key_valid s key behind = false then 0 else
  if s.pt_speci who then s.table who key else 0

/-! ### Runs -/

inductive Op (τ : Type)
  | create (destructor : Nat) (memory : Bool)
  | delete (key behind : Nat)
  | setspecific (who : τ) (key value behind : Nat) (memory : Memory)
  | getspecific (who : τ) (key behind : Nat)

/-- The state, and the keys that were created and not deleted since. -/
structure System (τ : Type) where
  state : State τ
  live : List Nat

def call (s : State τ) : Op τ → State τ × Result
  | .create destructor memory => pthread_key_create destructor memory s
  | .delete key behind => pthread_key_delete key behind s
  | .setspecific who key value behind memory => pthread_setspecific who key value behind memory s
  | .getspecific who key behind => (s,.value (pthread_getspecific who key behind s))

def live_after (live : List Nat) : Op τ → Result → List Nat
  | .create _ _, .created key => key :: live
  | .delete key _, .ok => live.erase key
  | _, _ => live

def step (s : System τ) (op : Op τ) : System τ :=
  ⟨(call s.state op).1,live_after s.live op (call s.state op).2⟩

def start : System τ := ⟨⟨[],[],fun _ => false,fun _ _ => 0⟩,[]⟩

def run (ops : List (Op τ)) : System τ := ops.foldl step start

/-- A read or write outside an array. -/
def strays (s : State τ) : Op τ → Bool
  | .create _ memory => too_large DESTRUCTORT_INVALID s.destructort_arry memory
  | .delete key _ => decide (key ≤ s.destructort_arry.length ∧ ¬key < s.destructort_arry.length)
  | .setspecific who key _ behind memory =>
    decide (key ≤ s.destructort_arry.length ∧ ¬key < s.destructort_arry.length) ||
      (key_valid s key behind && !s.pt_speci who && memory.create && too_large none s.specific_arry memory.arry)
  | .getspecific _ key _ => decide (key ≤ s.destructort_arry.length ∧ ¬key < s.destructort_arry.length)

/-- What is asked of a call: it stays in the arrays, a created key is a new one that nobody has a value for, and a key is
    accepted when it is live. -/
def Right (s : System τ) (op : Op τ) : Prop :=
  strays s.state op = false ∧ match op with
  | .create _ _ => ∀ key, (call s.state op).2 = .created key →
      key ∉ s.live ∧ ∀ who behind, pthread_getspecific who key behind (call s.state op).1 = 0
  | .delete key _ => (call s.state op).2 = .ok ↔ key ∈ s.live
  | .setspecific _ key _ _ _ => (call s.state op).2 ≠ .einval ↔ key ∈ s.live
  | .getspecific _ key behind => key_valid s.state key behind = true ↔ key ∈ s.live

/-- The live keys are pairwise distinct, and among the places of the array they are the ones that pass the check. -/
structure Sound (s : System τ) : Prop where
  distinct : s.live.Nodup
  accepted : ∀ key < s.state.destructort_arry.length, ∀ behind, key_valid s.state key behind = true ↔ key ∈ s.live

/-- The key is not the length of the array, a destructor is not the mark of a free place unless there is no place for it,
    and no array grows past 2^32 bytes. -/
def Careful (s : State τ) : Op τ → Prop
  | .create destructor memory => too_large DESTRUCTORT_INVALID s.destructort_arry memory = false ∧
      (destructor = DESTRUCTORT_INVALID → memory = false ∧ DESTRUCTORT_INVALID ∉ s.destructort_arry)
  | .delete key _ => key ≠ s.destructort_arry.length
  | .setspecific who key _ behind memory => key ≠ s.destructort_arry.length ∧
      (key_valid s key behind && !s.pt_speci who && memory.create && too_large none s.specific_arry memory.arry) = false
  | .getspecific _ key _ => key ≠ s.destructort_arry.length

end Code

/-! ### One array -/

section Arrays
variable {α : Type} [DecidableEq α] {invalid elem : α} {arry arry' : List α} {memory : Bool} {i : Nat}

omit [DecidableEq α] in
/-- An array that has grown has its elements and free places behind them. -/
theorem grown_get {j : Nat} {x : α} {more : Nat} (used : x ≠ invalid) :
    (arry ++ List.replicate more invalid)[j]? = some x ↔ arry[j]? = some x := by
  by_cases inside : j < arry.length
  · rw [List.getElem?_append_left inside]
  · rw [List.getElem?_append_right (by omega),List.getElem?_eq_none (Nat.not_lt.mp inside),List.getElem?_replicate]
    constructor
    · intro free
      split at free
      · exact absurd (Option.some.inj free).symm used
      · cases free
    · intro none
      cases none

/-- The place was free, and the other places are as they were. -/
theorem add_spec (added : find_elem_index_and_add_to_arry invalid elem arry memory = some (i,arry')) :
    (∀ x, arry[i]? = some x → x = invalid) ∧ arry'[i]? = some elem ∧
      ∀ j x, j ≠ i → x ≠ invalid → (arry'[j]? = some x ↔ arry[j]? = some x) := by
  unfold find_elem_index_and_add_to_arry at added
  dsimp only at added
  split at added
  · next inside =>
    simp only [Option.some.injEq,Prod.mk.injEq] at added
    obtain ⟨rfl,rfl⟩ := added
    refine ⟨?_,?_,?_⟩
    · intro x here
      have free := List.findIdx_getElem (w := inside)
      rw [List.getElem?_eq_getElem inside] at here
      rw [← Option.some.inj here]
      exact of_decide_eq_true free
    · rw [List.getElem?_set_self inside]
    · intro j x other _
      rw [List.getElem?_set_ne (Ne.symm other)]
  · next full =>
    split at added
    · cases added
    · simp only [Option.some.injEq,Prod.mk.injEq] at added
      obtain ⟨rfl,rfl⟩ := added
      have at_end : arry.findIdx (fun x => decide (x = invalid)) = arry.length :=
        Nat.le_antisymm List.findIdx_le_length (Nat.not_lt.mp full)
      rw [at_end]
      have longer : arry.length < new_size arry := by
        unfold new_size
        split
        · omega
        · rw [Nat.shiftLeft_eq]; omega
      refine ⟨?_,?_,?_⟩
      · intro x here
        rw [List.getElem?_eq_none le_rfl] at here
        cases here
      · exact List.getElem?_set_self (by rw [List.length_append,List.length_replicate]; omega)
      · intro j x other used
        rw [List.getElem?_set_ne (Ne.symm other)]
        exact grown_get used

theorem add_fails_iff : find_elem_index_and_add_to_arry invalid elem arry memory = none ↔ memory = false ∧ invalid ∉ arry := by
  have index : arry.findIdx (fun x => decide (x = invalid)) < arry.length ↔ invalid ∈ arry := by
    rw [List.findIdx_lt_length]
    simp
  unfold find_elem_index_and_add_to_arry
  dsimp only
  by_cases free : invalid ∈ arry
  · rw [if_pos (index.mpr free)]
    simp [free]
  · rw [if_neg (fun inside => free (index.mp inside))]
    cases memory <;> simp [free]

end Arrays

/-! ### The invariant -/

section Runs
variable {τ : Type} [DecidableEq τ] {s : System τ}

/-- The live keys are the used places, each table is in the second array, and no table has a value for a key that is not
    live. -/
structure Inv (s : System τ) : Prop where
  distinct : s.live.Nodup
  live : ∀ key, key ∈ s.live ↔ ∃ w, s.state.destructort_arry[key]? = some w ∧ w ≠ DESTRUCTORT_INVALID
  registered : ∀ t, s.state.pt_speci t = true → some t ∈ s.state.specific_arry
  clean : ∀ t key, key ∉ s.live → s.state.table t key = 0
  empty : ∀ t, s.state.pt_speci t = false → ∀ key, s.state.table t key = 0

omit [DecidableEq τ] in
theorem key_valid_used {s : State τ} {key : Nat} (apart : key ≠ s.destructort_arry.length) (behind : Nat) :
    key_valid s key behind = true ↔ ∃ w, s.destructort_arry[key]? = some w ∧ w ≠ DESTRUCTORT_INVALID := by
  unfold key_valid
  rw [decide_eq_true_iff]
  constructor
  · rintro ⟨le,used⟩
    have inside : key < s.destructort_arry.length := by omega
    rw [List.getD_eq_getElem?_getD,List.getElem?_eq_getElem inside,Option.getD_some] at used
    exact ⟨_,List.getElem?_eq_getElem inside,used⟩
  · rintro ⟨w,here,used⟩
    have inside := (List.getElem?_eq_some_iff.mp here).1
    refine ⟨le_of_lt inside,?_⟩
    rw [List.getD_eq_getElem?_getD,here,Option.getD_some]
    exact used

omit [DecidableEq τ] in
theorem Inv.accepted (inv : Inv s) {key : Nat} (apart : key ≠ s.state.destructort_arry.length) (behind : Nat) :
    key_valid s.state key behind = true ↔ key ∈ s.live :=
  (key_valid_used apart behind).trans (inv.live key).symm

omit [DecidableEq τ] in
theorem Inv.sound (inv : Inv s) : Sound s where
  distinct := inv.distinct
  accepted := fun _ inside behind => inv.accepted (Nat.ne_of_lt inside) behind

omit [DecidableEq τ] in
theorem start_inv : Inv (start : System τ) where
  distinct := List.nodup_nil
  live := by intro key; simp [start]
  registered := by intro t some_table; cases some_table
  clean := fun _ _ _ => rfl
  empty := fun _ _ _ => rfl

theorem remove_all_apply (key : Nat) (specific_arry : List (Option τ)) (table : τ → Nat → Nat) (t : τ) (k : Nat) :
    remove_all key specific_arry table t k = if k = key ∧ some t ∈ specific_arry then 0 else table t k := by
  unfold remove_all
  induction specific_arry generalizing table with
  | nil => simp
  | cons entry rest ih =>
    rw [List.foldl_cons,ih]
    cases entry with
    | none => simp
    | some other =>
      by_cases self : t = other
      · subst self
        by_cases same : k = key
        · simp [same]
        · simp [same]
      · simp [self]

/-! ### Each call -/

theorem create_right (inv : Inv s) {destructor : Nat} {memory : Bool} (careful : Careful s.state (.create destructor memory)) :
    Right s (.create destructor memory) ∧ Inv (step s (.create destructor memory)) := by
  obtain ⟨small,mark⟩ := careful
  cases added : find_elem_index_and_add_to_arry DESTRUCTORT_INVALID destructor s.state.destructort_arry memory with
  | none =>
    have result : call s.state (.create destructor memory) = (s.state,.enomem) := by
      rw [call,pthread_key_create,added]
    refine ⟨⟨small,?_⟩,?_⟩
    · intro key created
      rw [result] at created
      cases created
    · rw [step,result]
      exact inv
  | some place =>
    obtain ⟨key,arry⟩ := place
    have result : call s.state (.create destructor memory) = ({ s.state with destructort_arry := arry },.created key) := by
      rw [call,pthread_key_create,added]
    have used : destructor ≠ DESTRUCTORT_INVALID := by
      intro is_mark
      rw [add_fails_iff.mpr (mark is_mark)] at added
      cases added
    obtain ⟨free,here,others⟩ := add_spec added
    have fresh : key ∉ s.live := by
      intro member
      obtain ⟨w,at_key,some_use⟩ := (inv.live key).mp member
      exact some_use (free w at_key)
    refine ⟨⟨small,?_⟩,?_⟩
    · intro key' created
      rw [result] at created ⊢
      obtain rfl : key = key' := Result.created.inj created
      refine ⟨fresh,?_⟩
      intro who behind
      unfold pthread_getspecific
      rw [inv.clean who key fresh]
      split
      · rfl
      · split <;> rfl
    · rw [step,result]
      refine ⟨List.nodup_cons.mpr ⟨fresh,inv.distinct⟩,?_,inv.registered,?_,inv.empty⟩
      · intro k
        dsimp only [live_after]
        rw [List.mem_cons]
        by_cases same : k = key
        · subst same
          simp only [true_or,true_iff]
          exact ⟨destructor,here,used⟩
        · rw [inv.live k]
          constructor
          · rintro (is_key | ⟨w,at_k,some_use⟩)
            · exact absurd is_key same
            · exact ⟨w,(others k w same some_use).mpr at_k,some_use⟩
          · rintro ⟨w,at_k,some_use⟩
            exact .inr ⟨w,(others k w same some_use).mp at_k,some_use⟩
      · intro t k dead
        exact inv.clean t k (fun member => dead (List.mem_cons_of_mem _ member))

omit [DecidableEq τ] in
/-- The check of a key reads outside the first array when the key is its length. -/
theorem stays_iff {s : State τ} {key : Nat} :
    decide (key ≤ s.destructort_arry.length ∧ ¬key < s.destructort_arry.length) = false ↔
      key ≠ s.destructort_arry.length := by
  rw [decide_eq_false_iff_not]
  omega

/-- A call that refuses its key leaves everything as it is. -/
theorem step_einval {op : Op τ} (refused : call s.state op = (s.state,.einval)) : step s op = s := by
  rw [step,refused]
  cases op <;> rfl

/-- The tables of the threads that have one are in the second array, so that the key leaves all of them. -/
theorem delete_inv (inv : Inv s) (key : Nat) :
    Inv ⟨{ s.state with table := remove_all key s.state.specific_arry s.state.table
                        destructort_arry := s.state.destructort_arry.set key DESTRUCTORT_INVALID },s.live.erase key⟩ := by
  refine ⟨inv.distinct.erase key,?_,inv.registered,?_,?_⟩
  · intro k
    rw [inv.distinct.mem_erase_iff,inv.live k]
    by_cases same : k = key
    · subst same
      simp only [ne_eq,not_true_eq_false,false_and,false_iff]
      rintro ⟨w,at_k,used⟩
      rw [List.getElem?_set] at at_k
      simp only [if_true] at at_k
      split at at_k
      · exact used (Option.some.inj at_k).symm
      · cases at_k
    · simp only [same,ne_eq,not_false_eq_true,true_and]
      rw [List.getElem?_set_ne (Ne.symm same)]
  · intro t k dead
    dsimp only
    rw [remove_all_apply]
    split
    · rfl
    · next other =>
      by_cases same : k = key
      · have unregistered : some t ∉ s.state.specific_arry := fun there => other ⟨same,there⟩
        have none : s.state.pt_speci t = false := by
          cases has : s.state.pt_speci t with
          | false => rfl
          | true => exact absurd (inv.registered t has) unregistered
        exact inv.empty t none k
      · exact inv.clean t k (fun there => dead (inv.distinct.mem_erase_iff.mpr ⟨same,there⟩))
  · intro t none k
    dsimp only
    rw [remove_all_apply]
    split
    · rfl
    · exact inv.empty t none k

theorem delete_right (inv : Inv s) {key behind : Nat} (careful : Careful s.state (.delete key behind)) :
    Right s (.delete key behind) ∧ Inv (step s (.delete key behind)) := by
  have inside : strays s.state (.delete key behind) = false := stays_iff.mpr careful
  have accepted := inv.accepted careful behind
  cases valid : key_valid s.state key behind with
  | false =>
    have dead : key ∉ s.live := by rw [← accepted,valid]; decide
    have result : call s.state (.delete key behind) = (s.state,.einval) := by
      rw [call,pthread_key_delete,if_pos valid]
    refine ⟨⟨inside,?_⟩,?_⟩
    · simp [result,dead]
    · rw [step_einval result]
      exact inv
  | true =>
    have member : key ∈ s.live := accepted.mp valid
    have result : call s.state (.delete key behind) =
        ({ s.state with table := remove_all key s.state.specific_arry s.state.table
                        destructort_arry := s.state.destructort_arry.set key DESTRUCTORT_INVALID },.ok) := by
      rw [call,pthread_key_delete,if_neg (by simp [valid])]
    refine ⟨⟨inside,?_⟩,?_⟩
    · simp [result,member]
    · rw [step,result]
      exact delete_inv inv key

/-- A thread gets a table only with a place in the second array. -/
theorem add_table_inv (inv : Inv s) {who : τ} {i : Nat} {arry : List (Option τ)} {memory : Bool}
    (added : find_elem_index_and_add_to_arry none (some who) s.state.specific_arry memory = some (i,arry)) :
    Inv (⟨{ s.state with specific_arry := arry, pt_speci := Function.update s.state.pt_speci who true },s.live⟩ :
      System τ) := by
  obtain ⟨free,here,others⟩ := add_spec added
  refine ⟨inv.distinct,inv.live,?_,inv.clean,?_⟩
  · intro t has
    dsimp only at has ⊢
    by_cases self : t = who
    · rw [self]
      exact List.mem_of_getElem? here
    · rw [Function.update_of_ne self] at has
      obtain ⟨j,at_j⟩ := List.mem_iff_getElem?.mp (inv.registered t has)
      have elsewhere : j ≠ i := by
        rintro rfl
        exact nomatch free (some t) at_j
      exact List.mem_of_getElem? ((others j (some t) elsewhere (by simp)).mpr at_j)
  · intro t none
    dsimp only at none ⊢
    by_cases self : t = who
    · rw [self,Function.update_self] at none
      cases none
    · rw [Function.update_of_ne self] at none
      exact inv.empty t none

theorem add_value_inv (inv : Inv s) {who : τ} {key : Nat} (value : Nat) (has : s.state.pt_speci who = true)
    (member : key ∈ s.live) :
    Inv (⟨{ s.state with table := Function.update s.state.table who (Function.update (s.state.table who) key value) },
      s.live⟩ : System τ) := by
  refine ⟨inv.distinct,inv.live,inv.registered,?_,?_⟩
  · intro t k dead
    dsimp only at dead ⊢
    by_cases self : t = who
    · have other : k ≠ key := by
        rintro rfl
        exact dead member
      rw [self,Function.update_self,Function.update_of_ne other]
      exact inv.clean who k dead
    · rw [Function.update_of_ne self]
      exact inv.clean t k dead
  · intro t none k
    dsimp only at none ⊢
    have self : t ≠ who := by
      rintro rfl
      rw [has] at none
      cases none
    rw [Function.update_of_ne self]
    exact inv.empty t none k

/-- A call with a live key adds a table when the thread has none, and the value when there is room; it fails otherwise. -/
theorem setspecific_valid (inv : Inv s) {who : τ} {key behind : Nat} (value : Nat) (memory : Memory)
    (valid : key_valid s.state key behind = true) (member : key ∈ s.live) :
    (call s.state (.setspecific who key value behind memory)).2 ≠ .einval ∧
      Inv (step s (.setspecific who key value behind memory)) := by
  rw [step,call,pthread_setspecific,if_neg (by simp [valid])]
  dsimp only
  by_cases has : s.state.pt_speci who = true
  · rw [if_pos has]
    dsimp only
    split
    · exact ⟨by simp,inv⟩
    · exact ⟨by simp,add_value_inv inv value has member⟩
  · rw [if_neg has]
    by_cases create : ¬memory.create
    · rw [if_pos create]
      exact ⟨by simp,inv⟩
    · rw [if_neg create]
      cases added : find_elem_index_and_add_to_arry none (some who) s.state.specific_arry memory.arry with
      | none => exact ⟨by simp,inv⟩
      | some place =>
        obtain ⟨i,arry⟩ := place
        dsimp only
        have with_table := add_table_inv inv added
        split
        · exact ⟨by simp,with_table⟩
        · exact ⟨by simp,add_value_inv with_table value (Function.update_self ..) member⟩

theorem setspecific_right (inv : Inv s) {who : τ} {key value behind : Nat} {memory : Memory}
    (careful : Careful s.state (.setspecific who key value behind memory)) :
    Right s (.setspecific who key value behind memory) ∧ Inv (step s (.setspecific who key value behind memory)) := by
  obtain ⟨apart,small⟩ := careful
  have accepted := inv.accepted apart behind
  have inside : strays s.state (.setspecific who key value behind memory) = false := by
    unfold strays
    exact Bool.or_eq_false_iff.mpr ⟨stays_iff.mpr apart,small⟩
  cases valid : key_valid s.state key behind with
  | false =>
    have dead : key ∉ s.live := by rw [← accepted,valid]; decide
    have result : call s.state (.setspecific who key value behind memory) = (s.state,.einval) := by
      rw [call,pthread_setspecific,if_pos valid]
    refine ⟨⟨inside,?_⟩,?_⟩
    · simp [result,dead]
    · rw [step_einval result]
      exact inv
  | true =>
    have member : key ∈ s.live := accepted.mp valid
    obtain ⟨not_einval,after⟩ := setspecific_valid inv value memory valid member
    exact ⟨⟨inside,by simp [not_einval,member]⟩,after⟩

theorem step_right (inv : Inv s) {op : Op τ} (careful : Careful s.state op) : Right s op ∧ Inv (step s op) := by
  cases op with
  | create destructor memory => exact create_right inv careful
  | delete key behind => exact delete_right inv careful
  | setspecific who key value behind memory => exact setspecific_right inv careful
  | getspecific who key behind =>
    exact ⟨⟨stays_iff.mpr careful,inv.accepted careful behind⟩,inv⟩

/-! ### Whole runs -/

theorem run_concat (before : List (Op τ)) (op : Op τ) : run (before ++ [op]) = step (run before) op := by simp [run]

theorem run_inv {ops : List (Op τ)}
    (careful : ∀ before op, before ++ [op] <+: ops → Careful (run before).state op) (before : List (Op τ))
    (starts : before <+: ops) : Inv (run before) := by
  induction before using List.reverseRecOn with
  | nil => exact start_inv
  | append_singleton before op ih =>
    rw [run_concat]
    exact (step_right (ih ((List.prefix_append before [op]).trans starts)) (careful before op starts)).2

/-- A key that was created with the mark of a free place is live, and not accepted. -/
theorem marked_key {destructor : Nat} {memory : Bool} (sound : Sound (step s (.create destructor memory)))
    (mark : destructor = DESTRUCTORT_INVALID) : memory = false ∧ DESTRUCTORT_INVALID ∉ s.state.destructort_arry := by
  cases added : find_elem_index_and_add_to_arry DESTRUCTORT_INVALID destructor s.state.destructort_arry memory with
  | none => exact add_fails_iff.mp added
  | some place =>
    obtain ⟨key,arry⟩ := place
    obtain ⟨_,here,_⟩ := add_spec added
    have after : step s (.create destructor memory) = ⟨{ s.state with destructort_arry := arry },key :: s.live⟩ := by
      rw [step,call,pthread_key_create,added]
      rfl
    rw [after] at sound
    have inside : key < arry.length := (List.getElem?_eq_some_iff.mp here).1
    have valid := (sound.accepted key inside 0).mpr (List.mem_cons_self ..)
    obtain ⟨w,at_key,used⟩ := (key_valid_used (Nat.ne_of_lt inside) 0).mp valid
    rw [here,Option.some.injEq] at at_key
    exact absurd (at_key.symm.trans mark) used

/-- Every call of a run is right and every state of it sound exactly when no call of it has the length of the array as its
    key, none gets a key for the mark of a free place, and no array grows past 2^32 bytes. -/
theorem keys_right_iff (ops : List (Op τ)) :
    ((∀ before, before <+: ops → Sound (run before)) ∧
      ∀ before op, before ++ [op] <+: ops → Right (run before) op) ↔
      ∀ before op, before ++ [op] <+: ops → Careful (run before).state op := by
  constructor
  · rintro ⟨sound,right⟩ before op starts
    obtain ⟨inside,_⟩ := right before op starts
    cases op with
    | create destructor memory =>
      have after := sound _ starts
      rw [run_concat] at after
      exact ⟨inside,marked_key after⟩
    | delete key behind => exact stays_iff.mp inside
    | setspecific who key value behind memory =>
      unfold strays at inside
      rw [Bool.or_eq_false_iff] at inside
      exact ⟨stays_iff.mp inside.1,inside.2⟩
    | getspecific who key behind => exact stays_iff.mp inside
  · intro careful
    constructor
    · intro before starts
      exact (run_inv careful before starts).sound
    · intro before op starts
      have inv := run_inv careful before ((List.prefix_append before [op]).trans starts)
      exact (step_right inv (careful before op starts)).1

/-- Key 0 before any key was created is read from an array that is NULL, and with one key the key 8, which is none, is
    deleted. -/
theorem key_behind_array : ¬Right (run ([] : List (Op Unit))) (.getspecific () 0 5) ∧
    (8 ∉ (run ([.create 7 true] : List (Op Unit))).live ∧
      strays (run ([.create 7 true] : List (Op Unit))).state (.delete 8 5) = true ∧
      (call (run ([.create 7 true] : List (Op Unit))).state (.delete 8 5)).2 = .ok) := by
  constructor
  · rintro ⟨inside,_⟩
    exact absurd inside (by decide)
  · decide

end Runs

end GridOS.PthreadKey
