import GridOS.PthreadKey
import GridOS.IhashRuns

/-!
`pthread_setspecific`, `pthread_getspecific` and `pthread_key_delete` of `source/libs/pthread` with
the hash tables of `ihash.c` as they are: the calls do what they do with maps in place of the
tables.
-/
namespace GridOS.PthreadSpecific
open GridOS.PthreadKey (Op Memory Result find_elem_index_and_add_to_arry DESTRUCTORT_INVALID new_size)
open GridOS.Ihash

variable {τ : Type} [DecidableEq τ]

/-! ### The code -/

structure State (τ : Type) where
  destructort_arry : List Nat
  specific_arry : List (Option τ)
  pt_speci : τ → Bool
  table : τ → hurd_ihash

def key_valid (s : State τ) (key behind : Nat) : Bool :=
  decide (key ≤ s.destructort_arry.length ∧ s.destructort_arry.getD key behind ≠ DESTRUCTORT_INVALID)

def State.set_table (s : State τ) (who : τ) (ht : hurd_ihash) : State τ :=
  { s with table := Function.update s.table who ht }

def pthread_key_create (destructor : Nat) (memory : Bool) (s : State τ) : State τ × Result :=
  match find_elem_index_and_add_to_arry DESTRUCTORT_INVALID destructor s.destructort_arry memory with
  | some (key,destructort_arry) => ({ s with destructort_arry },.created key)
  | none => (s,.enomem)

/-- The loop of `pthread_key_delete` over the tables. -/
def remove_all (key : Nat) (specific_arry : List (Option τ)) (table : τ → hurd_ihash) : τ → hurd_ihash :=
  specific_arry.foldl (fun table entry => match entry with
    | some t => Function.update table t (hurd_ihash_remove (table t) (BitVec.ofNat 32 key)).1
    | none => table) table

def pthread_key_delete (key behind : Nat) (s : State τ) : State τ × Result :=
  if key_valid s key behind = false then (s,.einval) else
  ({ s with table := remove_all key s.specific_arry s.table
            destructort_arry := s.destructort_arry.set key DESTRUCTORT_INVALID },.ok)

/-- The part of `pthread_setspecific` that gives a thread without a table a new one. -/
def create_table (who : τ) (memory : Memory) (s : State τ) : Option (State τ) :=
  if s.pt_speci who then some s else
  if ¬memory.create then none else
  match find_elem_index_and_add_to_arry none (some who) s.specific_arry memory.arry with
  | some (_,specific_arry) =>
    some { s.set_table who hurd_ihash_init with specific_arry, pt_speci := Function.update s.pt_speci who true }
  | none => none

/-- Nothing is returned where `hurd_ihash_add` writes outside its array. -/
def pthread_setspecific (who : τ) (key value behind : Nat) (memory : Memory) (s : State τ) :
    Option (State τ × Result) :=
  if key_valid s key behind = false then some (s,.einval) else
  match create_table who memory s with
  | none => some (s,.enomem)
  | some s =>
    (hurd_ihash_add (s.table who) (BitVec.ofNat 32 key) (BitVec.ofNat 32 value) memory.add).map fun added =>
      (s.set_table who added.ht,if added.r ≠ 0 then .enomem else .ok)

def pthread_getspecific (who : τ) (key behind : Nat) (s : State τ) : Nat :=
  if key_valid s key behind = false then 0 else
  if s.pt_speci who then (hurd_ihash_find (s.table who) (BitVec.ofNat 32 key)).toNat else 0

def call (s : State τ) : Op τ → Option (State τ × Result)
  | .create destructor memory => some (pthread_key_create destructor memory s)
  | .delete key behind => some (pthread_key_delete key behind s)
  | .setspecific who key value behind memory => pthread_setspecific who key value behind memory s
  | .getspecific who key behind => some (s,.value (pthread_getspecific who key behind s))

def start : State τ := ⟨[],[],fun _ => false,fun _ => hurd_ihash_init⟩

def run (s : State τ) : List (Op τ) → Option (State τ × List Result)
  | [] => some (s,[])
  | op :: ops => do
    let (s,result) ← call s op
    let (s,results) ← run s ops
    some (s,result :: results)

/-! ### The tables as maps -/

/-- The values of a table by the numbers of the keys, NULL where there is none. -/
def numbers (ht : hurd_ihash) (key : Nat) : Nat :=
  if key < 2 ^ 32 then ((values ht (BitVec.ofNat 32 key)).getD 0).toNat else 0

/-- The state with maps in place of the tables. -/
def State.abstract (s : State τ) : PthreadKey.State τ :=
  ⟨s.destructort_arry,s.specific_arry,s.pt_speci,fun t => numbers (s.table t)⟩

/-- The results of calls on maps. -/
def map_run (s : PthreadKey.State τ) : List (Op τ) → PthreadKey.State τ × List Result
  | [] => (s,[])
  | op :: ops =>
    let (s,result) := PthreadKey.call s op
    let (s,results) := map_run s ops
    (s,result :: results)

variable {ht ht' : hurd_ihash} {key value : Nat}

theorem numbers_update {found : Option (BitVec 32)} (small : key < 2 ^ 32)
    (values' : values ht' = Function.update (values ht) (BitVec.ofNat 32 key) found) :
    numbers ht' = Function.update (numbers ht) key (found.getD 0).toNat := by
  funext k
  by_cases same : k = key
  · subst same
    rw [Function.update_self,numbers,if_pos small,values',Function.update_self]
  · rw [Function.update_of_ne same,numbers,numbers]
    by_cases inside : k < 2 ^ 32
    · have apart : BitVec.ofNat 32 k ≠ BitVec.ofNat 32 key := by
        intro equal
        have := congrArg BitVec.toNat equal
        rw [BitVec.toNat_ofNat,BitVec.toNat_ofNat,Nat.mod_eq_of_lt inside,Nat.mod_eq_of_lt small] at this
        exact same this
      rw [if_pos inside,if_pos inside,values',Function.update_of_ne apart]
    · rw [if_neg inside,if_neg inside]

theorem numbers_fresh (fresh : Fresh ht) : numbers ht = fun _ => 0 := by
  funext k
  rw [numbers,fresh.values]
  split <;> rfl

/-! ### What the calls keep -/

/-- The numbers fit a word, and a value is none of the two that the table reserves. -/
def Good : Op τ → Prop
  | .create _ _ => True
  | .delete key _ => key < 2 ^ 32
  | .setspecific _ key value _ _ => key < 2 ^ 32 ∧ value < 2 ^ 32 ∧ value_empty (BitVec.ofNat 32 value) = false
  | .getspecific _ key _ => key < 2 ^ 32

instance (op : Op τ) : Decidable (Good op) :=
  match op with
  | .create _ _ => inferInstanceAs (Decidable True)
  | .delete _ _ => inferInstanceAs (Decidable (_ < _))
  | .setspecific .. => inferInstanceAs (Decidable (_ ∧ _ ∧ _))
  | .getspecific .. => inferInstanceAs (Decidable (_ < _))

def sets : Op τ → Nat
  | .setspecific .. => 1
  | _ => 0

/-- The same call; for a table that has room already, whether there is memory for a larger one does not matter. -/
inductive SameCall : Op τ → Op τ → Prop
  | refl {op : Op τ} : SameCall op op
  | room {who : τ} {key value behind : Nat} {create arry : Bool} : SameCall
      (.setspecific who key value behind ⟨create,arry,false⟩) (.setspecific who key value behind ⟨create,arry,true⟩)

/-- Each table is one between two calls, and a thread without a table has none. -/
structure Inv (s : State τ) (left : Nat) : Prop where
  ready : ∀ t, Ready (s.table t) left
  no_table : ∀ t, s.pt_speci t = false → Fresh (s.table t)

variable {s : State τ} {left : Nat} {t : τ}

theorem ready_remove (ready : Ready ht left) (small : key < 2 ^ 32) :
    Ready (hurd_ihash_remove ht (BitVec.ofNat 32 key)).1 left ∧
      numbers (hurd_ihash_remove ht (BitVec.ofNat 32 key)).1 = Function.update (numbers ht) key 0 := by
  obtain ⟨v,ht',cleaned,entry,result,table,max_load,cleanup,values',used,-⟩ | ⟨none,result⟩ :=
    ready.valid.remove (BitVec.ofNat 32 key)
  · have few := ready.few
    rw [result]
    exact ⟨⟨.inr table,max_load ▸ ready.least,(Nat.add_le_add_right used left).trans few⟩,numbers_update small values'⟩
  · rw [result]
    refine ⟨ready,?_⟩
    have same : values ht = Function.update (values ht) (BitVec.ofNat 32 key) Option.none := by
      rw [← none,Function.update_eq_self]
    exact numbers_update small same

theorem fresh_remove (fresh : Fresh ht) (k : BitVec 32) : (hurd_ihash_remove ht k).1 = ht := by
  rw [hurd_ihash_remove,if_neg (fun here => here.1 fresh.size)]

omit [DecidableEq τ] in
theorem Inv.mono {more : Nat} (inv : Inv s more) (le : left ≤ more) : Inv s left where
  ready t := ⟨(inv.ready t).valid,(inv.ready t).least,(Nat.add_le_add_left le _).trans (inv.ready t).few⟩
  no_table := inv.no_table

/-- A thread's table may be changed where it has one, or where none is left. -/
theorem Inv.after_set (inv : Inv s left) (who : τ) (ready : Ready ht left) (none : s.pt_speci who = false → Fresh ht) :
    Inv (s.set_table who ht) left := by
  constructor
  · intro t
    by_cases same : t = who
    · subst same
      simpa [State.set_table] using ready
    · simpa [State.set_table,same] using inv.ready t
  · intro t without
    by_cases same : t = who
    · subst same
      simpa [State.set_table] using none without
    · simpa [State.set_table,same] using inv.no_table t without

theorem abstract_set_table (s : State τ) (who : τ) (ht : hurd_ihash) :
    (s.set_table who ht).abstract =
      { s.abstract with table := Function.update s.abstract.table who (numbers ht) } := by
  have table : (fun t => numbers ((s.set_table who ht).table t)) =
      Function.update (fun t => numbers (s.table t)) who (numbers ht) := by
    funext t
    by_cases same : t = who
    · subst same
      simp [State.set_table]
    · simp [State.set_table,same]
  rw [State.abstract,table]
  rfl

/-- The key leaves each table of the array. -/
theorem Inv.after_remove (inv : Inv s left) (small : key < 2 ^ 32) (arry : List (Option τ)) :
    Inv { s with table := remove_all key arry s.table } left ∧
      (fun t => numbers (remove_all key arry s.table t)) =
        PthreadKey.remove_all key arry (fun t => numbers (s.table t)) := by
  induction arry generalizing s with
  | nil => exact ⟨inv,rfl⟩
  | cons entry rest ih =>
    cases entry with
    | none => exact ih inv
    | some who =>
      obtain ⟨ready,removed⟩ := ready_remove (inv.ready who) small
      have inv' := inv.after_set who ready (fun without => by
        rw [fresh_remove (inv.no_table who without)]
        exact inv.no_table who without)
      have tables := congrArg PthreadKey.State.table (abstract_set_table s who
        (hurd_ihash_remove (s.table who) (BitVec.ofNat 32 key)).1)
      rw [removed] at tables
      obtain ⟨inv'',removed'⟩ := ih inv'
      refine ⟨inv'',removed'.trans ?_⟩
      change PthreadKey.remove_all key rest (State.abstract _).table = _
      rw [tables]
      rfl

/-- The same part of `pthread_setspecific` with maps. -/
def map_table (who : τ) (memory : Memory) (s : PthreadKey.State τ) : Option (PthreadKey.State τ) :=
  if s.pt_speci who then some s else
  if ¬memory.create then none else
  match find_elem_index_and_add_to_arry none (some who) s.specific_arry memory.arry with
  | some (_,specific_arry) => some { s with specific_arry, pt_speci := Function.update s.pt_speci who true }
  | none => none

/-- The new table is an empty map, as the thread had before. -/
theorem Inv.after_create (inv : Inv s left) (who : τ) (memory : Memory) :
    map_table who memory s.abstract = (create_table who memory s).map State.abstract ∧
      ∀ s₁, create_table who memory s = some s₁ → Inv s₁ left ∧ s₁.pt_speci who = true := by
  have same_speci : s.abstract.pt_speci who = s.pt_speci who := rfl
  have same_arry : s.abstract.specific_arry = s.specific_arry := rfl
  unfold create_table map_table
  rw [same_speci,same_arry]
  cases has : s.pt_speci who with
  | true =>
    refine ⟨rfl,fun s₁ same => ?_⟩
    cases same
    exact ⟨inv,has⟩
  | false =>
    rw [if_neg Bool.false_ne_true,if_neg Bool.false_ne_true]
    cases create : memory.create with
    | false =>
      rw [if_pos Bool.false_ne_true,if_pos Bool.false_ne_true]
      exact ⟨rfl,fun s₁ same => by cases same⟩
    | true =>
      rw [if_neg (not_not.mpr rfl),if_neg (not_not.mpr rfl)]
      cases find_elem_index_and_add_to_arry none (some who) s.specific_arry memory.arry with
      | none => exact ⟨rfl,fun s₁ same => by cases same⟩
      | some place =>
        have fresh : Fresh hurd_ihash_init := ⟨rfl,rfl⟩
        have room := (inv.ready who).few
        have ready : Ready hurd_ihash_init left := ⟨.inl fresh,by decide,by
          change 0 + left ≤ _
          omega⟩
        have inv' := inv.after_set who ready (fun _ => fresh)
        have empty : numbers (s.table who) = numbers hurd_ihash_init := by
          rw [numbers_fresh (inv.no_table who has),numbers_fresh fresh]
        have table : (s.set_table who hurd_ihash_init).abstract.table = s.abstract.table := by
          rw [abstract_set_table,← empty]
          exact Function.update_eq_self ..
        constructor
        · change some _ = some _
          rw [← table]
          rfl
        · intro s₁ same
          cases same
          refine ⟨⟨inv'.ready,fun t without => ?_⟩,Function.update_self ..⟩
          change Function.update s.pt_speci who true t = false at without
          by_cases self : t = who
          · subst self
            rw [Function.update_self] at without
            cases without
          · rw [Function.update_of_ne self] at without
            exact inv'.no_table t without

/-- Each call does what it does with maps. -/
theorem Inv.after_call {op : Op τ} (inv : Inv s (sets op + left)) (good : Good op) :
    ∃ s' result op', call s op = some (s',result) ∧ SameCall op op' ∧
      PthreadKey.call s.abstract op' = (s'.abstract,result) ∧ Inv s' left := by
  cases op with
  | create destructor memory =>
    cases added : find_elem_index_and_add_to_arry DESTRUCTORT_INVALID destructor s.destructort_arry memory with
    | none =>
      refine ⟨s,.enomem,_,?_,.refl,?_,inv.mono (Nat.le_add_left ..)⟩
      · rw [call,pthread_key_create,added]
      · rw [PthreadKey.call,PthreadKey.pthread_key_create,State.abstract,added]
    | some place =>
      have inv' : Inv s left := inv.mono (Nat.le_add_left ..)
      refine ⟨{ s with destructort_arry := place.2 },.created place.1,_,?_,.refl,?_,⟨inv'.ready,inv'.no_table⟩⟩
      · rw [call,pthread_key_create,added]
      · rw [PthreadKey.call,PthreadKey.pthread_key_create,State.abstract,added]
        rfl
  | delete key behind =>
    have inv' : Inv s left := inv.mono (Nat.le_add_left ..)
    cases valid : key_valid s key behind with
    | false =>
      refine ⟨s,.einval,_,?_,.refl,?_,inv'⟩
      · rw [call,pthread_key_delete,if_pos valid]
      · exact if_pos (c := PthreadKey.key_valid s.abstract key behind = false) valid
    | true =>
      have accepted : ¬ key_valid s key behind = false := by simp [valid]
      obtain ⟨removed,tables⟩ := inv'.after_remove good s.specific_arry
      refine ⟨{ s with table := remove_all key s.specific_arry s.table
                       destructort_arry := s.destructort_arry.set key DESTRUCTORT_INVALID },.ok,_,?_,.refl,?_,
        ⟨removed.ready,removed.no_table⟩⟩
      · rw [call,pthread_key_delete,if_neg accepted]
      · refine (if_neg (c := PthreadKey.key_valid s.abstract key behind = false) accepted).trans ?_
        simp only [State.abstract,tables]
  | setspecific who key value behind memory =>
    have inv' : Inv s left := inv.mono (Nat.le_add_left ..)
    cases valid : key_valid s key behind with
    | false =>
      refine ⟨s,.einval,_,?_,.refl,?_,inv'⟩
      · rw [call,pthread_setspecific,if_pos valid]
      · exact if_pos (c := PthreadKey.key_valid s.abstract key behind = false) valid
    | true =>
      have accepted : ¬ key_valid s key behind = false := by simp [valid]
      obtain ⟨tables,created⟩ := inv.after_create who memory
      have concrete (s₁) (made : create_table who memory s = some s₁) :
          call s (.setspecific who key value behind memory) =
            (hurd_ihash_add (s₁.table who) (BitVec.ofNat 32 key) (BitVec.ofNat 32 value) memory.add).map
              fun added => (s₁.set_table who added.ht,if added.r ≠ 0 then .enomem else .ok) := by
        rw [call,pthread_setspecific,if_neg accepted,made]
      have abstracted (add : Bool) : PthreadKey.call s.abstract
          (.setspecific who key value behind ⟨memory.create,memory.arry,add⟩) =
          (map_table who memory s.abstract).elim (s.abstract,.enomem) fun a => if ¬add then (a,.enomem) else
            ({ a with table := Function.update a.table who (Function.update (a.table who) key value) },.ok) := by
        refine (if_neg (c := PthreadKey.key_valid s.abstract key behind = false) accepted).trans ?_
        split
        next missing =>
          have missing : map_table who memory s.abstract = none := missing
          rw [missing]
          rfl
        next a found =>
          have found : map_table who memory s.abstract = some a := found
          rw [found]
          rfl
      obtain ⟨small,small_value,unreserved⟩ := good
      cases made : create_table who memory s with
      | none =>
        rw [made] at tables
        refine ⟨s,.enomem,_,?_,.refl,?_,inv'⟩
        · rw [call,pthread_setspecific,if_neg accepted,made]
        · refine (abstracted memory.add).trans ?_
          rw [tables]
          rfl
      | some s₁ =>
        rw [made] at tables
        obtain ⟨inv₁,has⟩ := created s₁ made
        have ready := inv₁.ready who
        have few := ready.few
        change used_items (s₁.table who) + (1 + left) ≤ _ at few
        obtain ⟨ht',cleaned,result,added⟩ | ⟨refused,result⟩ :=
          ready.valid.add ready.least (by omega) (BitVec.ofNat 32 key) unreserved memory.add
        · have used := added.used
          have numbers' : numbers ht' = Function.update (numbers (s₁.table who)) key value := by
            rw [numbers_update small added.values,Option.getD_some,BitVec.toNat_ofNat,Nat.mod_eq_of_lt small_value]
          refine ⟨s₁.set_table who ht',.ok,.setspecific who key value behind ⟨memory.create,memory.arry,true⟩,?_,?_,?_,?_⟩
          · rw [concrete s₁ made,result]
            rfl
          · cases room : memory.add with
            | true =>
              rw [← room]
              exact .refl
            | false =>
              obtain ⟨create,arry,add⟩ := memory
              obtain rfl : add = false := room
              exact .room
          · rw [abstracted,tables,abstract_set_table,numbers']
            rfl
          · apply (inv₁.mono (Nat.le_add_left ..)).after_set who
            · exact ⟨.inr added.table,added.max_load ▸ ready.least,by omega⟩
            · intro without
              rw [has] at without
              cases without
        · have same : s₁.set_table who (s₁.table who) = s₁ := by
            rw [State.set_table,Function.update_eq_self]
          refine ⟨s₁,.enomem,_,?_,.refl,?_,inv₁.mono (Nat.le_add_left ..)⟩
          · rw [concrete s₁ made,result]
            change some (s₁.set_table who (s₁.table who),_) = _
            rw [same]
            rfl
          · refine (abstracted memory.add).trans ?_
            rw [tables,refused]
            rfl
  | getspecific who key behind =>
    refine ⟨s,_,_,rfl,.refl,?_,inv.mono (Nat.le_add_left ..)⟩
    have found : numbers (s.table who) key = (hurd_ihash_find (s.table who) (BitVec.ofNat 32 key)).toNat := by
      have small : key < 2 ^ 32 := good
      rw [numbers,if_pos small,(inv.ready who).valid.find]
    rw [pthread_getspecific,← found]
    rfl

omit [DecidableEq τ] in
theorem start_inv (few : left ≤ 2 ^ 26) : Inv (start : State τ) left where
  ready _ := ⟨.inl ⟨rfl,rfl⟩,show 64 ≤ HURD_IHASH_MAX_LOAD_DEFAULT.toNat by decide,show 0 + left ≤ _ by omega⟩
  no_table _ _ := ⟨rfl,rfl⟩

theorem Inv.after_run {ops : List (Op τ)} (inv : Inv s (ops.map sets).sum) (good : ∀ op ∈ ops, Good op) :
    ∃ s' results ops', run s ops = some (s',results) ∧ List.Forall₂ SameCall ops ops' ∧
      map_run s.abstract ops' = (s'.abstract,results) := by
  induction ops generalizing s with
  | nil => exact ⟨s,[],[],rfl,.nil,rfl⟩
  | cons op ops ih =>
    obtain ⟨s₁,result,op',called,same,mapped,inv₁⟩ := inv.after_call (good op List.mem_cons_self)
    obtain ⟨s₂,results,ops',ran,sames,maps⟩ := ih inv₁ (fun op mem => good op (List.mem_cons_of_mem _ mem))
    refine ⟨s₂,result :: results,op' :: ops',?_,.cons same sames,?_⟩
    · rw [run,called]
      change (run s₁ ops).bind _ = _
      rw [ran]
      rfl
    · rw [map_run,mapped]
      dsimp only
      rw [maps]

/-- With fewer than 2^26 values set, the calls over the hash tables of the threads return what they
    do over maps, but for that a table with room needs no memory, and they never write outside
    a table. -/
theorem specific_over_ihash {ops : List (Op τ)} (few : (ops.map sets).sum ≤ 2 ^ 26) (good : ∀ op ∈ ops, Good op) :
    ∃ s results ops', run start ops = some (s,results) ∧ List.Forall₂ SameCall ops ops' ∧
      map_run PthreadKey.start.state ops' = (s.abstract,results) := by
  obtain ⟨s,results,ops',ran,same,maps⟩ := (start_inv few).after_run good
  have empty : (start : State τ).abstract = PthreadKey.start.state := by
    have table : numbers hurd_ihash_init = fun _ => 0 := numbers_fresh ⟨rfl,rfl⟩
    change (⟨[],[],_,fun _ => numbers hurd_ihash_init⟩ : PthreadKey.State τ) = _
    rw [table]
    rfl
  rw [empty] at maps
  exact ⟨s,results,ops',ran,same,maps⟩

/-- Two keys that two threads set, one of them deleted. -/
theorem specific_over_ihash_two : ∃ s results ops',
    run (start : State Bool) [.create 0 true,.setspecific true 0 5 0 ⟨true,true,true⟩,
      .setspecific false 0 6 0 ⟨true,true,true⟩,.delete 0 0,.getspecific true 0 0] = some (s,results) ∧
    List.Forall₂ SameCall [.create 0 true,.setspecific true 0 5 0 ⟨true,true,true⟩,
      .setspecific false 0 6 0 ⟨true,true,true⟩,.delete 0 0,.getspecific true 0 0] ops' ∧
    map_run PthreadKey.start.state ops' = (s.abstract,results) :=
  specific_over_ihash (by decide) (by decide)

end GridOS.PthreadSpecific
