import Mathlib.Tactic

/-!
File notifications, `source/subsystem/fs/fsnotify.c`. Each registration is a record of its own in
`notify_list`, and taking one back clears the events in the first record of the thread that has one of
them. What the interface promises is a registry: for each thread and each kind of event at most one
callback, the one that was registered last.
-/
namespace GridOS.Notify

abbrev Mask := BitVec 32

def Y_FILE_EVENT_READ : Mask := 1#32
def Y_FILE_EVENT_WRITE : Mask := 2#32

inductive Kind
  | read
  | write
  deriving DecidableEq

instance : Fintype Kind where
  elems := {.read,.write}
  complete k := by cases k <;> simp

def Kind.event : Kind → Mask
  | .read => Y_FILE_EVENT_READ
  | .write => Y_FILE_EVENT_WRITE

/-- `mask & event`. -/
def has (mask : Mask) (k : Kind) : Bool := mask &&& k.event ≠ 0

inductive Errno
  | E2BIG
  | ENOMEM
  deriving DecidableEq

/-- Threads `τ`, callbacks `γ` and their parameters `π`. -/
structure file_notify (τ γ π : Type) where
  listener : τ
  even_type_mask : Mask
  call_func : γ
  call_para : π
  deriving DecidableEq

section Code
variable {τ γ π : Type} [DecidableEq τ]

/-- The messages in the order of their sending, each with its receiver. -/
def fnotify_msg_send (notify_list : List (file_notify τ γ π)) (even : Kind) : List (τ × γ × π) :=
  (notify_list.filter (fun ntf_file => has ntf_file.even_type_mask even)).map
    (fun ntf_file => (ntf_file.listener,ntf_file.call_func,ntf_file.call_para))

/-- Whether `cmd` is a mask over the two kinds. -/
def legal (cmd : Mask) : Bool := cmd &&& ~~~(Y_FILE_EVENT_READ ||| Y_FILE_EVENT_WRITE) = 0

def fnotify_event_register (current : τ) (allocated : Bool) (cmd : Mask) (func : γ) (para : π)
    (notify_list : List (file_notify τ γ π)) : List (file_notify τ γ π) × Except Errno Unit :=
  if ¬legal cmd then (notify_list,.error .E2BIG) else
  if ¬allocated then (notify_list,.error .ENOMEM) else
  (notify_list ++ [⟨current,cmd,func,para⟩],.ok ())

/-- The loop over the list, and what is done where it stops. -/
def clear_first (lister : τ) (cmd : Mask) : List (file_notify τ γ π) → List (file_notify τ γ π)
  | [] => []
  | notify :: rest =>
    if notify.listener = lister ∧ cmd &&& notify.even_type_mask ≠ 0 then
      let even_type_mask := notify.even_type_mask &&& ~~~cmd
      if even_type_mask = 0 then rest else { notify with even_type_mask } :: rest
    else notify :: clear_first lister cmd rest

def fnotify_event_unregister (current : τ) (cmd : Mask) (notify_list : List (file_notify τ γ π)) :
    List (file_notify τ γ π) × Except Errno Unit :=
  if ¬legal cmd then (notify_list,.error .E2BIG) else (clear_first current cmd notify_list,.ok ())

end Code

/-! ### Runs -/

/-- The calls for one file. -/
inductive Op (τ γ π : Type)
  | register (t : τ) (allocated : Bool) (cmd : Mask) (func : γ) (para : π)
  | unregister (t : τ) (cmd : Mask)
  | event (even : Kind)

section Runs
variable {τ γ π : Type} [DecidableEq τ]

def step (notify_list : List (file_notify τ γ π)) : Op τ γ π → List (file_notify τ γ π)
  | .register t allocated cmd func para => (fnotify_event_register t allocated cmd func para notify_list).1
  | .unregister t cmd => (fnotify_event_unregister t cmd notify_list).1
  | .event _ => notify_list

def run (ops : List (Op τ γ π)) : List (file_notify τ γ π) := ops.foldl step []

/-- What a thread has registered for a kind. -/
abbrev Registry (τ γ π : Type) := τ → Kind → Option (γ × π)

/-- The thread has registered all kinds of the mask. -/
def Registered (registry : Registry τ γ π) (t : τ) (cmd : Mask) : Prop := ∀ k, has cmd k = true → registry t k ≠ none

instance (registry : Registry τ γ π) (t : τ) (cmd : Mask) : Decidable (Registered registry t cmd) :=
  decidable_of_iff (∀ k, has cmd k = true → (registry t k).isSome) (by simp [Registered,Option.isSome_iff_ne_none])

/-- What the calls mean: a registration replaces an earlier one, and only what is registered is taken back. -/
def intended (registry : Registry τ γ π) : Op τ γ π → Registry τ γ π
  | .register t allocated cmd func para => fun t' k =>
      if legal cmd ∧ allocated ∧ t' = t ∧ has cmd k then some (func,para) else registry t' k
  | .unregister t cmd => fun t' k =>
      if legal cmd ∧ Registered registry t cmd ∧ t' = t ∧ has cmd k then none else registry t' k
  | .event _ => registry

def registry (ops : List (Op τ γ π)) : Registry τ γ π := ops.foldl intended (fun _ _ => none)

/-- An event sends one message to every thread that has registered it, with what it has registered. -/
def Sends (notify_list : List (file_notify τ γ π)) (registry : Registry τ γ π) : Prop :=
  ∀ t k, ((fnotify_msg_send notify_list k).filter (fun message => message.1 = t)).map Prod.snd = (registry t k).toList

/-- To take back what is not registered is an error that changes nothing. -/
def Refuses (notify_list : List (file_notify τ γ π)) (registry : Registry τ γ π) : Op τ γ π → Prop
  | .unregister t cmd => ¬Registered registry t cmd → (fnotify_event_unregister t cmd notify_list).1 = notify_list ∧
      ∃ err, (fnotify_event_unregister t cmd notify_list).2 = .error err
  | _ => True

/-- The thread registers no kind that it has registered already, and it takes back the kinds of one registration. -/
def Simple (notify_list : List (file_notify τ γ π)) : Op τ γ π → Prop
  | .register t allocated cmd _ _ => legal cmd = true → allocated = true → ∀ notify ∈ notify_list,
      notify.listener = t → ∀ k, has cmd k = true → has notify.even_type_mask k = false
  | .unregister t cmd => legal cmd = true → (∃ k, has cmd k = true) → ∃ notify ∈ notify_list, notify.listener = t ∧
      ∀ k, has cmd k = true → has notify.even_type_mask k = true
  | .event _ => True

end Runs

/-! ### Masks -/

section Masks
variable {mask cmd : Mask} {k : Kind}

def Kind.bit : Kind → Nat
  | .read => 0
  | .write => 1

theorem has_eq : has mask k = mask.getLsbD k.bit := by
  have single : k.event = BitVec.twoPow 32 k.bit := by cases k <;> rfl
  have some_bit : BitVec.twoPow 32 k.bit ≠ 0 := by cases k <;> decide
  rw [has,single,BitVec.and_twoPow]
  cases mask.getLsbD k.bit with
  | true => simpa using some_bit
  | false => simp

theorem has_cleared : has (mask &&& ~~~cmd) k = (has mask k && !has cmd k) := by
  have inside : k.bit < 32 := by cases k <;> decide
  simp [has_eq,inside]

/-- A mask over the two kinds has no other bits. -/
theorem legal_bit {i : Nat} (legal_cmd : legal cmd = true) (other : 2 ≤ i) : cmd.getLsbD i = false := by
  have outside : (Y_FILE_EVENT_READ ||| Y_FILE_EVENT_WRITE).getLsbD i = false := by
    have small : (3 : Nat) < 2 ^ i := Nat.lt_of_lt_of_le (by decide) (Nat.pow_le_pow_right (by decide) other)
    have three : Y_FILE_EVENT_READ ||| Y_FILE_EVENT_WRITE = 3#32 := by decide
    rw [three,BitVec.getLsbD_ofNat,Nat.testBit_lt_two_pow small,Bool.and_false]
  have none_left : cmd &&& ~~~(Y_FILE_EVENT_READ ||| Y_FILE_EVENT_WRITE) = 0 := by simpa [legal] using legal_cmd
  by_cases inside : i < 32
  · have bit := congrArg (BitVec.getLsbD · i) none_left
    simp only [BitVec.getLsbD_and,BitVec.getLsbD_not,outside,inside,decide_true,Bool.not_false,Bool.and_true] at bit
    simpa using bit
  · exact BitVec.getLsbD_of_ge cmd i (Nat.le_of_not_lt inside)

/-- Masks over the two kinds meet when a kind is in both. -/
theorem meets_iff (legal_cmd : legal cmd = true) : cmd &&& mask ≠ 0 ↔ ∃ k, has cmd k = true ∧ has mask k = true := by
  constructor
  · intro meets
    by_contra apart
    apply meets
    apply BitVec.eq_of_getLsbD_eq
    intro i _
    rw [BitVec.getLsbD_and]
    have bit : ∀ k : Kind, (cmd.getLsbD k.bit && mask.getLsbD k.bit) = false := by
      intro k
      rw [← has_eq,← has_eq,Bool.eq_false_iff]
      intro both
      exact apart ⟨k,Bool.and_eq_true_iff.mp both⟩
    match i with
    | 0 => exact bit .read
    | 1 => exact bit .write
    | i + 2 => simp [legal_bit legal_cmd (Nat.le_add_left 2 i)]
  · rintro ⟨k,first,second⟩ none
    have bit := congrArg (BitVec.getLsbD · k.bit) none
    rw [has_eq] at first second
    simp [first,second] at bit

end Masks

/-! ### The list and the registry -/

section Steps
variable {τ γ π : Type} [DecidableEq τ] {l : List (file_notify τ γ π)} {t : τ}

/-- The records of a thread for a kind. -/
def records (l : List (file_notify τ γ π)) (t : τ) (k : Kind) : List (file_notify τ γ π) :=
  l.filter (fun notify => notify.listener = t ∧ has notify.even_type_mask k)

def callback (notify : file_notify τ γ π) : γ × π := (notify.call_func,notify.call_para)

theorem sends_iff {registry : Registry τ γ π} :
    Sends l registry ↔ ∀ t k, (records l t k).map callback = (registry t k).toList := by
  refine forall_congr' (fun t => forall_congr' (fun k => ?_))
  have same : ((fnotify_msg_send l k).filter (fun message => message.1 = t)).map Prod.snd = (records l t k).map callback := by
    rw [fnotify_msg_send,List.filter_map,List.map_map,List.filter_filter,records]
    congr 1
    congr 1
    funext notify
    simp
  rw [same]

/-- The list with what the loop over it stops at. -/
theorem clear_first_cases (t : τ) (cmd : Mask) (l : List (file_notify τ γ π)) :
    ((∀ notify ∈ l, notify.listener = t → cmd &&& notify.even_type_mask = 0) ∧ clear_first t cmd l = l) ∨
    ∃ before notify after, l = before ++ notify :: after ∧ notify.listener = t ∧ cmd &&& notify.even_type_mask ≠ 0 ∧
      clear_first t cmd l = before ++ (if notify.even_type_mask &&& ~~~cmd = 0 then after else
        { notify with even_type_mask := notify.even_type_mask &&& ~~~cmd } :: after) := by
  induction l with
  | nil => exact .inl ⟨by simp,rfl⟩
  | cons first rest ih =>
    rw [clear_first]
    by_cases here : first.listener = t ∧ cmd &&& first.even_type_mask ≠ 0
    · exact .inr ⟨[],first,rest,rfl,here.1,here.2,by rw [if_pos here]; rfl⟩
    · rw [if_neg here]
      rcases ih with ⟨nothing,same⟩ | ⟨before,notify,after,split,listener,meets,cleared⟩
      · left
        refine ⟨?_,by rw [same]⟩
        rintro notify (_ | ⟨_,member⟩)
        · intro listener
          by_contra meets
          exact here ⟨listener,meets⟩
        · exact nothing notify member
      · right
        exact ⟨first :: before,notify,after,by rw [split]; rfl,listener,meets,by rw [cleared]; rfl⟩

theorem records_append (l l' : List (file_notify τ γ π)) (t : τ) (k : Kind) :
    records (l ++ l') t k = records l t k ++ records l' t k := List.filter_append ..

theorem records_cons (notify : file_notify τ γ π) (l : List (file_notify τ γ π)) (t : τ) (k : Kind) :
    records (notify :: l) t k =
      (if notify.listener = t ∧ has notify.even_type_mask k then [notify] else []) ++ records l t k := by
  rw [records,List.filter_cons]
  by_cases here : notify.listener = t ∧ has notify.even_type_mask k
  · simp [here,records]
  · simp [here,records]

theorem mem_records {notify : file_notify τ γ π} {k : Kind} : notify ∈ records l t k ↔
    notify ∈ l ∧ notify.listener = t ∧ has notify.even_type_mask k = true := by simp [records]

/-- The records when one of them loses some kinds. -/
theorem records_cleared {before after : List (file_notify τ γ π)} {notify : file_notify τ γ π} {cmd : Mask} (t' : τ)
    (k : Kind) : (records (before ++ (if notify.even_type_mask &&& ~~~cmd = 0 then after else
        { notify with even_type_mask := notify.even_type_mask &&& ~~~cmd } :: after)) t' k).map callback =
      (records before t' k ++ (if notify.listener = t' ∧ has notify.even_type_mask k ∧ has cmd k = false then [notify]
        else []) ++ records after t' k).map callback := by
  rw [records_append,List.append_assoc,List.map_append,List.map_append]
  congr 1
  have left : has (notify.even_type_mask &&& ~~~cmd) k = (has notify.even_type_mask k && !has cmd k) := has_cleared
  split
  case isTrue none_left =>
    have not_left : ¬(has notify.even_type_mask k ∧ has cmd k = false) := by
      rintro ⟨here,kept⟩
      rw [none_left,here,kept] at left
      simp [has] at left
    rw [if_neg (fun all => not_left all.2),List.nil_append]
  case isFalse =>
    rw [records_cons,List.map_append,List.map_append]
    congr 1
    simp only [left]
    by_cases kept : notify.listener = t' ∧ has notify.even_type_mask k ∧ has cmd k = false
    · simp [kept,callback]
    · rw [if_neg kept,if_neg]
      simpa using kept

/-- There is at most one record for a kind when the list is as the registry says. -/
theorem one_record {registry : Registry τ γ π} {k : Kind} {notify notify' : file_notify τ γ π} (sends : Sends l registry)
    (first : notify ∈ records l t k) (second : notify' ∈ records l t k) : notify = notify' := by
  have few : (records l t k).length ≤ 1 := by
    have same := congrArg List.length (sends_iff.mp sends t k)
    rw [List.length_map] at same
    rw [same]
    cases registry t k <;> simp
  obtain ⟨only,rest⟩ := List.length_eq_one_iff.mp (Nat.le_antisymm few (List.length_pos_of_mem first))
  rw [rest,List.mem_singleton] at first second
  rw [first,second]

theorem records_nil_iff {registry : Registry τ γ π} {k : Kind} (sends : Sends l registry) :
    records l t k = [] ↔ registry t k = none := by
  have same := sends_iff.mp sends t k
  constructor
  · intro none
    rw [none] at same
    cases here : registry t k with
    | none => rfl
    | some _ => simp [here] at same
  · intro none
    rw [none] at same
    simpa using same

/-- A registration keeps the list right exactly when none of its kinds was registered. -/
theorem register_iff {registry : Registry τ γ π} {allocated : Bool} {cmd : Mask} {func : γ} {para : π}
    (sends : Sends l registry) : Sends (step l (.register t allocated cmd func para))
      (intended registry (.register t allocated cmd func para)) ↔ Simple l (.register t allocated cmd func para) := by
  by_cases done : legal cmd = true ∧ allocated = true
  · obtain ⟨legal_cmd,rfl⟩ := done
    have added : step l (.register t true cmd func para) = l ++ [⟨t,cmd,func,para⟩] := by
      simp [step,fnotify_event_register,legal_cmd]
    rw [added,sends_iff]
    have now : ∀ t' k, (records (l ++ [⟨t,cmd,func,para⟩]) t' k).map callback =
        (records l t' k).map callback ++ if t' = t ∧ has cmd k then [(func,para)] else [] := by
      intro t' k
      rw [records_append,List.map_append]
      congr 1
      by_cases here : t' = t ∧ has cmd k
      · obtain ⟨rfl,kind⟩ := here
        simp [records,callback,kind]
      · rw [records_cons,if_neg (fun both => here ⟨both.1.symm,both.2⟩),if_neg here]
        rfl
    constructor
    · intro right _ _ notify member listener k kind
      by_contra is_registered
      have here := right t k
      rw [now,if_pos ⟨rfl,kind⟩] at here
      simp only [intended,legal_cmd,kind,and_self,if_true,Option.toList_some] at here
      have nothing : records l t k = [] := by simpa using here
      exact List.ne_nil_of_mem (mem_records.mpr ⟨member,listener,by simpa using is_registered⟩) nothing
    · intro simple t' k
      rw [now]
      by_cases here : t' = t ∧ has cmd k
      · obtain ⟨rfl,kind⟩ := here
        have nothing : records l t' k = [] := by
          rw [List.eq_nil_iff_forall_not_mem]
          intro notify member
          obtain ⟨listed,listener,is_registered⟩ := mem_records.mp member
          rw [simple legal_cmd rfl notify listed listener k kind] at is_registered
          exact nomatch is_registered
        simp [intended,legal_cmd,kind,nothing]
      · rw [if_neg here,List.append_nil,sends_iff.mp sends t' k]
        simp [intended,legal_cmd,here]
  · have same : step l (.register t allocated cmd func para) = l := by
      rw [step,fnotify_event_register]
      by_cases legal_cmd : legal cmd = true
      · rw [if_neg (by simp [legal_cmd]),if_pos (fun allocated => done ⟨legal_cmd,allocated⟩)]
      · rw [if_pos legal_cmd]
    have kept : intended registry (.register t allocated cmd func para) = registry := by
      funext t' k
      exact if_neg (fun all => done ⟨all.1,all.2.1⟩)
    rw [same,kept]
    exact iff_of_true sends (fun legal_cmd allocated => absurd ⟨legal_cmd,allocated⟩ done)

/-- One record that has all kinds of the mask is the one that the loop stops at. -/
theorem simple_iff {registry : Registry τ γ π} {cmd : Mask} {notify : file_notify τ γ π} (sends : Sends l registry)
    (legal_cmd : legal cmd = true) (member : notify ∈ l) (listener : notify.listener = t)
    (meets : cmd &&& notify.even_type_mask ≠ 0) :
    Simple l (.unregister t cmd) ↔ ∀ k, has cmd k = true → has notify.even_type_mask k = true := by
  obtain ⟨k,kind,here⟩ := (meets_iff legal_cmd).mp meets
  constructor
  · intro simple
    obtain ⟨other,listed,same_listener,all⟩ := simple legal_cmd ⟨k,kind⟩
    have same : other = notify :=
      one_record sends (mem_records.mpr ⟨listed,same_listener,all k kind⟩) (mem_records.mpr ⟨member,listener,here⟩)
    rwa [← same]
  · intro all _ _
    exact ⟨notify,member,listener,all⟩

/-- All kinds of the mask are gone when the record that the loop stops at had all of them. -/
theorem cleared_iff {registry : Registry τ γ π} {cmd : Mask} {before after : List (file_notify τ γ π)}
    {notify : file_notify τ γ π} (sends : Sends (before ++ notify :: after) registry) (legal_cmd : legal cmd = true)
    (is_registered : Registered registry t cmd) (listener : notify.listener = t) :
    Sends (before ++ (if notify.even_type_mask &&& ~~~cmd = 0 then after else
        { notify with even_type_mask := notify.even_type_mask &&& ~~~cmd } :: after))
      (intended registry (.unregister t cmd)) ↔ ∀ k, has cmd k = true → has notify.even_type_mask k = true := by
  have was : ∀ t' k, (records before t' k ++ (if notify.listener = t' ∧ has notify.even_type_mask k then [notify] else []) ++
      records after t' k).map callback = (registry t' k).toList := by
    intro t' k
    rw [← sends_iff.mp sends t' k,records_append,records_cons,List.append_assoc]
  have gone : ∀ k, has cmd k = true → intended registry (.unregister t cmd) t k = none := by
    intro k kind
    exact if_pos ⟨legal_cmd,is_registered,rfl,kind⟩
  rw [sends_iff]
  constructor
  · intro right k kind
    by_contra missing
    have later := right t k
    have earlier := was t k
    rw [records_cleared,gone k kind,if_neg (fun all => missing all.2.1)] at later
    rw [if_neg (fun all => missing all.2),later] at earlier
    have some_callback := is_registered k kind
    cases here : registry t k with
    | none => exact some_callback here
    | some _ => simp [here] at earlier
  · intro all t' k
    rw [records_cleared]
    by_cases here : t' = t ∧ has cmd k
    · obtain ⟨rfl,kind⟩ := here
      have earlier := was t' k
      rw [if_pos ⟨listener,all k kind⟩] at earlier
      rw [gone k kind,if_neg (by simp [kind]),List.append_nil]
      have only : (records before t' k ++ [notify] ++ records after t' k).length ≤ 1 := by
        rw [← List.length_map (f := callback),earlier]
        cases registry t' k <;> simp
      simp only [List.length_append,List.length_singleton] at only
      have none_before : records before t' k = [] := List.length_eq_zero_iff.mp (by omega)
      have none_after : records after t' k = [] := List.length_eq_zero_iff.mp (by omega)
      simp [none_before,none_after]
    · have kept : intended registry (.unregister t cmd) t' k = registry t' k := if_neg (fun all => here all.2.2)
      have stays : (notify.listener = t' ∧ has notify.even_type_mask k = true ∧ has cmd k = false) ↔
          (notify.listener = t' ∧ has notify.even_type_mask k = true) := by
        refine ⟨fun all => ⟨all.1,all.2.1⟩,fun both => ⟨both.1,both.2,?_⟩⟩
        by_contra kind
        exact here ⟨both.1.symm.trans listener,by simpa using kind⟩
      simp only [kept,← was t' k,stays]

/-- Taking back keeps the list right, and refuses what it must, exactly when the kinds are those of one record. -/
theorem unregister_iff {registry : Registry τ γ π} {cmd : Mask} (sends : Sends l registry) :
    Sends (step l (.unregister t cmd)) (intended registry (.unregister t cmd)) ∧ Refuses l registry (.unregister t cmd) ↔
      Simple l (.unregister t cmd) := by
  by_cases legal_cmd : legal cmd = true
  · have answer : fnotify_event_unregister t cmd l = (clear_first t cmd l,.ok ()) := by
      rw [fnotify_event_unregister,if_neg (by simp [legal_cmd])]
    by_cases is_registered : Registered registry t cmd
    · have refuses : Refuses l registry (.unregister t cmd) := fun not_registered => absurd is_registered not_registered
      rw [and_iff_left refuses,step,answer]
      rcases clear_first_cases t cmd l with ⟨apart,same⟩ | ⟨before,notify,after,split,listener,meets,cleared⟩
      · have no_kind : ∀ k, has cmd k = false := by
          intro k
          by_contra kind
          rw [Bool.not_eq_false] at kind
          have some_record := mt (records_nil_iff sends).mp (is_registered k kind)
          obtain ⟨notify,member⟩ := List.exists_mem_of_ne_nil _ some_record
          obtain ⟨listed,listener,here⟩ := mem_records.mp member
          exact (meets_iff legal_cmd).mpr ⟨k,kind,here⟩ (apart notify listed listener)
        have kept : intended registry (.unregister t cmd) = registry := by
          funext t' k
          exact if_neg (fun all => by simp [no_kind k] at all)
        rw [same,kept]
        exact iff_of_true sends (fun _ some_kind => by simp [no_kind] at some_kind)
      · have member : notify ∈ l := by simp [split]
        rw [simple_iff sends legal_cmd member listener meets,cleared]
        subst split
        exact cleared_iff sends legal_cmd is_registered listener
    · constructor
      · intro right
        obtain ⟨_,err,refused⟩ := right.2 is_registered
        rw [answer] at refused
        exact nomatch refused
      · intro simple
        simp only [Registered,not_forall] at is_registered
        obtain ⟨k,kind,nothing⟩ := is_registered
        obtain ⟨notify,listed,listener,all⟩ := simple legal_cmd ⟨k,kind⟩
        rw [not_not,← records_nil_iff sends] at nothing
        exact absurd nothing (List.ne_nil_of_mem (mem_records.mpr ⟨listed,listener,all k kind⟩))
  · have answer : fnotify_event_unregister t cmd l = (l,.error .E2BIG) := by
      rw [fnotify_event_unregister,if_pos legal_cmd]
    have same : step l (.unregister t cmd) = l := by rw [step,answer]
    have kept : intended registry (.unregister t cmd) = registry := by
      funext t' k
      exact if_neg (fun all => legal_cmd all.1)
    rw [same,kept,Refuses,answer]
    exact iff_of_true ⟨sends,fun _ => ⟨rfl,_,rfl⟩⟩ (fun is_legal => absurd is_legal legal_cmd)

/-- What one call must meet. -/
theorem step_iff {registry : Registry τ γ π} (op : Op τ γ π) (sends : Sends l registry) :
    Sends (step l op) (intended registry op) ∧ Refuses l registry op ↔ Simple l op := by
  cases op with
  | register t allocated cmd func para =>
    rw [← register_iff sends]
    exact and_iff_left trivial
  | unregister t cmd => exact unregister_iff sends
  | event even => exact iff_of_true ⟨sends,trivial⟩ trivial

end Steps

/-! ### Whole runs -/

section Whole
variable {τ γ π : Type} [DecidableEq τ]

theorem run_concat (before : List (Op τ γ π)) (op : Op τ γ π) : run (before ++ [op]) = step (run before) op := by
  simp [run]

theorem registry_concat (before : List (Op τ γ π)) (op : Op τ γ π) :
    registry (before ++ [op]) = intended (registry before) op := by
  simp [registry]

/-- A run is right as long as every next call is. -/
theorem run_sends {ops : List (Op τ γ π)} (next : ∀ before op, before ++ [op] <+: ops →
      Sends (run before) (registry before) → Sends (step (run before) op) (intended (registry before) op))
    (before : List (Op τ γ π)) (starts : before <+: ops) : Sends (run before) (registry before) := by
  induction before using List.reverseRecOn with
  | nil =>
    intro t k
    rfl
  | append_singleton before op ih =>
    rw [run_concat,registry_concat]
    exact next before op starts (ih ((List.prefix_append before [op]).trans starts))

/-- Every event of a run sends what the registry says, and every call is refused that must be, exactly when no thread
    registers a kind twice and every call takes back kinds of one registration. -/
theorem notifications_iff (ops : List (Op τ γ π)) :
    ((∀ before, before <+: ops → Sends (run before) (registry before)) ∧
      ∀ before op, before ++ [op] <+: ops → Refuses (run before) (registry before) op) ↔
    ∀ before op, before ++ [op] <+: ops → Simple (run before) op := by
  constructor
  · rintro ⟨sends,refuses⟩ before op starts
    have now := sends before ((List.prefix_append before [op]).trans starts)
    have later := sends _ starts
    rw [run_concat,registry_concat] at later
    exact (step_iff op now).mp ⟨later,refuses before op starts⟩
  · intro simple
    have sends := run_sends (fun before op starts now => ((step_iff op now).mpr (simple before op starts)).1)
    refine ⟨sends,fun before op starts => ?_⟩
    have now := sends before ((List.prefix_append before [op]).trans starts)
    exact ((step_iff op now).mpr (simple before op starts)).2

/-- A thread that registers an event twice, with other callbacks. -/
def replaced : List (Op Nat Nat Nat) :=
  [.register 0 true Y_FILE_EVENT_READ 1 0,.register 0 true Y_FILE_EVENT_READ 2 0]

/-- A thread that takes two registrations back at once. -/
def taken_back : List (Op Nat Nat Nat) :=
  [.register 0 true Y_FILE_EVENT_READ 1 0,.register 0 true Y_FILE_EVENT_WRITE 2 0,
    .unregister 0 (Y_FILE_EVENT_READ ||| Y_FILE_EVENT_WRITE)]

/-- The first one gets two messages, the second one still gets one, and taking back what is not registered is no error. -/
theorem notifications_go_wrong :
    (fnotify_msg_send (run replaced) .read = [(0,1,0),(0,2,0)] ∧ registry replaced 0 .read = some (2,0)) ∧
    (fnotify_msg_send (run taken_back) .write = [(0,2,0)] ∧ registry taken_back 0 .write = none) ∧
    (fnotify_event_unregister 0 Y_FILE_EVENT_READ (run ([] : List (Op Nat Nat Nat)))).2 = .ok () ∧
      registry ([] : List (Op Nat Nat Nat)) 0 .read = none := by
  decide

end Whole
end GridOS.Notify
