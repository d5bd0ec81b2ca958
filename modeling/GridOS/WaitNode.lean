import Mathlib.Tactic

/-!
The wait nodes of synchronous messages, `source/kernel/process/msg.c`. A node is on the stack of its
sender and in the list of the receiver, from which the receiver takes it when it acknowledges the
message or deletes its pool, and the sender when it has waited in vain. A step is what happens under
the lock of the list, or one access to a node without it. A node is named by the number of its send.
-/
namespace GridOS.WaitNode

inductive Status
  | KE_MESSAGE_WAIT_STATUS_NONE
  | KE_MESSAGE_WAIT_STATUS_OK
  | KE_MESSAGE_WAIT_STATUS_ABANDONED
  deriving DecidableEq

structure ke_message_wait (τ : Type) where
  sent : Nat
  wait_status : Status
  who_sent : τ

/-- A thread in `ktm_send`: in `KT_WAIT`, behind it with the answer, and behind it without one. -/
inductive Sender
  | idle
  | waiting (node : Nat)
  | copying (node : Nat)
  | leaving (node : Nat)
  deriving DecidableEq

/-- The receiver in `ktm_ack_sync`, with the node that it has unlinked, before and behind the writing of the status. -/
inductive Receiver
  | idle
  | found (node : Nat)
  | answered (node : Nat)
  deriving DecidableEq

/-- `made` sends have made their nodes. The last two fields are counted along: how often each node was unlinked, and
    whether a node was touched whose sender had returned, or unlinked although it was not linked. -/
structure State (τ : Type) where
  node : Nat → ke_message_wait τ
  made : Nat
  waiting : List Nat
  sender : τ → Sender
  receiver : Receiver
  unlinks : Nat → Nat
  stray : Bool

def Sender.node : Sender → Option Nat
  | .idle => none
  | .waiting node => some node
  | .copying node => some node
  | .leaving node => some node

def Receiver.node : Receiver → Option Nat
  | .idle => none
  | .found node => some node
  | .answered node => some node

section Code
variable {τ : Type}

/-- The sender of the node has not returned. -/
def alive (s : State τ) (node : Nat) : Bool := (s.sender (s.node node).who_sent).node == some node

/-- The nodes are read or written. -/
def touch (nodes : List Nat) (s : State τ) : State τ := { s with stray := s.stray || !nodes.all (alive s) }

def set_status (node : Nat) (wait_status : Status) (s : State τ) : State τ :=
  { touch [node] s with node := Function.update s.node node { s.node node with wait_status } }

/-- `list_del`, which touches the neighbours of the node too. -/
def list_del (node : Nat) (s : State τ) : State τ :=
  { touch (node :: s.waiting) s with
    waiting := s.waiting.erase node
    unlinks := Function.update s.unlinks node (s.unlinks node + 1)
    stray := (touch (node :: s.waiting) s).stray || !s.waiting.contains node }

/-- `put_thread_msg`, for the nodes of the list. -/
def put_thread_msg : List Nat → State τ → State τ
  | [], s => s
  | node :: rest, s =>
    -- the wakeup reads the node once more
    put_thread_msg rest (touch [node] (set_status node .KE_MESSAGE_WAIT_STATUS_ABANDONED (list_del node s)))

inductive Event (τ : Type)
  /-- `send` of a synchronous message to the slot. -/
  | send (who : τ) (sent : Nat)
  /-- `ktm_ack_sync` up to the unlock. -/
  | ack (what : Nat)
  /-- The status is written. -/
  | answer
  /-- The sender is woken. -/
  | wakeup
  | ktm_delete
  /-- `KT_WAIT` ends, since there is a status or since the sender is killed, and the status is read. -/
  | leave (who : τ) (killed : Bool)
  /-- The response is copied and `ktm_send` returns true. -/
  | finish (who : τ)
  /-- The sender unlinks its node and `ktm_send` returns false. -/
  | cancel (who : τ)

variable [DecidableEq τ]

def send (who : τ) (sent : Nat) (s : State τ) : State τ :=
  { touch s.waiting s with
    node := Function.update s.node s.made ⟨sent,.KE_MESSAGE_WAIT_STATUS_NONE,who⟩
    made := s.made + 1
    waiting := s.waiting ++ [s.made]
    sender := Function.update s.sender who (.waiting s.made) }

def ktm_ack_sync (what : Nat) (s : State τ) : State τ :=
  match s.waiting.find? (fun node => (s.node node).sent = what) with
  | none => touch s.waiting s
  | some node => { list_del node (touch s.waiting s) with receiver := .found node }

def move (who : τ) (sender : Sender) (s : State τ) : State τ :=
  { s with sender := Function.update s.sender who sender }

/-- One step; `none` when the thread is not at the step. -/
def step (s : State τ) : Event τ → Option (State τ)
  | .send who sent => match s.sender who with
    | .idle => some (send who sent s)
    | _ => none
  | .ack what => match s.receiver with
    | .idle => some (ktm_ack_sync what s)
    | _ => none
  | .answer => match s.receiver with
    | .found node => some { set_status node .KE_MESSAGE_WAIT_STATUS_OK s with receiver := .answered node }
    | _ => none
  | .wakeup => match s.receiver with
    | .answered node => some { touch [node] s with receiver := .idle }
    | _ => none
  | .ktm_delete => match s.receiver with
    | .idle => some (put_thread_msg s.waiting s)
    | _ => none
  | .leave who killed => match s.sender who with
    | .waiting node => match (s.node node).wait_status with
      | .KE_MESSAGE_WAIT_STATUS_OK => some (move who (.copying node) s)
      | .KE_MESSAGE_WAIT_STATUS_ABANDONED => some (move who (.leaving node) s)
      | .KE_MESSAGE_WAIT_STATUS_NONE => if killed then some (move who (.leaving node) s) else none
    | _ => none
  | .finish who => match s.sender who with
    | .copying _ => some (move who .idle s)
    | _ => none
  | .cancel who => match s.sender who with
    | .leaving node => some (move who .idle (list_del node s))
    | _ => none

/-- Nobody has sent yet. -/
def initial (node : Nat → ke_message_wait τ) : State τ :=
  { node, made := 0, waiting := [], sender := fun _ => .idle, receiver := .idle, unlinks := fun _ => 0, stray := false }

/-- The states reached in runs whose steps all meet the condition. -/
inductive Run (condition : State τ → Event τ → Prop) : State τ → Prop
  | init (node : Nat → ke_message_wait τ) : Run condition (initial node)
  | step {s s' : State τ} {e : Event τ} (run : Run condition s) (meets : condition s e) (stepped : step s e = some s') :
      Run condition s'

/-- Every node is linked, or it was unlinked once; it was when its sender has returned; and nobody has touched a node
    after that, or unlinked one that was not linked. -/
structure Unlinked (s : State τ) : Prop where
  once : ∀ node < s.made, (node ∈ s.waiting ∧ s.unlinks node = 0) ∨ (node ∉ s.waiting ∧ s.unlinks node = 1)
  returned : ∀ node < s.made, alive s node = false → s.unlinks node = 1
  untouched : s.stray = false

/-- No pool is deleted that a sender waits for, no sender is killed out of its wait while its message is being
    acknowledged, no message is acknowledged whose sender was killed so, and no sender returns before the receiver has
    woken it. -/
def Orderly (s : State τ) : Event τ → Prop
  | .ktm_delete => s.waiting = []
  | .leave who _ => ∀ node, s.sender who = .waiting node → (s.node node).wait_status = .KE_MESSAGE_WAIT_STATUS_NONE →
      s.receiver ≠ .found node
  | .ack what => ∀ node, s.waiting.find? (fun node => (s.node node).sent = what) = some node →
      s.sender (s.node node).who_sent ≠ .leaving node
  | .finish who => ∀ node, s.sender who = .copying node → s.receiver ≠ .answered node
  | _ => True

end Code

/-! ### What every step keeps -/

section Kept
variable {τ : Type}

/-- Where the node of a thread is. -/
def At (s : State τ) (t : τ) : Sender → Prop
  | .idle => True
  | .waiting node => node < s.made ∧ (s.node node).who_sent = t ∧
      (node ∈ s.waiting ∨ s.receiver = .found node ∨ (s.node node).wait_status = .KE_MESSAGE_WAIT_STATUS_OK)
  | .copying node => node < s.made ∧ (s.node node).who_sent = t ∧ node ∉ s.waiting ∧
      (s.node node).wait_status = .KE_MESSAGE_WAIT_STATUS_OK
  | .leaving node => node < s.made ∧ (s.node node).who_sent = t ∧ node ∈ s.waiting

/-- The node that the receiver has unlinked has a sender that has not returned. -/
def Serves (s : State τ) : Receiver → Prop
  | .idle => True
  | .found node => node < s.made ∧ node ∉ s.waiting ∧ (s.node node).wait_status = .KE_MESSAGE_WAIT_STATUS_NONE ∧
      s.sender (s.node node).who_sent = .waiting node
  | .answered node => node < s.made ∧ node ∉ s.waiting ∧ (s.node node).wait_status = .KE_MESSAGE_WAIT_STATUS_OK ∧
      (s.sender (s.node node).who_sent = .waiting node ∨ s.sender (s.node node).who_sent = .copying node)

structure Inv (s : State τ) : Prop where
  untouched : s.stray = false
  distinct : s.waiting.Nodup
  linked : ∀ node ∈ s.waiting, node < s.made ∧ s.unlinks node = 0 ∧
    (s.node node).wait_status = .KE_MESSAGE_WAIT_STATUS_NONE ∧
    (s.sender (s.node node).who_sent = .waiting node ∨ s.sender (s.node node).who_sent = .leaving node)
  unlinked : ∀ node < s.made, node ∉ s.waiting → s.unlinks node = 1
  fresh : ∀ node, s.made ≤ node → s.unlinks node = 0
  senders : ∀ t, At s t (s.sender t)
  serves : Serves s s.receiver

variable {s s' : State τ} {node : Nat}

theorem alive_iff : alive s node = true ↔ (s.sender (s.node node).who_sent).node = some node := by
  rw [alive,beq_iff_eq]

theorem Inv.linked_alive (inv : Inv s) (member : node ∈ s.waiting) : alive s node = true := by
  rw [alive_iff]
  rcases (inv.linked node member).2.2.2 with waiting | leaving
  · rw [waiting]
    rfl
  · rw [leaving]
    rfl

theorem Inv.all_alive (inv : Inv s) : s.waiting.all (alive s) = true :=
  List.all_eq_true.mpr (fun _ member => inv.linked_alive member)

/-- Touching nodes whose senders have not returned changes nothing. -/
theorem touch_eq {nodes : List Nat} (all_alive : nodes.all (alive s) = true) : touch nodes s = s := by
  rw [touch,all_alive]
  simp

/-- The node of a thread belongs to it. -/
theorem Inv.owner {t : τ} (inv : Inv s) (mine : (s.sender t).node = some node) : (s.node node).who_sent = t := by
  have here := inv.senders t
  cases sender : s.sender t with
  | idle =>
    rw [sender] at mine
    cases mine
  | waiting other =>
    rw [sender] at mine here
    obtain rfl := Option.some.inj mine
    exact here.2.1
  | copying other =>
    rw [sender] at mine here
    obtain rfl := Option.some.inj mine
    exact here.2.1
  | leaving other =>
    rw [sender] at mine here
    obtain rfl := Option.some.inj mine
    exact here.2.1

/-- Unlinking a linked node. -/
theorem list_del_eq (inv : Inv s) (member : node ∈ s.waiting) : list_del node s =
    { s with waiting := s.waiting.erase node, unlinks := Function.update s.unlinks node 1 } := by
  have all_alive : (node :: s.waiting).all (alive s) = true := by
    rw [List.all_cons,inv.linked_alive member,inv.all_alive]
    rfl
  rw [list_del,touch_eq all_alive,(inv.linked node member).2.1]
  simp [member,inv.untouched]

/-- A step that leaves the node of a thread leaves the thread where it is. -/
theorem At.frame {t : τ} {sender : Sender} (before : At s t sender) (longer : s.made ≤ s'.made)
    (same : ∀ node < s.made, sender.node = some node → s'.node node = s.node node ∧ (node ∈ s'.waiting ↔ node ∈ s.waiting) ∧
      (s.receiver = .found node → s'.receiver = .found node)) : At s' t sender := by
  cases sender with
  | idle => trivial
  | waiting node =>
    obtain ⟨made,who,place⟩ := before
    obtain ⟨kept,member,found⟩ := same node made rfl
    refine ⟨Nat.lt_of_lt_of_le made longer,by rw [kept]; exact who,?_⟩
    rw [kept,member]
    exact place.imp_right (Or.imp_left found)
  | copying node =>
    obtain ⟨made,who,gone,status⟩ := before
    obtain ⟨kept,member,_⟩ := same node made rfl
    exact ⟨Nat.lt_of_lt_of_le made longer,by rw [kept]; exact who,fun linked => gone (member.mp linked),by rw [kept]; exact status⟩
  | leaving node =>
    obtain ⟨made,who,linked⟩ := before
    obtain ⟨kept,member,_⟩ := same node made rfl
    exact ⟨Nat.lt_of_lt_of_le made longer,by rw [kept]; exact who,member.mpr linked⟩

/-- A step that leaves the node of the receiver and its sender leaves the receiver where it is. -/
theorem Serves.frame {receiver : Receiver} (before : Serves s receiver) (longer : s.made ≤ s'.made)
    (same : ∀ node < s.made, receiver.node = some node → s'.node node = s.node node ∧
      (node ∈ s'.waiting ↔ node ∈ s.waiting) ∧
      s'.sender (s.node node).who_sent = s.sender (s.node node).who_sent) : Serves s' receiver := by
  cases receiver with
  | idle => trivial
  | found node | answered node =>
    obtain ⟨made,gone,status,busy⟩ := before
    obtain ⟨kept,member,sender⟩ := same node made rfl
    refine ⟨Nat.lt_of_lt_of_le made longer,fun linked => gone (member.mp linked),?_,?_⟩
    · rw [kept]
      exact status
    · rw [kept,sender]
      exact busy

/-- The node that the receiver has unlinked. -/
theorem Inv.served (inv : Inv s) (its : s.receiver.node = some node) : node ∉ s.waiting ∧
    ((s.receiver = .found node ∧ (s.node node).wait_status = .KE_MESSAGE_WAIT_STATUS_NONE ∧
        s.sender (s.node node).who_sent = .waiting node) ∨
      (s.receiver = .answered node ∧ (s.node node).wait_status = .KE_MESSAGE_WAIT_STATUS_OK ∧
        (s.sender (s.node node).who_sent = .waiting node ∨ s.sender (s.node node).who_sent = .copying node))) := by
  have serves := inv.serves
  cases receiver : s.receiver with
  | idle =>
    rw [receiver] at its
    cases its
  | found other =>
    rw [receiver] at its serves
    obtain rfl := Option.some.inj its
    exact ⟨serves.2.1,.inl ⟨rfl,serves.2.2⟩⟩
  | answered other =>
    rw [receiver] at its serves
    obtain rfl := Option.some.inj its
    exact ⟨serves.2.1,.inr ⟨rfl,serves.2.2⟩⟩

/-- The sender of that node has not returned. -/
theorem Inv.serves_alive (inv : Inv s) (its : s.receiver.node = some node) : alive s node = true := by
  rw [alive_iff]
  obtain ⟨_,⟨_,_,busy⟩ | ⟨_,_,busy | busy⟩⟩ := inv.served its
  · rw [busy]
    rfl
  · rw [busy]
    rfl
  · rw [busy]
    rfl

/-- A thread without a node is not the sender of a node whose sender has not returned. -/
theorem alive_busy {t : τ} (is_alive : alive s node = true) (idle : s.sender t = .idle) : (s.node node).who_sent ≠ t := by
  rintro rfl
  rw [alive_iff,idle] at is_alive
  cases is_alive

/-- What unlinking does to the list and to the counts. -/
theorem Inv.erase (inv : Inv s) (member : node ∈ s.waiting) :
    (s.waiting.erase node).Nodup ∧ (∀ other, other ∈ s.waiting.erase node ↔ other ≠ node ∧ other ∈ s.waiting) ∧
    (∀ other ∈ s.waiting.erase node, Function.update s.unlinks node 1 other = 0) ∧
    (∀ other < s.made, other ∉ s.waiting.erase node → Function.update s.unlinks node 1 other = 1) ∧
    ∀ other, s.made ≤ other → Function.update s.unlinks node 1 other = 0 := by
  have rest : ∀ other, other ∈ s.waiting.erase node ↔ other ≠ node ∧ other ∈ s.waiting :=
    fun other => inv.distinct.mem_erase_iff
  refine ⟨inv.distinct.erase _,rest,?_,?_,?_⟩
  · intro other linked
    obtain ⟨differ,linked⟩ := (rest other).mp linked
    rw [Function.update_of_ne differ]
    exact (inv.linked other linked).2.1
  · intro other made gone
    by_cases same : other = node
    · rw [same,Function.update_self]
    · rw [Function.update_of_ne same]
      exact inv.unlinked other made (fun linked => gone ((rest other).mpr ⟨same,linked⟩))
  · intro other later
    have differ : other ≠ node := Nat.ne_of_gt (Nat.lt_of_lt_of_le (inv.linked node member).1 later)
    rw [Function.update_of_ne differ]
    exact inv.fresh other later

variable [DecidableEq τ] {t : τ}

theorem send_inv {sent : Nat} (inv : Inv s) (idle : s.sender t = .idle) : Inv (send t sent s) := by
  rw [send,touch_eq inv.all_alive]
  have old : ∀ node < s.made, Function.update s.node s.made ⟨sent,.KE_MESSAGE_WAIT_STATUS_NONE,t⟩ node = s.node node :=
    fun node made => Function.update_of_ne (Nat.ne_of_lt made) ..
  have others : ∀ other, other ≠ t → Function.update s.sender t (.waiting s.made) other = s.sender other :=
    fun other differ => Function.update_of_ne differ ..
  have member : ∀ node < s.made, (node ∈ s.waiting ++ [s.made] ↔ node ∈ s.waiting) := by
    intro node made
    simp [Nat.ne_of_lt made]
  constructor
  · exact inv.untouched
  · refine List.nodup_append.mpr ⟨inv.distinct,List.nodup_singleton _,?_⟩
    intro node linked other last
    rw [List.mem_singleton.mp last]
    exact Nat.ne_of_lt (inv.linked node linked).1
  · intro node linked
    dsimp only
    rcases List.mem_append.mp linked with linked | last
    · obtain ⟨made,count,status,busy⟩ := inv.linked node linked
      rw [old node made,others _ (alive_busy (inv.linked_alive linked) idle)]
      exact ⟨Nat.lt_succ_of_lt made,count,status,busy⟩
    · obtain rfl := List.mem_singleton.mp last
      rw [Function.update_self,Function.update_self]
      exact ⟨Nat.lt_succ_self _,inv.fresh _ (Nat.le_refl _),rfl,.inl rfl⟩
  · intro node made gone
    have differ : node ≠ s.made := by
      rintro rfl
      exact gone (by simp)
    have before : node < s.made := Nat.lt_of_le_of_ne (Nat.le_of_lt_succ made) differ
    exact inv.unlinked node before (fun linked => gone ((member node before).mpr linked))
  · intro node later
    exact inv.fresh node (Nat.le_of_succ_le later)
  · intro other
    dsimp only
    by_cases same : other = t
    · subst same
      rw [Function.update_self]
      exact ⟨Nat.lt_succ_self _,by dsimp only; rw [Function.update_self],.inl (by simp)⟩
    · rw [others other same]
      exact (inv.senders other).frame (Nat.le_succ _) (fun node made _ => ⟨old node made,member node made,id⟩)
  · refine inv.serves.frame (Nat.le_succ _) ?_
    intro node made mine
    exact ⟨old node made,member node made,others _ (alive_busy (inv.serves_alive mine) idle)⟩

omit [DecidableEq τ] in
theorem ktm_ack_sync_inv {what : Nat} (inv : Inv s) (idle : s.receiver = .idle)
    (waits : ∀ node, s.waiting.find? (fun node => (s.node node).sent = what) = some node →
      s.sender (s.node node).who_sent ≠ .leaving node) : Inv (ktm_ack_sync what s) := by
  rw [ktm_ack_sync,touch_eq inv.all_alive]
  split
  · exact inv
  next node search =>
    have member : node ∈ s.waiting := List.mem_of_find?_eq_some search
    obtain ⟨made,_,status,busy⟩ := inv.linked node member
    have sender := busy.resolve_right (waits node search)
    obtain ⟨distinct,rest,counts,gone,fresh⟩ := inv.erase member
    rw [list_del_eq inv member]
    constructor
    · exact inv.untouched
    · exact distinct
    · intro other linked
      obtain ⟨before,_,status,busy⟩ := inv.linked other ((rest other).mp linked).2
      exact ⟨before,counts other linked,status,busy⟩
    · exact gone
    · exact fresh
    · intro other
      dsimp only
      by_cases mine : (s.sender other).node = some node
      · have owner := inv.owner mine
        subst owner
        rw [sender]
        exact ⟨made,rfl,.inr (.inl rfl)⟩
      · refine (inv.senders other).frame (Nat.le_refl _) ?_
        intro other_node _ its
        have differ : other_node ≠ node := by
          rintro rfl
          exact mine its
        refine ⟨rfl,?_,fun found => nomatch idle.symm.trans found⟩
        rw [rest other_node]
        exact and_iff_right differ
    · exact ⟨made,fun linked => ((rest node).mp linked).1 rfl,status,sender⟩

omit [DecidableEq τ] in
theorem answer_inv (inv : Inv s) (found : s.receiver = .found node) :
    Inv { set_status node .KE_MESSAGE_WAIT_STATUS_OK s with receiver := .answered node } := by
  have is_alive : [node].all (alive s) = true := by
    rw [List.all_cons,inv.serves_alive (by rw [found]; rfl)]
    rfl
  have serves := inv.serves
  rw [found] at serves
  obtain ⟨made,gone,status,sender⟩ := serves
  have others : ∀ other, other ≠ node → Function.update s.node node { s.node node with
      wait_status := .KE_MESSAGE_WAIT_STATUS_OK } other = s.node other := fun other differ => Function.update_of_ne differ ..
  rw [set_status,touch_eq is_alive]
  constructor
  · exact inv.untouched
  · exact inv.distinct
  · intro other linked
    dsimp only
    rw [others other (fun same => gone (same ▸ linked))]
    exact inv.linked other linked
  · exact inv.unlinked
  · exact inv.fresh
  · intro other
    dsimp only
    by_cases mine : (s.sender other).node = some node
    · have owner := inv.owner mine
      subst owner
      rw [sender]
      exact ⟨made,by dsimp only; rw [Function.update_self],.inr (.inr (by dsimp only; rw [Function.update_self]))⟩
    · refine (inv.senders other).frame (Nat.le_refl _) ?_
      intro other_node _ its
      have differ : other_node ≠ node := by
        rintro rfl
        exact mine its
      exact ⟨others other_node differ,Iff.rfl,fun same => absurd (Receiver.found.inj (found.symm.trans same)).symm differ⟩
  · refine ⟨made,gone,by dsimp only; rw [Function.update_self],.inl ?_⟩
    dsimp only
    rw [Function.update_self]
    exact sender

omit [DecidableEq τ] in
theorem wakeup_inv (inv : Inv s) (answered : s.receiver = .answered node) :
    Inv { touch [node] s with receiver := .idle } := by
  have is_alive : [node].all (alive s) = true := by
    rw [List.all_cons,inv.serves_alive (by rw [answered]; rfl)]
    rfl
  rw [touch_eq is_alive]
  refine ⟨inv.untouched,inv.distinct,inv.linked,inv.unlinked,inv.fresh,?_,trivial⟩
  intro other
  refine (inv.senders other).frame (Nat.le_refl _) ?_
  intro other_node _ _
  exact ⟨rfl,Iff.rfl,fun found => nomatch answered.symm.trans found⟩

/-- A thread moves on with its own node, or without one. -/
theorem move_inv {sender : Sender} (inv : Inv s) (mine : (s.sender t).node = some node)
    (there : At (move t sender s) t sender)
    (linked : node ∈ s.waiting → sender = .waiting node ∨ sender = .leaving node)
    (serves : s.receiver.node = some node → Serves (move t sender s) s.receiver) : Inv (move t sender s) := by
  have owner := inv.owner mine
  have others : ∀ other, alive s other = true → other ≠ node → (s.node other).who_sent ≠ t := by
    rintro other is_alive differ rfl
    rw [alive_iff,mine] at is_alive
    exact differ (Option.some.inj is_alive).symm
  refine ⟨inv.untouched,inv.distinct,?_,inv.unlinked,inv.fresh,?_,?_⟩
  · intro other member
    obtain ⟨made,count,status,busy⟩ := inv.linked other member
    refine ⟨made,count,status,?_⟩
    rw [move]
    dsimp only
    by_cases same : other = node
    · subst same
      rw [owner,Function.update_self]
      exact linked member
    · rw [Function.update_of_ne (others other (inv.linked_alive member) same)]
      exact busy
  · intro other
    by_cases same : other = t
    · subst same
      have now : (move other sender s).sender other = sender := Function.update_self ..
      rw [now]
      exact there
    · have now : (move t sender s).sender other = s.sender other := Function.update_of_ne same ..
      rw [now]
      exact (inv.senders other).frame (Nat.le_refl _) (fun _ _ _ => ⟨rfl,Iff.rfl,id⟩)
  · by_cases same : s.receiver.node = some node
    · exact serves same
    · refine inv.serves.frame (Nat.le_refl _) ?_
      intro other _ its
      have differ : other ≠ node := by
        rintro rfl
        exact same its
      exact ⟨rfl,Iff.rfl,Function.update_of_ne (others other (inv.serves_alive its) differ) ..⟩

theorem leave_ok_inv (inv : Inv s) (waiting : s.sender t = .waiting node)
    (ok : (s.node node).wait_status = .KE_MESSAGE_WAIT_STATUS_OK) : Inv (move t (.copying node) s) := by
  have here := inv.senders t
  rw [waiting] at here
  have gone : node ∉ s.waiting := by
    intro member
    exact nomatch ok.symm.trans (inv.linked node member).2.2.1
  apply move_inv inv (by rw [waiting]; rfl)
  · exact ⟨here.1,here.2.1,gone,ok⟩
  · exact fun member => absurd member gone
  · intro its
    obtain ⟨_,⟨_,status,_⟩ | ⟨receiver,_⟩⟩ := inv.served its
    · exact nomatch ok.symm.trans status
    · rw [receiver]
      refine ⟨here.1,gone,ok,.inr ?_⟩
      show Function.update s.sender t (.copying node) (s.node node).who_sent = _
      rw [here.2.1,Function.update_self]

theorem leave_inv (inv : Inv s) (waiting : s.sender t = .waiting node)
    (no_answer : (s.node node).wait_status ≠ .KE_MESSAGE_WAIT_STATUS_OK)
    (not_found : (s.node node).wait_status = .KE_MESSAGE_WAIT_STATUS_NONE → s.receiver ≠ .found node) :
    Inv (move t (.leaving node) s) := by
  have here := inv.senders t
  rw [waiting] at here
  obtain ⟨made,who,place⟩ := here
  have member : node ∈ s.waiting := by
    rcases place with member | found | ok
    · exact member
    · have serves := inv.serves
      rw [found] at serves
      exact absurd found (not_found serves.2.2.1)
    · exact absurd ok no_answer
  apply move_inv inv (by rw [waiting]; rfl)
  · exact ⟨made,who,member⟩
  · exact fun _ => .inr rfl
  · intro its
    exact absurd member (inv.served its).1

theorem finish_inv (inv : Inv s) (copying : s.sender t = .copying node) (woken : s.receiver ≠ .answered node) :
    Inv (move t .idle s) := by
  have here := inv.senders t
  rw [copying] at here
  apply move_inv inv (by rw [copying]; rfl)
  · trivial
  · exact fun member => absurd member here.2.2.1
  · intro its
    obtain ⟨_,⟨_,status,_⟩ | ⟨receiver,_⟩⟩ := inv.served its
    · exact nomatch here.2.2.2.symm.trans status
    · exact absurd receiver woken

theorem cancel_inv (inv : Inv s) (leaving : s.sender t = .leaving node) : Inv (move t .idle (list_del node s)) := by
  have here := inv.senders t
  rw [leaving] at here
  obtain ⟨made,who,member⟩ := here
  obtain ⟨distinct,rest,counts,gone,fresh⟩ := inv.erase member
  have others : ∀ other, alive s other = true → other ≠ node → (s.node other).who_sent ≠ t := by
    rintro other is_alive differ rfl
    rw [alive_iff,leaving] at is_alive
    exact differ (Option.some.inj is_alive).symm
  rw [list_del_eq inv member,move]
  refine ⟨inv.untouched,distinct,?_,gone,fresh,?_,?_⟩
  · intro other linked
    obtain ⟨differ,before⟩ := (rest other).mp linked
    obtain ⟨made,_,status,busy⟩ := inv.linked other before
    refine ⟨made,counts other linked,status,?_⟩
    dsimp only
    rw [Function.update_of_ne (others other (inv.linked_alive before) differ)]
    exact busy
  · intro other
    dsimp only
    by_cases same : other = t
    · subst same
      rw [Function.update_self]
      trivial
    · rw [Function.update_of_ne same]
      refine (inv.senders other).frame (Nat.le_refl _) ?_
      intro other_node _ its
      have differ : other_node ≠ node := by
        rintro rfl
        exact same ((inv.owner its).symm.trans who)
      refine ⟨rfl,?_,id⟩
      rw [rest other_node]
      exact and_iff_right differ
  · refine inv.serves.frame (Nat.le_refl _) ?_
    intro other _ its
    have differ : other ≠ node := by
      rintro rfl
      exact (inv.served its).1 member
    refine ⟨rfl,?_,Function.update_of_ne (others other (inv.serves_alive its) differ) ..⟩
    rw [rest other]
    exact and_iff_right differ

theorem step_inv {e : Event τ} (inv : Inv s) (orderly : Orderly s e) (stepped : step s e = some s') : Inv s' := by
  cases e with
  | send who sent =>
    rw [step] at stepped
    split at stepped
    · next idle =>
      obtain rfl := Option.some.inj stepped
      exact send_inv inv idle
    · cases stepped
  | ack what =>
    rw [step] at stepped
    split at stepped
    · next idle =>
      obtain rfl := Option.some.inj stepped
      exact ktm_ack_sync_inv inv idle orderly
    · cases stepped
  | answer =>
    rw [step] at stepped
    split at stepped
    · next node found =>
      obtain rfl := Option.some.inj stepped
      exact answer_inv inv found
    · cases stepped
  | wakeup =>
    rw [step] at stepped
    split at stepped
    · next node answered =>
      obtain rfl := Option.some.inj stepped
      exact wakeup_inv inv answered
    · cases stepped
  | ktm_delete =>
    have nobody : s.waiting = [] := orderly
    rw [step] at stepped
    split at stepped
    · obtain rfl := Option.some.inj stepped
      rw [nobody]
      exact inv
    · cases stepped
  | leave who killed =>
    rw [step] at stepped
    split at stepped
    · next node waiting =>
      have orderly := orderly node waiting
      split at stepped
      · next ok =>
        obtain rfl := Option.some.inj stepped
        exact leave_ok_inv inv waiting ok
      · next abandoned =>
        obtain rfl := Option.some.inj stepped
        exact leave_inv inv waiting (by rw [abandoned]; decide) orderly
      · next none =>
        split at stepped
        · obtain rfl := Option.some.inj stepped
          exact leave_inv inv waiting (by rw [none]; decide) orderly
        · cases stepped
    · cases stepped
  | finish who =>
    rw [step] at stepped
    split at stepped
    · next node copying =>
      obtain rfl := Option.some.inj stepped
      exact finish_inv inv copying (orderly node copying)
    · cases stepped
  | cancel who =>
    rw [step] at stepped
    split at stepped
    · next node leaving =>
      obtain rfl := Option.some.inj stepped
      exact cancel_inv inv leaving
    · cases stepped

theorem run_inv (run : Run Orderly s) : Inv s := by
  induction run with
  | init node =>
    refine ⟨rfl,List.nodup_nil,?_,?_,fun _ _ => rfl,fun _ => trivial,trivial⟩
    · intro node member
      cases member
    · intro node made
      exact absurd made (Nat.not_lt_zero node)
  | step _ meets stepped ih => exact step_inv ih meets stepped

/-- In an orderly run every node is unlinked once, before its sender returns, and nobody touches it afterwards. -/
theorem nodes_unlinked_once (run : Run Orderly s) : Unlinked s := by
  have inv := run_inv run
  refine ⟨?_,?_,inv.untouched⟩
  · intro node made
    by_cases member : node ∈ s.waiting
    · exact .inl ⟨member,(inv.linked node member).2.1⟩
    · exact .inr ⟨member,inv.unlinked node made member⟩
  · intro node made returned
    apply inv.unlinked node made
    intro member
    rw [inv.linked_alive member] at returned
    cases returned

/-- Memory before the first send. -/
def no_node (_ : Nat) : ke_message_wait Bool := ⟨0,.KE_MESSAGE_WAIT_STATUS_NONE,false⟩

/-- A message that is acknowledged, and one whose sender is killed. -/
theorem nodes_unlinked_once_two : ∃ s : State Bool, s.made = 2 ∧ s.waiting = [] ∧ Unlinked s := by
  have start : Run Orderly (initial no_node) := .init no_node
  have first := start.step (e := .send false 0) trivial rfl
  have second := first.step (e := .send true 1) trivial rfl
  have found := second.step (e := .ack 0) (fun node search => by
    obtain rfl : 0 = node := Option.some.inj search
    decide) rfl
  have answered := found.step (e := .answer) trivial rfl
  have woken := answered.step (e := .wakeup) trivial rfl
  have copying := woken.step (e := .leave false false) (fun _ _ _ receiver => nomatch receiver) rfl
  have finished := copying.step (e := .finish false) (fun _ _ receiver => nomatch receiver) rfl
  have leaving := finished.step (e := .leave true true) (fun _ _ _ receiver => nomatch receiver) rfl
  have cancelled := leaving.step (e := .cancel true) trivial rfl
  exact ⟨_,rfl,by decide,nodes_unlinked_once cancelled⟩

/-- The receiver deletes its pool, and the sender that finds its message abandoned unlinks its node again. -/
theorem node_unlinked_twice : ¬∀ s : State Bool, Run (fun _ _ => True) s → Unlinked s := by
  intro all
  have start : Run (fun _ _ => True) (initial no_node) := .init no_node
  have sent := start.step (e := .send false 0) trivial rfl
  have deleted := sent.step (e := .ktm_delete) trivial rfl
  have leaving := deleted.step (e := .leave false false) trivial rfl
  have cancelled := leaving.step (e := .cancel false) trivial rfl
  have once := (all _ cancelled).once 0 (by decide)
  exact absurd once (by decide)

end Kept
end GridOS.WaitNode
