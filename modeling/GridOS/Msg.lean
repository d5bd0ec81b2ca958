import GridOS.Ring

/-!
A thread's message ring: `send` and `ktm_ack_sync` of `source/kernel/process/msg.c`
and the receiver's `message_loop` of `source/libs/common/msg.c`. A slot is named by
its index behind `slots`, and `what` pointers by the slots they lead to. What a
sender does under the lock of the ring is one step, and so is its firing of the head
behind the lock; the receiver takes no lock and cleans one slot a step. Which handler
a message finds, by the filter, by its address or by `find_handler`, is left open: it
may write any response over the message it is given.
-/
namespace GridOS.Msg
open GridOS.Ring

/-- `struct y_message`, which is a slot of the ring too. -/
structure y_message where
  count : BitVec 16
  flags : BitVec 16
  what : BitVec 32
deriving DecidableEq

def MSG_STATUS_NEW : BitVec 16 := 2#16
def MSG_STATUS_USED_BIT : BitVec 16 := 8#16
def MSG_FLAGS_SYNC : BitVec 16 := 32#16

/-- `flags & bit`, as a condition. -/
def marked (flags bit : BitVec 16) : Bool := flags &&& bit != 0#16

/-- `sizeof(struct y_message)`. -/
def message_size : Nat := 8
/-- `__add_msg_count__`, with `sizeof(MSG_DATA_TYPE)` 4. -/
def add_msg_count (data_count : Nat) : Nat := (data_count * 4 + message_size - 1) / message_size

/-- `MSG_GET_NEXT_SLOT`. -/
def next_slot (slot_buffer_size cur : Nat) : Nat :=
  if slot_buffer_size ≤ (cur + 1) * message_size then 0 else cur + 1

/-- A `struct ke_message_wait` in the list of the ring. -/
structure Wait (σ : Type) where
  sent : Nat
  who_sent : σ

/-- A `struct ktm`; `current_slot` is `none` while the thread has no ring. -/
structure Ktm (σ : Type) where
  slot_buffer_size : Nat
  slots : Nat → y_message
  current_slot : Option Nat
  waiting : List (Wait σ)

/-- The loop of `message_reset_all` from `cur` on; `none` when `rounds` do not lead
    back to the first slot. -/
def reset_from (slot_buffer_size : Nat) : Nat → Nat → (Nat → y_message) → Option (Nat → y_message)
  | 0, _, _ => none
  | rounds+1, cur, slots =>
    let slots := Function.update slots cur { slots cur with flags := 0#16 }
    let cur := next_slot slot_buffer_size cur
    if cur = 0 then some slots else reset_from slot_buffer_size rounds cur slots
def message_reset_all (slot_buffer_size : Nat) (slots : Nat → y_message) : Option (Nat → y_message) :=
  reset_from slot_buffer_size (slot_buffer_size + 1) 0 slots

/-- The search of `send`: how many free slots it counts from `dst` on, for `want` at
    most and for one round from `tmp` at most. -/
def search (slot_buffer_size : Nat) (slots : Nat → y_message) (tmp want : Nat) : Nat → Nat → Nat → Nat
  | 0, _, i => i
  | rounds+1, dst, i =>
    if marked (slots dst).flags MSG_STATUS_USED_BIT then i else
    let dst := next_slot slot_buffer_size dst
    if dst ≠ tmp ∧ i + 1 < want then search slot_buffer_size slots tmp want rounds dst (i + 1) else i + 1

/-- The loop of `send` that takes `n` slots from `dst` on, and where it stops. -/
def set_used (slot_buffer_size : Nat) (slots : Nat → y_message) (n dst : Nat) : (Nat → y_message) × Nat :=
  sweep (next_slot slot_buffer_size) (fun _ dst => { dst with flags := dst.flags ||| MSG_STATUS_USED_BIT }) n 0 dst slots

/-- The loop of `send` that copies the `count` nodes behind `what`, and a handler's
    writing of them. -/
def copy_body (slot_buffer_size : Nat) (slots : Nat → y_message) (dst count : Nat) (what : Nat → y_message) :
    Nat → y_message :=
  (sweep (next_slot slot_buffer_size) (fun i _ => what i) count 1 (next_slot slot_buffer_size dst) slots).1

/-- `list_add_tail`, for a sender that waits. -/
def add_wait {σ : Type} (waiting : List (Wait σ)) (sent : Nat) : Option σ → List (Wait σ)
  | some who_sent => waiting ++ [{ sent, who_sent }]
  | none => waiting

/-- What `send` does under the lock, and the head it has reserved; `what 0` is the
    head of the message and `what 1` and on are the slots of its body. -/
def send {σ : Type} (ktm : Ktm σ) (what : Nat → y_message) (wait : Option σ) : Option (Ktm σ × Nat) :=
  let count := add_msg_count (what 0).count.toNat
  match ktm.current_slot with
  | none => none
  | some tmp =>
    if search ktm.slot_buffer_size ktm.slots tmp (count + 1) (count + 1) tmp 0 ≠ count + 1 then none else
    let used := set_used ktm.slot_buffer_size ktm.slots (count + 1) tmp
    some ({ ktm with
      slots := copy_body ktm.slot_buffer_size used.1 tmp count what
      current_slot := some used.2
      waiting := add_wait ktm.waiting tmp wait },tmp)

/-- The head that `send` fires behind the lock. -/
def fire (dst what : y_message) : y_message where
  count := what.count
  what := what.what
  flags := (dst.flags ||| what.flags) ||| MSG_STATUS_NEW

/-- A thread in `ktm_send`. `number` tells which of the sends of the run it is at; the
    code has no such counter. -/
inductive Sender where
  | idle
  | firing (number dst : Nat) (what : y_message)
  | sleeping (number sent : Nat)
  | woken (number sent : Nat)

/-- The thread in `message_loop`: in front of `cur`, behind the handler of a
    synchronous message, in the loop of `ktm_ack_sync`, and in `message_clean` with
    `left` slots to go. -/
inductive Receiver where
  | absent
  | waiting (cur : Nat)
  | responding (what count : Nat)
  | spinning (what count : Nat)
  | cleaning (what cur left : Nat)

/-- A message that found room, with its sender and the head reserved for it. -/
structure Sent (σ : Type) where
  who_sent : σ
  what : Nat → y_message
  dst : Nat

/-- What `handle_message` is given: the slot it is called on, and that slot and the
    slots of the body behind it. -/
structure Handed where
  cur : Nat
  slots : List y_message

/-- The history of a run: the sends in the order of their reservation, which of them
    have been fired, and the calls of `handle_message` in order. -/
structure History (σ : Type) where
  sends : List (Sent σ)
  fired : List Nat
  handed : List Handed

structure System (σ : Type) where
  ktm : Ktm σ
  receiver : Receiver
  senders : σ → Sender
  history : History σ

/-- The steps of the receiver and of the threads that send to it. -/
inductive Event (σ : Type) where
  /-- `ktm_prepare_loop` creates the ring. -/
  | prepare
  /-- `send` up to the unlock. -/
  | send (who : σ) (what : Nat → y_message)
  | fire (who : σ)
  /-- `handle_message` up to the return of the handler, which leaves `response` in the
      slots of the message, the flags of the head apart. -/
  | handle (response : Nat → y_message)
  /-- `ktm_ack_sync` up to the wakeup. -/
  | ack
  /-- The sender copies the response and clears `MSG_STATUS_NEW`. -/
  | copy_back (who : σ)
  /-- `ktm_ack_sync` returns. -/
  | acked
  /-- One round of `message_clean`. -/
  | clean
  /-- The head is cleaned. -/
  | finish
  /-- The sender of a synchronous message stops waiting. -/
  | give_up (who : σ)

/-- The slots of a message with `count` body slots and its head at `cur`. -/
def slots_at (slot_buffer_size cur count : Nat) : List Nat :=
  (List.range (count + 1)).map (fun j => (next_slot slot_buffer_size)^[j] cur)

/-- The handler writes its response over the message. -/
def respond (slot_buffer_size : Nat) (slots : Nat → y_message) (what count : Nat) (response : Nat → y_message) :
    Nat → y_message :=
  copy_body slot_buffer_size (Function.update slots what { response 0 with flags := (slots what).flags }) what count
    response

section Steps
variable {σ : Type} [DecidableEq σ]

def prepare (st : System σ) : Option (System σ) :=
  match st.receiver with
  | .absent => (message_reset_all st.ktm.slot_buffer_size st.ktm.slots).map (fun slots => { st with
      ktm := { st.ktm with slots, current_slot := some 0 }
      receiver := .waiting 0 })
  | _ => none

def start_send (st : System σ) (who : σ) (what : Nat → y_message) : Option (System σ) :=
  match st.senders who with
  | .idle =>
    match send st.ktm what (if marked (what 0).flags MSG_FLAGS_SYNC then some who else none) with
    | none => some st
    | some (ktm,dst) => some { st with
        ktm
        senders := Function.update st.senders who (.firing st.history.sends.length dst (what 0))
        history := { st.history with sends := st.history.sends ++ [{ who_sent := who, what, dst }] } }
  | _ => none

def fire_head (st : System σ) (who : σ) : Option (System σ) :=
  match st.senders who with
  | .firing number dst what => some { st with
      ktm := { st.ktm with slots := Function.update st.ktm.slots dst (fire (st.ktm.slots dst) what) }
      senders := Function.update st.senders who
        (if marked what.flags MSG_FLAGS_SYNC then .sleeping number dst else .idle)
      history := { st.history with fired := number :: st.history.fired } }
  | _ => none

def handle_message (st : System σ) (response : Nat → y_message) : Option (System σ) :=
  match st.receiver with
  | .waiting cur =>
    let what := st.ktm.slots cur
    let count := what.count.toNat
    let body := add_msg_count count
    if marked what.flags MSG_STATUS_NEW = false then none else
    some { st with
      ktm := { st.ktm with slots := respond st.ktm.slot_buffer_size st.ktm.slots cur body response }
      receiver := if marked what.flags MSG_FLAGS_SYNC then .responding cur count else
        .cleaning cur (next_slot st.ktm.slot_buffer_size cur) body
      history := { st.history with handed := st.history.handed ++
        [{ cur, slots := (slots_at st.ktm.slot_buffer_size cur body).map st.ktm.slots }] } }
  | _ => none

def ktm_ack_sync (st : System σ) : Option (System σ) :=
  match st.receiver with
  | .responding what count =>
    match st.ktm.waiting.find? (fun wait => wait.sent == what) with
    | none => some { st with
        receiver := .cleaning what (next_slot st.ktm.slot_buffer_size what) (add_msg_count count) }
    | some wait => some { st with
        ktm := { st.ktm with waiting := st.ktm.waiting.eraseP (fun wait => wait.sent == what) }
        senders := match st.senders wait.who_sent with
          | .sleeping number sent => Function.update st.senders wait.who_sent (.woken number sent)
          | _ => st.senders
        receiver := .spinning what count }
  | _ => none

/-- `sent->flags &= ~MSG_STATUS_NEW`. -/
def clear_new (slots : Nat → y_message) (sent : Nat) : Nat → y_message :=
  Function.update slots sent { slots sent with flags := (slots sent).flags &&& ~~~MSG_STATUS_NEW }

def copy_back (st : System σ) (who : σ) : Option (System σ) :=
  match st.senders who with
  | .woken _ sent => some { st with
      ktm := { st.ktm with slots := clear_new st.ktm.slots sent }
      senders := Function.update st.senders who .idle }
  | _ => none

def acked (st : System σ) : Option (System σ) :=
  match st.receiver with
  | .spinning what count =>
    if marked (st.ktm.slots what).flags MSG_STATUS_NEW then none else
    some { st with receiver := .cleaning what (next_slot st.ktm.slot_buffer_size what) (add_msg_count count) }
  | _ => none

/-- `cur->flags = 0`. -/
def clear_flags (slots : Nat → y_message) (cur : Nat) : Nat → y_message :=
  Function.update slots cur { slots cur with flags := 0#16 }

def message_clean (st : System σ) : Option (System σ) :=
  match st.receiver with
  | .cleaning what cur (left+1) => some { st with
      ktm := { st.ktm with slots := clear_flags st.ktm.slots cur }
      receiver := .cleaning what (next_slot st.ktm.slot_buffer_size cur) left }
  | _ => none

def finish (st : System σ) : Option (System σ) :=
  match st.receiver with
  | .cleaning what cur 0 => some { st with
      ktm := { st.ktm with slots := clear_flags st.ktm.slots what }
      receiver := .waiting cur }
  | _ => none

def give_up (st : System σ) (who : σ) : Option (System σ) :=
  match st.senders who with
  | .sleeping _ _ => some { st with
      ktm := { st.ktm with waiting := st.ktm.waiting.eraseP (fun wait => wait.who_sent == who) }
      senders := Function.update st.senders who .idle }
  | _ => none

/-- One step; `none` when the thread is not at the step. -/
def step (st : System σ) : Event σ → Option (System σ)
  | .prepare => prepare st
  | .send who what => start_send st who what
  | .fire who => fire_head st who
  | .handle response => handle_message st response
  | .ack => ktm_ack_sync st
  | .copy_back who => copy_back st who
  | .acked => acked st
  | .clean => message_clean st
  | .finish => finish st
  | .give_up who => give_up st who

/-- A run of the steps `events`, in this order. -/
def run : System σ → List (Event σ) → Option (System σ)
  | st, [] => some st
  | st, e :: events => (step st e).bind (fun st => run st events)

/-- A thread that has no ring yet, in a pool that holds whatever it holds. -/
def boot (slot_buffer_size : Nat) (slots : Nat → y_message) : System σ where
  ktm := { slot_buffer_size, slots, current_slot := none, waiting := [] }
  receiver := .absent
  senders := fun _ => .idle
  history := { sends := [], fired := [], handed := [] }

end Steps
end GridOS.Msg
