import GridOS.MsgLayout

/-!
Runs of a message ring, in any interleaving of the steps of the senders and of the
receiver. The invariant says where the messages lie, at which of them every thread
is, and which waits are still registered.
-/
namespace GridOS.Msg
open GridOS.Ring

section Runs
variable {σ : Type}

/-- What `handle_message` is to be given for a send. -/
def handedOf (s : Sent σ) : Handed where
  cur := s.dst
  slots := firedHead (s.what 0) :: (List.range (bodyOf s)).map (fun j => s.what (j + 1))

/-- The history of a run: the `n`th call of `handle_message` is for the `n`th send, and
    the send had been fired. -/
structure Recorded (M : Nat) (history : History σ) : Prop where
  heads : ∀ n s, history.sends[n]? = some s → s.dst = startAt history.sends n % M
  fired_bound : ∀ n ∈ history.fired, n < history.sends.length
  fired_once : history.fired.Nodup
  delivered : ∀ n d, history.handed[n]? = some d →
    n ∈ history.fired ∧ ∃ s, history.sends[n]? = some s ∧ d = handedOf s

/-- The state of the thread `who` fits the history; `awake` is the send whose sender may
    be copying its response back. -/
def ActsFor (sends : List (Sent σ)) (fired : List Nat) (awake : Option Nat) (who : σ) : Sender → Prop
  | .idle => True
  | .firing n dst what => n ∉ fired ∧ ∃ s, sends[n]? = some s ∧ s.who_sent = who ∧ dst = s.dst ∧ what = s.what 0
  | .sleeping n sent => n ∈ fired ∧ ∃ s, sends[n]? = some s ∧ s.who_sent = who ∧ sent = s.dst
  | .woken n sent => awake = some n ∧ ∃ s, sends[n]? = some s ∧ s.who_sent = who ∧ sent = s.dst

/-- The senders and their waits, which are for sends from `first` on. -/
structure Crowd (sends : List (Sent σ)) (fired : List Nat) (senders : σ → Sender) (waiting : List (Wait σ))
    (awake : Option Nat) (first : Nat) : Prop where
  acts : ∀ who, ActsFor sends fired awake who (senders who)
  unfired : ∀ n s, sends[n]? = some s → n ∉ fired → senders s.who_sent = .firing n s.dst (s.what 0)
  waits : ∀ w ∈ waiting, ∃ n s, sends[n]? = some s ∧ first ≤ n ∧ w.sent = s.dst ∧ w.who_sent = s.who_sent ∧
    marked (s.what 0).flags MSG_FLAGS_SYNC = true ∧
    (senders s.who_sent = .firing n s.dst (s.what 0) ∨ senders s.who_sent = .sleeping n s.dst)
  apart : waiting.Pairwise (fun v w => v.sent ≠ w.sent)

/-- Where the receiver is when `cleaned` messages are gone and `handed` have been given
    to it. -/
def StageAt (M : Nat) (slots : Nat → y_message) (sends : List (Sent σ)) (senders : σ → Sender)
    (handed cleaned : Nat) (awake : Option Nat) (first : Nat) : Receiver → Prop
  | .absent => False
  | .waiting cur => handed = cleaned ∧ awake = none ∧ first = cleaned ∧ cur = startAt sends cleaned % M
  | .responding what count => handed = cleaned + 1 ∧ awake = none ∧ first = cleaned ∧
    what = startAt sends cleaned % M ∧ marked (slots what).flags MSG_STATUS_NEW = true ∧
    ∃ s, sends[cleaned]? = some s ∧ add_msg_count count = bodyOf s
  | .spinning what count => handed = cleaned + 1 ∧ awake = some cleaned ∧ first = cleaned + 1 ∧
    what = startAt sends cleaned % M ∧
    (marked (slots what).flags MSG_STATUS_NEW = true ↔ ∃ who n sent, senders who = .woken n sent) ∧
    ∃ s, sends[cleaned]? = some s ∧ add_msg_count count = bodyOf s
  | .cleaning what cur left => handed = cleaned + 1 ∧ awake = none ∧ first = cleaned + 1 ∧
    what = startAt sends cleaned % M ∧
    ∃ s, sends[cleaned]? = some s ∧ left ≤ bodyOf s ∧ cur = (startAt sends cleaned + (bodyOf s - left + 1)) % M ∧
      ∀ j, 1 ≤ j → j ≤ bodyOf s - left → (slots ((startAt sends cleaned + j) % M)).flags = 0#16

/-- The invariant of a ring whose first `cleaned` messages are gone. -/
structure InvAt (st : System σ) (cleaned : Nat) (awake : Option Nat) (first : Nat) : Prop where
  current : st.ktm.current_slot =
    some (startAt st.history.sends st.history.sends.length % slotCount st.ktm.slot_buffer_size)
  layout : Layout (slotCount st.ktm.slot_buffer_size) st.ktm.slots st.history.sends st.history.fired cleaned
    st.history.handed.length
  recorded : Recorded (slotCount st.ktm.slot_buffer_size) st.history
  crowd : Crowd st.history.sends st.history.fired st.senders st.ktm.waiting awake first
  stage : StageAt (slotCount st.ktm.slot_buffer_size) st.ktm.slots st.history.sends st.senders
    st.history.handed.length cleaned awake first st.receiver

def Inv (st : System σ) : Prop := ∃ cleaned awake first, InvAt st cleaned awake first

variable {st st' : System σ} {cleaned first : Nat} {awake : Option Nat}

/-! ### What the steps do -/

section Moving
variable [DecidableEq σ]

/-- Where the thread of a step is before it, what it finds, and what it leaves. -/
inductive Moves (st : System σ) : Event σ → System σ → Prop
  | prepare {slots : Nat → y_message} (absent : st.receiver = .absent)
      (reset : message_reset_all st.ktm.slot_buffer_size st.ktm.slots = some slots) :
      Moves st .prepare { st with
        ktm := { st.ktm with slots, current_slot := some 0 }
        receiver := .waiting 0 }
  | full {who : σ} {what : Nat → y_message} (idle : st.senders who = .idle)
      (refused : send st.ktm what (if marked (what 0).flags MSG_FLAGS_SYNC then some who else none) = none) :
      Moves st (.send who what) st
  | send {who : σ} {what : Nat → y_message} {ktm : Ktm σ} {dst : Nat} (idle : st.senders who = .idle)
      (sent : send st.ktm what (if marked (what 0).flags MSG_FLAGS_SYNC then some who else none) = some (ktm,dst)) :
      Moves st (.send who what) { st with
        ktm
        senders := Function.update st.senders who (.firing st.history.sends.length dst (what 0))
        history := { st.history with sends := st.history.sends ++ [{ who_sent := who, what, dst }] } }
  | fire {who : σ} {number dst : Nat} {what : y_message} (firing : st.senders who = .firing number dst what) :
      Moves st (.fire who) { st with
        ktm := { st.ktm with slots := Function.update st.ktm.slots dst (fire (st.ktm.slots dst) what) }
        senders := Function.update st.senders who
          (if marked what.flags MSG_FLAGS_SYNC then .sleeping number dst else .idle)
        history := { st.history with fired := number :: st.history.fired } }
  | handle {response : Nat → y_message} {cur count body : Nat} (receiver : st.receiver = .waiting cur)
      (new : marked (st.ktm.slots cur).flags MSG_STATUS_NEW = true)
      (counted : (st.ktm.slots cur).count.toNat = count) (sized : add_msg_count count = body) :
      Moves st (.handle response) { st with
        ktm := { st.ktm with slots := respond st.ktm.slot_buffer_size st.ktm.slots cur body response }
        receiver := if marked (st.ktm.slots cur).flags MSG_FLAGS_SYNC then .responding cur count else
          .cleaning cur (next_slot st.ktm.slot_buffer_size cur) body
        history := { st.history with handed := st.history.handed ++
          [{ cur, slots := (slots_at st.ktm.slot_buffer_size cur body).map st.ktm.slots }] } }
  | unawaited {what count : Nat} (receiver : st.receiver = .responding what count)
      (missing : st.ktm.waiting.find? (fun wait => wait.sent == what) = none) :
      Moves st .ack { st with
        receiver := .cleaning what (next_slot st.ktm.slot_buffer_size what) (add_msg_count count) }
  | ack {what count : Nat} {wait : Wait σ} (receiver : st.receiver = .responding what count)
      (found : st.ktm.waiting.find? (fun wait => wait.sent == what) = some wait) :
      Moves st .ack { st with
        ktm := { st.ktm with waiting := st.ktm.waiting.eraseP (fun wait => wait.sent == what) }
        senders := match st.senders wait.who_sent with
          | .sleeping number sent => Function.update st.senders wait.who_sent (.woken number sent)
          | _ => st.senders
        receiver := .spinning what count }
  | copy_back {who : σ} {number sent : Nat} (woken : st.senders who = .woken number sent) :
      Moves st (.copy_back who) { st with
        ktm := { st.ktm with slots := clear_new st.ktm.slots sent }
        senders := Function.update st.senders who .idle }
  | acked {what count : Nat} (receiver : st.receiver = .spinning what count)
      (clear : ¬marked (st.ktm.slots what).flags MSG_STATUS_NEW = true) :
      Moves st .acked { st with
        receiver := .cleaning what (next_slot st.ktm.slot_buffer_size what) (add_msg_count count) }
  | clean {what cur left : Nat} (receiver : st.receiver = .cleaning what cur (left+1)) :
      Moves st .clean { st with
        ktm := { st.ktm with slots := clear_flags st.ktm.slots cur }
        receiver := .cleaning what (next_slot st.ktm.slot_buffer_size cur) left }
  | finish {what cur : Nat} (receiver : st.receiver = .cleaning what cur 0) :
      Moves st .finish { st with
        ktm := { st.ktm with slots := clear_flags st.ktm.slots what }
        receiver := .waiting cur }
  | give_up {who : σ} {number sent : Nat} (sleeping : st.senders who = .sleeping number sent) :
      Moves st (.give_up who) { st with
        ktm := { st.ktm with waiting := st.ktm.waiting.eraseP (fun wait => wait.who_sent == who) }
        senders := Function.update st.senders who .idle }

theorem step_moves {e : Event σ} (stepped : step st e = some st') : Moves st e st' := by
  cases e with
  | prepare =>
    rw [step,prepare] at stepped
    split at stepped
    · rename_i absent
      obtain ⟨slots,reset,rfl⟩ := Option.map_eq_some_iff.mp stepped
      exact .prepare absent reset
    · cases stepped
  | send who what =>
    rw [step,start_send] at stepped
    split at stepped
    · rename_i idle
      split at stepped
      · rename_i refused
        obtain rfl := Option.some.inj stepped
        exact .full idle refused
      · rename_i ktm dst sent
        obtain rfl := Option.some.inj stepped
        exact .send idle sent
    · cases stepped
  | fire who =>
    rw [step,fire_head] at stepped
    split at stepped
    · rename_i number dst what firing
      obtain rfl := Option.some.inj stepped
      exact .fire firing
    · cases stepped
  | handle response =>
    rw [step,handle_message] at stepped
    split at stepped
    · rename_i cur receiver
      dsimp only at stepped
      split at stepped
      · cases stepped
      · rename_i new
        rw [Bool.not_eq_false] at new
        obtain rfl := Option.some.inj stepped
        exact .handle receiver new rfl rfl
    · cases stepped
  | ack =>
    rw [step,ktm_ack_sync] at stepped
    split at stepped
    · rename_i what count receiver
      split at stepped
      · rename_i missing
        obtain rfl := Option.some.inj stepped
        exact .unawaited receiver missing
      · rename_i wait found
        obtain rfl := Option.some.inj stepped
        exact .ack receiver found
    · cases stepped
  | copy_back who =>
    rw [step,copy_back] at stepped
    split at stepped
    · rename_i number sent woken
      obtain rfl := Option.some.inj stepped
      exact .copy_back woken
    · cases stepped
  | acked =>
    rw [step,acked] at stepped
    split at stepped
    · rename_i what count receiver
      split at stepped
      · cases stepped
      · rename_i clear
        obtain rfl := Option.some.inj stepped
        exact .acked receiver clear
    · cases stepped
  | clean =>
    rw [step,message_clean] at stepped
    split at stepped
    · rename_i what cur left receiver
      obtain rfl := Option.some.inj stepped
      exact .clean receiver
    · cases stepped
  | finish =>
    rw [step,finish] at stepped
    split at stepped
    · rename_i what cur receiver
      obtain rfl := Option.some.inj stepped
      exact .finish receiver
    · cases stepped
  | give_up who =>
    rw [step,give_up] at stepped
    split at stepped
    · rename_i number sent sleeping
      obtain rfl := Option.some.inj stepped
      exact .give_up sleeping
    · cases stepped

end Moving

/-! ### Consequences of the invariant -/

theorem Recorded.handed_fired {M : Nat} {history : History σ} (recorded : Recorded M history) {n : Nat}
    (given : n < history.handed.length) : n ∈ history.fired :=
  (recorded.delivered n _ (List.getElem?_eq_getElem given)).1

theorem Recorded.handed_bound {M : Nat} {history : History σ} (recorded : Recorded M history) :
    history.handed.length ≤ history.sends.length := by
  by_contra more
  have given := recorded.handed_fired (show history.sends.length < history.handed.length by omega)
  have := recorded.fired_bound _ given
  omega

theorem Recorded.unhanded {M : Nat} {history : History σ} (recorded : Recorded M history) {n : Nat}
    (unfired : n ∉ history.fired) : history.handed.length ≤ n := by
  by_contra less
  exact unfired (recorded.handed_fired (by omega))

theorem StageAt.order {M : Nat} {slots : Nat → y_message} {sends : List (Sent σ)} {senders : σ → Sender} {handed : Nat}
    {receiver : Receiver} (stage : StageAt M slots sends senders handed cleaned awake first receiver) :
    cleaned ≤ first ∧ first ≤ handed := by
  cases receiver with
  | absent => exact stage.elim
  | waiting cur =>
    obtain ⟨equal,_,equal_first,_⟩ := stage
    omega
  | responding what count =>
    obtain ⟨equal,_,equal_first,_⟩ := stage
    omega
  | spinning what count =>
    obtain ⟨equal,_,equal_first,_⟩ := stage
    omega
  | cleaning what cur left =>
    obtain ⟨equal,_,equal_first,_⟩ := stage
    omega

theorem InvAt.order (inv : InvAt st cleaned awake first) :
    cleaned ≤ first ∧ first ≤ st.history.handed.length ∧ st.history.handed.length ≤ st.history.sends.length :=
  ⟨inv.stage.order.1,inv.stage.order.2,inv.recorded.handed_bound⟩

/-! ### The senders and their waits -/

section Crowds
variable {sends : List (Sent σ)} {fired : List Nat} {senders : σ → Sender} {waiting : List (Wait σ)}

/-- The first sends have no wait left. -/
theorem Crowd.skip (crowd : Crowd sends fired senders waiting awake first)
    (none_first : ∀ w ∈ waiting, ∀ s, sends[first]? = some s → marked (s.what 0).flags MSG_FLAGS_SYNC = true →
      w.sent ≠ s.dst) : Crowd sends fired senders waiting awake (first + 1) where
  acts := crowd.acts
  unfired := crowd.unfired
  apart := crowd.apart
  waits w hw := by
    obtain ⟨n,s,at_n,low,sent,who,sync,state⟩ := crowd.waits w hw
    refine ⟨n,s,at_n,?_,sent,who,sync,state⟩
    rcases Nat.eq_or_lt_of_le low with rfl | more
    · exact absurd sent (none_first w hw s at_n sync)
    · exact more

/-- When no sender copies back, none needs to be awake. -/
theorem Crowd.settle {n : Nat} (crowd : Crowd sends fired senders waiting (some n) first)
    (asleep : ∀ who n sent, senders who ≠ .woken n sent) : Crowd sends fired senders waiting none first where
  unfired := crowd.unfired
  waits := crowd.waits
  apart := crowd.apart
  acts who := by
    have acts := crowd.acts who
    cases state : senders who with
    | idle => trivial
    | firing => rwa [state] at acts
    | sleeping => rwa [state] at acts
    | woken n sent => exact absurd state (asleep who n sent)

variable [DecidableEq σ]

theorem Crowd.send {s : Sent σ} {who : σ} (crowd : Crowd sends fired senders waiting awake first)
    (idle : senders who = .idle) (sender : s.who_sent = who) (fresh : sends.length ∉ fired) (bound : first ≤ sends.length)
    (other_head : ∀ n t, sends[n]? = some t → first ≤ n → t.dst ≠ s.dst) :
    Crowd (sends ++ [s]) fired (Function.update senders who (.firing sends.length s.dst (s.what 0)))
      (add_wait waiting s.dst (if marked (s.what 0).flags MSG_FLAGS_SYNC then some who else none)) awake first := by
  have at_end : (sends ++ [s])[sends.length]? = some s := by simp
  have old_waits : ∀ w ∈ waiting, ∃ n t, (sends ++ [s])[n]? = some t ∧ first ≤ n ∧ w.sent = t.dst ∧
      w.who_sent = t.who_sent ∧ marked (t.what 0).flags MSG_FLAGS_SYNC = true ∧
      (Function.update senders who (.firing sends.length s.dst (s.what 0)) t.who_sent = .firing n t.dst (t.what 0) ∨
        Function.update senders who (.firing sends.length s.dst (s.what 0)) t.who_sent = .sleeping n t.dst) := by
    intro w hw
    obtain ⟨n,t,at_n,low,sent,by_who,sync,state⟩ := crowd.waits w hw
    refine ⟨n,t,at_snoc at_n,low,sent,by_who,sync,?_⟩
    by_cases same : t.who_sent = who
    · rw [same,idle] at state
      rcases state with state | state <;> cases state
    · rw [Function.update_of_ne same]
      exact state
  refine ⟨?_,?_,?_,?_⟩
  · intro other
    by_cases same : other = who
    · rw [same,Function.update_self]
      exact ⟨fresh,s,at_end,sender,rfl,rfl⟩
    · rw [Function.update_of_ne same]
      have acts := crowd.acts other
      cases state : senders other with
      | idle => trivial
      | firing n dst what =>
        rw [state] at acts
        obtain ⟨unfired,t,at_n,rest⟩ := acts
        exact ⟨unfired,t,at_snoc at_n,rest⟩
      | sleeping n sent =>
        rw [state] at acts
        obtain ⟨done,t,at_n,rest⟩ := acts
        exact ⟨done,t,at_snoc at_n,rest⟩
      | woken n sent =>
        rw [state] at acts
        obtain ⟨up,t,at_n,rest⟩ := acts
        exact ⟨up,t,at_snoc at_n,rest⟩
  · intro n t at_n unfired
    rcases snoc_cases at_n with ⟨old,_⟩ | ⟨rfl,rfl⟩
    · have state := crowd.unfired n t old unfired
      rw [Function.update_of_ne]
      · exact state
      · intro same
        rw [same,idle] at state
        cases state
    · rw [sender,Function.update_self]
  · cases sync : marked (s.what 0).flags MSG_FLAGS_SYNC with
    | false => exact old_waits
    | true =>
      intro w hw
      rcases List.mem_append.1 hw with old | new
      · exact old_waits w old
      · obtain rfl := List.mem_singleton.1 new
        refine ⟨sends.length,s,at_end,bound,rfl,sender.symm,sync,Or.inl ?_⟩
        rw [sender,Function.update_self]
  · cases marked (s.what 0).flags MSG_FLAGS_SYNC with
    | false => exact crowd.apart
    | true =>
      refine List.pairwise_append.2 ⟨crowd.apart,List.pairwise_singleton _ _,?_⟩
      intro v hv w hw
      obtain rfl := List.mem_singleton.1 hw
      obtain ⟨n,t,at_n,low,sent,_⟩ := crowd.waits v hv
      rw [sent]
      exact other_head n t at_n low

theorem Crowd.fire {n : Nat} {s : Sent σ} (crowd : Crowd sends fired senders waiting awake first)
    (at_n : sends[n]? = some s) (firing : senders s.who_sent = .firing n s.dst (s.what 0)) :
    Crowd sends (n :: fired) (Function.update senders s.who_sent
      (if marked (s.what 0).flags MSG_FLAGS_SYNC then .sleeping n s.dst else .idle)) waiting awake first := by
  refine ⟨?_,?_,?_,crowd.apart⟩
  · intro who
    by_cases same : who = s.who_sent
    · rw [same,Function.update_self]
      split
      · exact ⟨List.mem_cons_self,s,at_n,rfl,rfl⟩
      · trivial
    · rw [Function.update_of_ne same]
      have acts := crowd.acts who
      cases state : senders who with
      | idle => trivial
      | firing m dst what =>
        rw [state] at acts
        obtain ⟨unfired,t,at_m,by_who,rest⟩ := acts
        refine ⟨?_,t,at_m,by_who,rest⟩
        rw [List.mem_cons,not_or]
        refine ⟨?_,unfired⟩
        rintro rfl
        obtain rfl : t = s := Option.some.inj (by rw [← at_m,← at_n])
        exact same by_who.symm
      | sleeping m sent =>
        rw [state] at acts
        exact ⟨List.mem_cons_of_mem _ acts.1,acts.2⟩
      | woken m sent =>
        rw [state] at acts
        exact acts
  · intro m t at_m still
    rw [List.mem_cons,not_or] at still
    have state := crowd.unfired m t at_m still.2
    rw [Function.update_of_ne]
    · exact state
    · intro same
      rw [same,firing] at state
      injection state with number
      exact still.1 number.symm
  · intro w hw
    obtain ⟨m,t,at_m,low,sent,by_who,sync,state⟩ := crowd.waits w hw
    refine ⟨m,t,at_m,low,sent,by_who,sync,?_⟩
    by_cases same : t.who_sent = s.who_sent
    · -- the wait is that of the message being fired
      rw [same,firing] at state
      rcases state with state | state
      · injection state with number
        obtain rfl : t = s := Option.some.inj (by rw [← at_m,← at_n,number])
        right
        rw [Function.update_self,if_pos sync,number]
      · cases state
    · rw [Function.update_of_ne same]
      exact state

omit [DecidableEq σ] in
private theorem eraseP_clears {p : Wait σ → Bool} {l : List (Wait σ)}
    (single : l.Pairwise (fun v w => ¬(p v = true ∧ p w = true))) : ∀ w ∈ l.eraseP p, p w = false := by
  induction l with
  | nil => simp
  | cons v l ih =>
    obtain ⟨first,rest⟩ := List.pairwise_cons.1 single
    intro w hw
    cases hit : p v with
    | true =>
      rw [List.eraseP_cons_of_pos hit] at hw
      rw [← Bool.not_eq_true]
      exact fun again => first w hw ⟨hit,again⟩
    | false =>
      rw [List.eraseP_cons_of_neg (by rw [hit]; decide)] at hw
      rcases List.mem_cons.1 hw with rfl | later
      · exact hit
      · exact ih rest w later

/-- The receiver finds the wait of the first send and wakes its sender. -/
theorem Crowd.answer {s : Sent σ} (crowd : Crowd sends fired senders waiting none first) (at_first : sends[first]? = some s)
    (sleeping : senders s.who_sent = .sleeping first s.dst) :
    Crowd sends fired (Function.update senders s.who_sent (.woken first s.dst))
      (waiting.eraseP (fun wait => wait.sent == s.dst)) (some first) (first + 1) := by
  have cleared := eraseP_clears (p := fun wait => wait.sent == s.dst) (crowd.apart.imp (fun {v w} differ both =>
    differ ((beq_iff_eq.1 both.1).trans (beq_iff_eq.1 both.2).symm)))
  refine ⟨?_,?_,?_,crowd.apart.sublist List.eraseP_sublist⟩
  · intro who
    by_cases same : who = s.who_sent
    · rw [same,Function.update_self]
      exact ⟨rfl,s,at_first,rfl,rfl⟩
    · rw [Function.update_of_ne same]
      have acts := crowd.acts who
      cases state : senders who with
      | idle => trivial
      | firing => rwa [state] at acts
      | sleeping => rwa [state] at acts
      | woken n sent =>
        rw [state] at acts
        exact absurd acts.1 (by simp)
  · intro n t at_n unfired
    have state := crowd.unfired n t at_n unfired
    rw [Function.update_of_ne]
    · exact state
    · intro same
      rw [same,sleeping] at state
      cases state
  · intro w hw
    obtain ⟨n,t,at_n,low,sent,by_who,sync,state⟩ := crowd.waits w (List.mem_of_mem_eraseP hw)
    have later : n ≠ first := by
      rintro rfl
      obtain rfl : t = s := Option.some.inj (by rw [← at_n,← at_first])
      exact absurd (cleared w hw) (by rw [sent]; simp)
    refine ⟨n,t,at_n,by omega,sent,by_who,sync,?_⟩
    rw [Function.update_of_ne]
    · exact state
    · intro same
      rw [same,sleeping] at state
      rcases state with state | state
      · cases state
      · injection state with number
        exact later number.symm

/-- A sender that leaves is in no wait that stays. -/
theorem Crowd.leave {who : σ} {waiting' : List (Wait σ)} (crowd : Crowd sends fired senders waiting awake first)
    (not_firing : ∀ n dst what, senders who ≠ .firing n dst what) (fewer : waiting'.Sublist waiting)
    (gone : ∀ w ∈ waiting', w.who_sent ≠ who) :
    Crowd sends fired (Function.update senders who .idle) waiting' awake first := by
  refine ⟨?_,?_,?_,crowd.apart.sublist fewer⟩
  · intro other
    by_cases same : other = who
    · rw [same,Function.update_self]
      trivial
    · rw [Function.update_of_ne same]
      exact crowd.acts other
  · intro n s at_n unfired
    have state := crowd.unfired n s at_n unfired
    rw [Function.update_of_ne]
    · exact state
    · intro same
      rw [same] at state
      exact not_firing _ _ _ state
  · intro w hw
    obtain ⟨n,s,at_n,low,sent,by_who,sync,state⟩ := crowd.waits w (fewer.subset hw)
    refine ⟨n,s,at_n,low,sent,by_who,sync,?_⟩
    rw [Function.update_of_ne]
    · exact state
    · rw [← by_who]
      exact gone w hw

/-- A sender that stops waiting takes its wait with it. -/
theorem Crowd.give_up {who : σ} {n sent : Nat} (crowd : Crowd sends fired senders waiting awake first)
    (sleeping : senders who = .sleeping n sent) :
    Crowd sends fired (Function.update senders who .idle) (waiting.eraseP (fun wait => wait.who_sent == who)) awake first := by
  apply crowd.leave
  · intro n dst what firing
    rw [sleeping] at firing
    cases firing
  · exact List.eraseP_sublist
  have its {w : Wait σ} (hw : w ∈ waiting) (by_who : w.who_sent = who) : w.sent = sent := by
    obtain ⟨m,t,at_m,low,dst,by_t,sync,state⟩ := crowd.waits w hw
    rw [← by_t,by_who,sleeping] at state
    rcases state with state | state
    · cases state
    · injection state with _ place
      rw [dst,place]
  intro w hw
  have cleared := eraseP_clears (p := fun wait => wait.who_sent == who) (crowd.apart.imp_of_mem
    (fun {v w} hv hw differ both => differ
      ((its hv (beq_iff_eq.1 both.1)).trans (its hw (beq_iff_eq.1 both.2)).symm))) w hw
  exact fun same => absurd cleared (by rw [same]; simp)

end Crowds

/-! ### The steps of the senders -/

section Steps
variable [DecidableEq σ]

omit [DecidableEq σ] in
theorem send_some {ktm ktm' : Ktm σ} {what : Nat → y_message} {wait : Option σ} {dst tmp : Nat}
    (current : ktm.current_slot = some tmp) (sent : send ktm what wait = some (ktm',dst)) :
    search ktm.slot_buffer_size ktm.slots tmp (add_msg_count (what 0).count.toNat + 1)
      (add_msg_count (what 0).count.toNat + 1) tmp 0 = add_msg_count (what 0).count.toNat + 1 ∧ dst = tmp ∧
    ktm' = { ktm with
      slots := placed ktm.slot_buffer_size ktm.slots tmp (add_msg_count (what 0).count.toNat) what
      current_slot := some (set_used ktm.slot_buffer_size ktm.slots (add_msg_count (what 0).count.toNat + 1) tmp).2
      waiting := add_wait ktm.waiting tmp wait } := by
  rw [send,current] at sent
  dsimp only at sent
  split at sent
  · cases sent
  · rename_i found
    injection sent with pair
    injection pair with ring head
    exact ⟨not_not.1 found,head.symm,ring.symm⟩

omit [DecidableEq σ] in
/-- A step of a sender leaves the receiver where it is, if it leaves the message that is
    being handled and the senders that copy back. -/
theorem StageAt.frame {M : Nat} {slots slots' : Nat → y_message} {sends sends' : List (Sent σ)}
    {senders senders' : σ → Sender} {handed : Nat} {receiver : Receiver}
    (stage : StageAt M slots sends senders handed cleaned awake first receiver)
    (start : startAt sends' cleaned = startAt sends cleaned)
    (at_cleaned : ∀ s, sends[cleaned]? = some s → sends'[cleaned]? = some s)
    (kept : handed = cleaned + 1 → ∀ s j, sends[cleaned]? = some s → j ≤ bodyOf s →
      slots' ((startAt sends cleaned + j) % M) = slots ((startAt sends cleaned + j) % M))
    (woken : ∀ who n sent, senders' who = .woken n sent ↔ senders who = .woken n sent) :
    StageAt M slots' sends' senders' handed cleaned awake first receiver := by
  cases receiver with
  | absent => exact stage
  | waiting cur =>
    obtain ⟨given,up,waits,rfl⟩ := stage
    exact ⟨given,up,waits,by rw [start]⟩
  | responding what count =>
    obtain ⟨given,up,waits,rfl,new,s,at_c,body⟩ := stage
    have head := kept given s 0 at_c (Nat.zero_le _)
    rw [Nat.add_zero] at head
    exact ⟨given,up,waits,by rw [start],by rw [head]; exact new,s,at_cleaned s at_c,body⟩
  | spinning what count =>
    obtain ⟨given,up,waits,rfl,new,s,at_c,body⟩ := stage
    have head := kept given s 0 at_c (Nat.zero_le _)
    rw [Nat.add_zero] at head
    refine ⟨given,up,waits,by rw [start],?_,s,at_cleaned s at_c,body⟩
    rw [head,new]
    simp only [woken]
  | cleaning what cur left =>
    obtain ⟨given,up,waits,rfl,s,at_c,bound,place,clear⟩ := stage
    refine ⟨given,up,waits,by rw [start],s,at_cleaned s at_c,bound,by rw [start]; exact place,?_⟩
    intro j positive within
    rw [start,kept given s j at_c (by omega)]
    exact clear j positive within

theorem start_send_inv {who : σ} {what : Nat → y_message} (inv : InvAt st cleaned awake first)
    (stepped : step st (.send who what) = some st') : InvAt st' cleaned awake first := by
  cases step_moves stepped with
  | full idle refused => exact inv
  | send idle sent =>
    rename_i ktm dst
    obtain ⟨found,rfl,rfl⟩ := send_some inv.current sent
    obtain ⟨order_first,order_handed,order_sends⟩ := inv.order
    generalize head_at : startAt st.history.sends st.history.sends.length % slotCount st.ktm.slot_buffer_size = dst at *
    let s : Sent σ := { who_sent := who, what, dst }
    have fresh : st.history.sends.length ∉ st.history.fired := fun done =>
      absurd (inv.recorded.fired_bound _ done) (Nat.lt_irrefl _)
    have roomy : startAt st.history.sends st.history.sends.length + (bodyOf s + 1) ≤
        startAt st.history.sends cleaned + slotCount st.ktm.slot_buffer_size := by
      apply inv.layout.found_room (by omega) _ (by omega)
      rw [head_at]
      exact found
    have layout := inv.layout.reserve (s := s) (by omega) (by omega) fresh roomy
    rw [head_at] at layout
    refine ⟨?_,layout,?_,?_,?_⟩
    · show some _ = some _
      rw [startAt_snoc_end s,← head_at,set_used_end]
      rfl
    · refine ⟨?_,?_,inv.recorded.fired_once,?_⟩
      · intro n t at_n
        rcases snoc_cases at_n with ⟨old,less⟩ | ⟨rfl,rfl⟩
        · rw [startAt_snoc s (by omega)]
          exact inv.recorded.heads n t old
        · rw [startAt_snoc s (Nat.le_refl _)]
          exact head_at.symm
      · intro n done
        have := inv.recorded.fired_bound n done
        rw [List.length_append]
        omega
      · intro n d given
        obtain ⟨done,t,at_n,equal⟩ := inv.recorded.delivered n d given
        exact ⟨done,t,at_snoc at_n,equal⟩
    · apply inv.crowd.send (s := s) idle rfl fresh (by omega)
      intro n t at_n low
      rw [inv.recorded.heads n t at_n]
      show _ ≠ dst
      rw [← head_at]
      exact (free_ne inv.layout.room at_n (by omega) (Nat.zero_le _) (Nat.le_refl _) (by omega)).symm
    · apply inv.stage.frame (startAt_snoc s (by omega)) (fun t at_c => at_snoc at_c)
      · intro given t j at_c inside
        show placed _ _ dst _ _ _ = _
        rw [← head_at]
        exact placed_outside (fun k hk => free_ne inv.layout.room at_c (Nat.le_refl _) inside (by omega)
          (Nat.lt_of_lt_of_le (Nat.add_lt_add_left (Nat.lt_succ_of_le hk) _) roomy))
      · intro other n sent
        show Function.update st.senders who _ other = _ ↔ _
        by_cases same : other = who
        · rw [same,Function.update_self,idle]
          simp
        · rw [Function.update_of_ne same]

theorem fire_head_inv {who : σ} (inv : InvAt st cleaned awake first) (stepped : step st (.fire who) = some st') :
    InvAt st' cleaned awake first := by
  cases step_moves stepped with
  | fire firing =>
    rename_i n dst what
    have acts := inv.crowd.acts who
    rw [firing] at acts
    obtain ⟨unfired,s,at_n,rfl,rfl,rfl⟩ := acts
    have order := inv.order
    have unhanded := inv.recorded.unhanded unfired
    have head := inv.recorded.heads n s at_n
    have layout := inv.layout.fire at_n (by omega) unhanded unfired
    rw [← head] at layout
    refine ⟨inv.current,layout,?_,inv.crowd.fire at_n firing,?_⟩
    · refine ⟨inv.recorded.heads,?_,List.nodup_cons.2 ⟨unfired,inv.recorded.fired_once⟩,?_⟩
      · intro m done
        rcases List.mem_cons.1 done with rfl | done
        · exact below_length at_n
        · exact inv.recorded.fired_bound m done
      · intro m d given
        obtain ⟨done,t,at_m,equal⟩ := inv.recorded.delivered m d given
        exact ⟨List.mem_cons_of_mem _ done,t,at_m,equal⟩
    · apply inv.stage.frame rfl (fun t at_c => at_c)
      · intro given t j at_c inside
        apply Function.update_of_ne
        rw [head]
        have apart := place_ne inv.layout.room at_c at_n (Nat.le_refl _) (by omega) inside (Nat.zero_le _)
          (Or.inl (by omega))
        simpa using apart
      · intro other m sent
        show Function.update st.senders s.who_sent _ other = _ ↔ _
        by_cases same : other = s.who_sent
        · rw [same,Function.update_self,firing]
          split <;> simp
        · rw [Function.update_of_ne same]

theorem give_up_inv {who : σ} (inv : InvAt st cleaned awake first) (stepped : step st (.give_up who) = some st') :
    InvAt st' cleaned awake first := by
  cases step_moves stepped with
  | give_up sleeping =>
    refine ⟨inv.current,inv.layout,inv.recorded,inv.crowd.give_up sleeping,?_⟩
    apply inv.stage.frame rfl (fun t at_c => at_c) (fun _ _ _ _ _ => rfl)
    intro other m sent
    show Function.update st.senders who _ other = _ ↔ _
    by_cases same : other = who
    · rw [same,Function.update_self,sleeping]
      simp
    · rw [Function.update_of_ne same]

omit [DecidableEq σ] in
/-- A sender copies back only while the receiver waits for it in `ktm_ack_sync`. -/
theorem InvAt.spinning_of_woken {who : σ} {n sent : Nat} (inv : InvAt st cleaned awake first)
    (woken : st.senders who = .woken n sent) :
    n = cleaned ∧ ∃ count, st.receiver = .spinning sent count ∧
      ∃ s, st.history.sends[cleaned]? = some s ∧ s.who_sent = who ∧ sent = s.dst := by
  have acts := inv.crowd.acts who
  rw [woken] at acts
  obtain ⟨up,s,at_n,by_who,place⟩ := acts
  have stage := inv.stage
  cases receiver : st.receiver with
  | absent =>
    rw [receiver] at stage
    exact stage.elim
  | waiting cur =>
    rw [receiver] at stage
    exact absurd (stage.2.1.symm.trans up) (by simp)
  | responding what count =>
    rw [receiver] at stage
    exact absurd (stage.2.1.symm.trans up) (by simp)
  | cleaning what cur left =>
    rw [receiver] at stage
    exact absurd (stage.2.1.symm.trans up) (by simp)
  | spinning what count =>
    rw [receiver] at stage
    obtain ⟨given,awake_c,waits,rfl,new,_⟩ := stage
    obtain rfl : n = cleaned := Option.some.inj (up.symm.trans awake_c)
    refine ⟨rfl,count,?_,s,at_n,by_who,place⟩
    rw [place,inv.recorded.heads n s at_n]

theorem copy_back_inv {who : σ} (inv : InvAt st cleaned awake first) (stepped : step st (.copy_back who) = some st') :
    InvAt st' cleaned awake first := by
  cases step_moves stepped with
  | copy_back woken =>
    rename_i n sent
    obtain ⟨rfl,count,receiver,s,at_c,rfl,rfl⟩ := inv.spinning_of_woken woken
    have stage := inv.stage
    rw [receiver] at stage
    obtain ⟨given,up,waits,place,new,body⟩ := stage
    have layout := inv.layout
    rw [given] at layout
    refine ⟨inv.current,?_,inv.recorded,?_,?_⟩
    · show Layout _ (clear_new st.ktm.slots s.dst) _ _ _ st.history.handed.length
      rw [given]
      apply layout.inside at_c
      · intro k away
        apply Function.update_of_ne
        rw [place]
        exact (away 0 (Nat.zero_le _)).symm
      · rw [place,clear_new,Function.update_self,used_after_clear_new]
        exact layout.owned n s at_c (Nat.le_refl _)
    · apply inv.crowd.leave
      · intro m dst what firing
        rw [woken] at firing
        cases firing
      · exact List.Sublist.refl _
      · intro w hw same
        obtain ⟨m,t,at_m,low,sent,by_who,sync,state⟩ := inv.crowd.waits w hw
        rw [← by_who,same,woken] at state
        rcases state with state | state <;> cases state
    · show StageAt _ (clear_new st.ktm.slots s.dst) _ (Function.update st.senders s.who_sent .idle) _ _ _ _ st.receiver
      rw [receiver]
      refine ⟨given,up,waits,place,?_,body⟩
      constructor
      · intro still
        rw [clear_new,Function.update_self,new_after_clear_new] at still
        cases still
      · rintro ⟨other,m,sent,still⟩
        -- the woken sender was the only one
        have same : other ≠ s.who_sent := by
          rintro rfl
          rw [Function.update_self] at still
          cases still
        rw [Function.update_of_ne same] at still
        obtain ⟨_,_,_,t,at_t,by_t,_⟩ := inv.spinning_of_woken still
        rw [at_c] at at_t
        obtain rfl := Option.some.inj at_t
        exact absurd by_t.symm same

end Steps

/-! ### The steps of the receiver -/

/-- What the receiver takes for a new message is the oldest one it has not been given. -/
theorem InvAt.oldest_of_new {cur : Nat} (inv : InvAt st cleaned awake first) (receiver : st.receiver = .waiting cur)
    (new : marked (st.ktm.slots cur).flags MSG_STATUS_NEW = true) :
    ∃ s, st.history.sends[cleaned]? = some s ∧ cleaned ∈ st.history.fired ∧ cur = s.dst ∧
      st.ktm.slots cur = firedHead (s.what 0) := by
  have stage := inv.stage
  rw [receiver] at stage
  obtain ⟨given,_,_,rfl⟩ := stage
  have order := inv.order
  rcases Nat.lt_or_ge cleaned st.history.sends.length with less | all
  · have at_c := List.getElem?_eq_getElem less
    by_cases done : cleaned ∈ st.history.fired
    · exact ⟨_,at_c,done,(inv.recorded.heads cleaned _ at_c).symm,inv.layout.loud cleaned _ at_c (by omega) done⟩
    · rw [inv.layout.silent cleaned _ at_c (by omega) done] at new
      exact absurd new (by decide)
  · obtain rfl : cleaned = st.history.sends.length := by omega
    have positive := slotCount_pos st.ktm.slot_buffer_size
    rw [inv.layout.free _ (Nat.le_refl _) (by omega),marked_zero] at new
    cases new

theorem InvAt.message_fits {s : Sent σ} (inv : InvAt st cleaned awake first)
    (at_c : st.history.sends[cleaned]? = some s) : bodyOf s + 1 ≤ slotCount st.ktm.slot_buffer_size := by
  have room := inv.layout.room
  have bounds := place_bounds at_c (Nat.le_refl cleaned) (Nat.le_refl (bodyOf s))
  omega

/-- The slots in front of the receiver hold the message as it was sent. -/
theorem InvAt.handed_slots {s : Sent σ} (inv : InvAt st cleaned awake first)
    (given : st.history.handed.length = cleaned) (at_c : st.history.sends[cleaned]? = some s)
    (head : st.ktm.slots s.dst = firedHead (s.what 0)) :
    (slots_at st.ktm.slot_buffer_size s.dst (bodyOf s)).map st.ktm.slots = (handedOf s).slots := by
  rw [inv.recorded.heads cleaned s at_c] at head
  rw [inv.recorded.heads cleaned s at_c,slots_at_eq,List.range_succ_eq_map,List.map_cons,List.map_cons,List.map_map,
    List.map_map,handedOf]
  congr 1
  apply List.map_congr_left
  intro j hj
  have within := List.mem_range.1 hj
  exact inv.layout.body cleaned s (j + 1) at_c (by omega) (by omega) (by omega)

/-- The receiver is given the oldest send that it has not been given. -/
theorem Recorded.hand {M : Nat} {history : History σ} {s : Sent σ} (recorded : Recorded M history)
    (fired : history.handed.length ∈ history.fired) (at_n : history.sends[history.handed.length]? = some s) :
    Recorded M { history with handed := history.handed ++ [handedOf s] } := by
  refine ⟨recorded.heads,recorded.fired_bound,recorded.fired_once,?_⟩
  intro n d given
  rcases Nat.lt_or_ge n history.handed.length with less | more
  · exact recorded.delivered n d (by rwa [← List.getElem?_append_left less])
  · have last : n < (history.handed ++ [handedOf s]).length := (List.getElem?_eq_some_iff.1 given).1
    rw [List.length_append,List.length_singleton] at last
    obtain rfl : n = history.handed.length := by omega
    simp only [List.getElem?_concat_length,Option.some.injEq] at given
    exact ⟨fired,s,at_n,given.symm⟩

theorem handle_message_inv [DecidableEq σ] {response : Nat → y_message} (inv : InvAt st cleaned awake first)
    (stepped : step st (.handle response) = some st') : ∃ first, InvAt st' cleaned none first := by
  cases step_moves stepped with
  | handle receiver new counted sized =>
    subst counted sized
    obtain ⟨s,at_c,done,rfl,head⟩ := inv.oldest_of_new receiver new
    have stage := inv.stage
    rw [receiver] at stage
    obtain ⟨given,rfl,rfl,place⟩ := stage
    have count : add_msg_count (st.ktm.slots s.dst).count.toNat = bodyOf s := by
      rw [head]
      rfl
    have sync : marked (st.ktm.slots s.dst).flags MSG_FLAGS_SYNC = marked (s.what 0).flags MSG_FLAGS_SYNC := by
      rw [head,sync_firedHead]
    have fits := inv.message_fits at_c
    have outside : ∀ k, (∀ j ≤ bodyOf s, (startAt st.history.sends first + j) % slotCount st.ktm.slot_buffer_size ≠ k) →
        respond st.ktm.slot_buffer_size st.ktm.slots s.dst (bodyOf s) response k = st.ktm.slots k := by
      intro k away
      rw [place]
      exact respond_outside away
    have same_head : (respond st.ktm.slot_buffer_size st.ktm.slots s.dst (bodyOf s) response s.dst).flags =
        (st.ktm.slots s.dst).flags := by
      rw [place]
      exact respond_head st.ktm.slots response fits
    have layout : Layout (slotCount st.ktm.slot_buffer_size)
        (respond st.ktm.slot_buffer_size st.ktm.slots s.dst (bodyOf s) response) st.history.sends st.history.fired
        first (first + 1) := by
      have before := inv.layout
      rw [given] at before
      apply before.hand.inside at_c outside
      rw [← place,same_head,head,used_firedHead]
    have recorded := inv.recorded.hand (by rw [given]; exact done) (by rw [given]; exact at_c)
    have length : (st.history.handed ++ [handedOf s]).length = first + 1 := by
      rw [List.length_append,List.length_singleton,given]
    rw [count,inv.handed_slots given at_c head]
    rw [← length] at layout
    cases is_sync : marked (st.ktm.slots s.dst).flags MSG_FLAGS_SYNC with
    | true =>
      refine ⟨first,inv.current,layout,recorded,inv.crowd,length,rfl,rfl,place,?_,s,at_c,count⟩
      show marked (respond _ _ _ _ _ _).flags _ = true
      rw [same_head]
      exact new
    | false =>
      refine ⟨first + 1,inv.current,layout,recorded,?_,length,rfl,rfl,place,s,at_c,Nat.le_refl _,?_,?_⟩
      · apply inv.crowd.skip
        intro w hw t at_t is_set
        rw [at_c] at at_t
        obtain rfl := Option.some.inj at_t
        rw [← sync,is_sync] at is_set
        cases is_set
      · show next_slot _ s.dst = _
        rw [place,next_slot_round,Nat.sub_self,Nat.zero_add]
      · intro j positive within
        omega

/-- The receiver starts to clean the message it has handled. -/
theorem InvAt.start_cleaning {what count : Nat} {s : Sent σ} (inv : InvAt st cleaned awake first)
    (given : st.history.handed.length = cleaned + 1) (place : what = startAt st.history.sends cleaned %
      slotCount st.ktm.slot_buffer_size) (at_c : st.history.sends[cleaned]? = some s) (body : add_msg_count count = bodyOf s)
    (crowd : Crowd st.history.sends st.history.fired st.senders st.ktm.waiting none (cleaned + 1)) :
    InvAt { st with receiver := .cleaning what (next_slot st.ktm.slot_buffer_size what) (add_msg_count count) } cleaned none
      (cleaned + 1) := by
  refine ⟨inv.current,inv.layout,inv.recorded,crowd,given,rfl,rfl,place,s,at_c,?_,?_,?_⟩
  · rw [body]
  · rw [place,next_slot_round,body,Nat.sub_self,Nat.zero_add]
  · intro j positive within
    omega

/-- The message that is being answered is the oldest one, at whose head it lies. -/
theorem InvAt.responding (inv : InvAt st cleaned awake first) {what count : Nat}
    (receiver : st.receiver = .responding what count) :
    st.history.handed.length = cleaned + 1 ∧ awake = none ∧ first = cleaned ∧
      what = startAt st.history.sends cleaned % slotCount st.ktm.slot_buffer_size ∧
      marked (st.ktm.slots what).flags MSG_STATUS_NEW = true ∧
      ∃ s, st.history.sends[cleaned]? = some s ∧ add_msg_count count = bodyOf s ∧ s.dst = what := by
  have stage := inv.stage
  rw [receiver] at stage
  obtain ⟨given,up,waits,place,new,s,at_c,body⟩ := stage
  exact ⟨given,up,waits,place,new,s,at_c,body,by rw [inv.recorded.heads cleaned s at_c,place]⟩

theorem ktm_ack_sync_inv [DecidableEq σ] (inv : InvAt st cleaned awake first) (stepped : step st .ack = some st') :
    ∃ awake first, InvAt st' cleaned awake first := by
  cases step_moves stepped with
  | unawaited receiver missing =>
    obtain ⟨given,rfl,rfl,place,new,s,at_c,body,dst⟩ := inv.responding receiver
    refine ⟨none,first + 1,inv.start_cleaning given place at_c body ?_⟩
    apply inv.crowd.skip
    intro w hw t at_t _ same
    rw [at_c] at at_t
    obtain rfl := Option.some.inj at_t
    exact List.find?_eq_none.1 missing w hw (beq_iff_eq.2 (same.trans dst))
  | ack receiver found =>
    rename_i what count wait
    obtain ⟨given,rfl,rfl,place,new,s,at_c,body,dst⟩ := inv.responding receiver
    have hit := List.find?_some found
    simp only [beq_iff_eq] at hit
    obtain ⟨n,t,at_n,low,sent,by_who,sync,state⟩ := inv.crowd.waits wait (List.mem_of_find?_eq_some found)
    have number : n = first := by
      by_contra differ
      apply head_ne inv.layout.room at_n at_c low (Nat.le_refl _) differ
      rw [← inv.recorded.heads n t at_n,← sent,hit,place]
    obtain rfl : t = s := Option.some.inj (by rw [← at_n,← at_c,number])
    rw [number] at state
    have sleeping : st.senders t.who_sent = .sleeping first t.dst := by
      rcases state with state | state
      · have acts := inv.crowd.acts t.who_sent
        rw [state] at acts
        exact absurd (inv.recorded.handed_fired (show first < _ by omega)) acts.1
      · exact state
    rw [by_who,sleeping,← dst]
    refine ⟨some first,first + 1,inv.current,inv.layout,inv.recorded,inv.crowd.answer at_c sleeping,given,rfl,rfl,
      dst.trans place,?_,t,at_c,body⟩
    constructor
    · intro _
      exact ⟨t.who_sent,first,t.dst,Function.update_self _ _ _⟩
    · intro _
      show marked (st.ktm.slots t.dst).flags _ = true
      rw [dst]
      exact new

theorem acked_inv [DecidableEq σ] (inv : InvAt st cleaned awake first) (stepped : step st .acked = some st') :
    ∃ awake first, InvAt st' cleaned awake first := by
  cases step_moves stepped with
  | acked receiver clear =>
    have stage := inv.stage
    rw [receiver] at stage
    obtain ⟨given,rfl,rfl,place,new,s,at_c,body⟩ := stage
    refine ⟨none,cleaned + 1,inv.start_cleaning given place at_c body ?_⟩
    apply inv.crowd.settle
    intro who n sent woken
    exact clear (new.2 ⟨who,n,sent,woken⟩)

theorem message_clean_inv [DecidableEq σ] (inv : InvAt st cleaned awake first) (stepped : step st .clean = some st') :
    InvAt st' cleaned awake first := by
  cases step_moves stepped with
  | clean receiver =>
    rename_i what cur left
    have stage := inv.stage
    rw [receiver] at stage
    obtain ⟨given,rfl,rfl,place,s,at_c,bound,rfl,clear⟩ := stage
    have layout := inv.layout
    rw [given] at layout
    have head_apart : startAt st.history.sends cleaned % slotCount st.ktm.slot_buffer_size ≠
        (startAt st.history.sends cleaned + (bodyOf s - (left + 1) + 1)) % slotCount st.ktm.slot_buffer_size := by
      have apart := place_ne layout.room at_c at_c (Nat.le_refl _) (Nat.le_refl _) (Nat.zero_le _)
        (show bodyOf s - (left + 1) + 1 ≤ bodyOf s by omega) (Or.inr (by omega))
      simpa using apart
    refine ⟨inv.current,?_,inv.recorded,inv.crowd,given,rfl,rfl,place,s,at_c,by omega,?_,?_⟩
    · show Layout _ (clear_flags st.ktm.slots _) _ _ _ st.history.handed.length
      rw [given]
      apply layout.inside at_c
      · intro k away
        exact Function.update_of_ne (away _ (by omega)).symm _ _
      · rw [clear_flags,Function.update_of_ne head_apart]
        exact layout.owned cleaned s at_c (Nat.le_refl _)
    · show next_slot _ _ = _
      rw [next_slot_round,show startAt st.history.sends cleaned + (bodyOf s - (left + 1) + 1) + 1 =
        startAt st.history.sends cleaned + (bodyOf s - left + 1) by omega]
    · intro j positive within
      show (clear_flags st.ktm.slots _ _).flags = 0#16
      by_cases last : j = bodyOf s - (left + 1) + 1
      · rw [last,clear_flags,Function.update_self]
      · rw [clear_flags,Function.update_of_ne]
        · exact clear j positive (by omega)
        · exact place_ne layout.room at_c at_c (Nat.le_refl _) (Nat.le_refl _) (by omega) (by omega) (Or.inr last)

theorem finish_inv [DecidableEq σ] (inv : InvAt st cleaned awake first) (stepped : step st .finish = some st') :
    ∃ first, InvAt st' (cleaned + 1) none first := by
  cases step_moves stepped with
  | finish receiver =>
    have stage := inv.stage
    rw [receiver] at stage
    obtain ⟨given,rfl,rfl,rfl,s,at_c,bound,place,clear⟩ := stage
    have layout := inv.layout
    rw [given] at layout
    refine ⟨cleaned + 1,inv.current,?_,inv.recorded,inv.crowd,given,rfl,rfl,?_⟩
    · show Layout _ (clear_flags st.ktm.slots _) _ _ _ st.history.handed.length
      rw [given]
      apply layout.release at_c
      · exact fun k away => Function.update_of_ne away.symm _ _
      · exact fun j positive within => clear j positive (by omega)
      · rw [clear_flags,Function.update_self]
    · rw [place,startAt_next at_c,Nat.sub_zero]

/-! ### Runs -/

section Reached
variable [DecidableEq σ]

theorem step_inv {e : Event σ} (inv : Inv st) (stepped : step st e = some st') : Inv st' := by
  obtain ⟨cleaned,awake,first,inv⟩ := inv
  cases e with
  | prepare =>
    cases step_moves stepped with
    | prepare absent reset =>
      have stage := inv.stage
      rw [absent] at stage
      exact stage.elim
  | send who what => exact ⟨cleaned,awake,first,start_send_inv inv stepped⟩
  | fire who => exact ⟨cleaned,awake,first,fire_head_inv inv stepped⟩
  | handle response => exact ⟨cleaned,none,handle_message_inv inv stepped⟩
  | ack => exact ⟨cleaned,ktm_ack_sync_inv inv stepped⟩
  | copy_back who => exact ⟨cleaned,awake,first,copy_back_inv inv stepped⟩
  | acked => exact ⟨cleaned,acked_inv inv stepped⟩
  | clean => exact ⟨cleaned,awake,first,message_clean_inv inv stepped⟩
  | finish => exact ⟨cleaned + 1,none,finish_inv inv stepped⟩
  | give_up who => exact ⟨cleaned,awake,first,give_up_inv inv stepped⟩

omit [DecidableEq σ] in
/-- A new ring is empty, whatever the pool held. -/
theorem prepare_boot_inv {slot_buffer_size : Nat} {slots : Nat → y_message}
    (stepped : prepare (boot slot_buffer_size slots : System σ) = some st') : Inv st' := by
  obtain ⟨cleared,reset,zero⟩ := message_reset_all_spec slot_buffer_size slots
  have made : prepare (boot slot_buffer_size slots : System σ) = some { (boot slot_buffer_size slots : System σ) with
      ktm := { slot_buffer_size, slots := cleared, current_slot := some 0, waiting := [] }
      receiver := .waiting 0 } := by
    show (message_reset_all slot_buffer_size slots).map _ = _
    rw [reset]
    rfl
  obtain rfl := Option.some.inj (made.symm.trans stepped)
  have start (n : Nat) : startAt ([] : List (Sent σ)) n = 0 := by simp [startAt,startOf]
  refine ⟨0,none,0,?_,⟨?_,?_,?_,?_,?_,?_⟩,⟨?_,?_,?_,?_⟩,⟨?_,?_,?_,?_⟩,rfl,rfl,rfl,?_⟩
  · show some 0 = some (startAt [] 0 % _)
    rw [start,Nat.zero_mod]
  · show startAt [] 0 ≤ startAt [] 0 + _
    omega
  · intro x low high
    exact zero _ (Nat.mod_lt _ (slotCount_pos slot_buffer_size))
  · exact fun n s at_n => by cases at_n
  · exact fun n s at_n => by cases at_n
  · exact fun n s at_n => by cases at_n
  · exact fun n s j at_n => by cases at_n
  · exact fun n s at_n => by cases at_n
  · exact fun n done => by cases done
  · exact List.nodup_nil
  · exact fun n d at_n => by cases at_n
  · exact fun who => trivial
  · exact fun n s at_n => by cases at_n
  · exact fun w hw => by cases hw
  · exact List.Pairwise.nil
  · show 0 = startAt [] 0 % _
    rw [start,Nat.zero_mod]

theorem step_boot {slot_buffer_size : Nat} {slots : Nat → y_message} {e : Event σ}
    (stepped : step (boot slot_buffer_size slots) e = some st') : st' = boot slot_buffer_size slots ∨ Inv st' := by
  cases e with
  | prepare => exact Or.inr (prepare_boot_inv stepped)
  | send who what => exact Or.inl (Option.some.inj stepped).symm
  | fire | handle | ack | copy_back | acked | clean | finish | give_up => cases stepped

theorem run_inv {slot_buffer_size : Nat} {slots : Nat → y_message} {events : List (Event σ)} :
    ∀ {st : System σ}, st = boot slot_buffer_size slots ∨ Inv st → run st events = some st' →
      st' = boot slot_buffer_size slots ∨ Inv st' := by
  induction events with
  | nil =>
    intro st start reached
    obtain rfl := Option.some.inj reached
    exact start
  | cons e events ih =>
    intro st start reached
    rw [run] at reached
    obtain ⟨next,stepped,rest⟩ := Option.bind_eq_some_iff.1 reached
    apply ih _ rest
    rcases start with rfl | inv
    · exact step_boot stepped
    · exact Or.inr (step_inv inv stepped)

/-! ### Safety -/

/-- How many messages have been cleaned, the head last. -/
def cleanedOf (st : System σ) : Nat :=
  match st.receiver with
  | .absent => 0
  | .waiting _ => st.history.handed.length
  | _ => st.history.handed.length - 1

/-- The `n`th send is `s`, and it has not been cleaned. -/
def Live (st : System σ) (n : Nat) (s : Sent σ) : Prop := st.history.sends[n]? = some s ∧ cleanedOf st ≤ n

/-- The slots of a send. -/
def slotsOf (st : System σ) (s : Sent σ) : List Nat := slots_at st.ktm.slot_buffer_size s.dst (bodyOf s)

/-- The thread that takes the step, unless it is the receiver. -/
def Event.sender : Event σ → Option σ
  | .send who _ => some who
  | .fire who => some who
  | .copy_back who => some who
  | .give_up who => some who
  | _ => none

/-- The send a thread is at. -/
def Sender.number : Sender → Option Nat
  | .idle => none
  | .firing n _ _ => some n
  | .sleeping n _ => some n
  | .woken n _ => some n

/-- No message that is not cleaned shares a slot with another one or is written by a
    step of a sender that is not its own; `handle_message` has been called for the sends
    in their order, on their heads and with their contents; and where the receiver waits
    it finds a new message exactly when the next send has been fired. -/
structure RingSafe (st : System σ) : Prop where
  separate : ∀ n m s t, Live st n s → Live st m t → n ≠ m → (slotsOf st s).Disjoint (slotsOf st t)
  guarded : ∀ e who st', e.sender = some who → step st e = some st' → ∀ n s, Live st n s →
    (st.senders who).number = some n ∧ s.who_sent = who ∨ ∀ i ∈ slotsOf st s, st'.ktm.slots i = st.ktm.slots i
  fired_once : st.history.fired.Nodup
  handed : ∀ n d, st.history.handed[n]? = some d → n ∈ st.history.fired ∧ ∃ s, st.history.sends[n]? = some s ∧
    d = handedOf s
  waiting : ∀ cur, st.receiver = .waiting cur →
    (marked (st.ktm.slots cur).flags MSG_STATUS_NEW = true ↔ st.history.handed.length ∈ st.history.fired) ∧
    ∀ s, st.history.sends[st.history.handed.length]? = some s → cur = s.dst

omit [DecidableEq σ] in
theorem InvAt.cleaned_eq (inv : InvAt st cleaned awake first) : cleanedOf st = cleaned := by
  have stage := inv.stage
  rw [cleanedOf]
  cases receiver : st.receiver with
  | absent =>
    rw [receiver] at stage
    exact stage.elim
  | waiting cur =>
    rw [receiver] at stage
    exact stage.1
  | responding | spinning | cleaning =>
    rw [receiver] at stage
    show st.history.handed.length - 1 = cleaned
    rw [stage.1,Nat.add_sub_cancel]

omit [DecidableEq σ] in
theorem InvAt.mem_slotsOf {n i : Nat} {s : Sent σ} (inv : InvAt st cleaned awake first)
    (at_n : st.history.sends[n]? = some s) : i ∈ slotsOf st s ↔
      ∃ j ≤ bodyOf s, i = (startAt st.history.sends n + j) % slotCount st.ktm.slot_buffer_size := by
  rw [slotsOf,inv.recorded.heads n s at_n,slots_at_eq,List.mem_map]
  constructor
  · rintro ⟨j,hj,rfl⟩
    exact ⟨j,Nat.le_of_lt_succ (List.mem_range.1 hj),rfl⟩
  · rintro ⟨j,hj,rfl⟩
    exact ⟨j,List.mem_range.2 (Nat.lt_succ_of_le hj),rfl⟩

omit [DecidableEq σ] in
/-- Writing to the head of a message leaves the slots of the others. -/
theorem InvAt.head_write {n m : Nat} {s t : Sent σ} {new : y_message} (inv : InvAt st cleaned awake first)
    (at_n : st.history.sends[n]? = some s) (live_n : cleaned ≤ n) (at_m : st.history.sends[m]? = some t)
    (live_m : cleaned ≤ m) (apart : n ≠ m) :
    ∀ i ∈ slotsOf st s, Function.update st.ktm.slots t.dst new i = st.ktm.slots i := by
  intro i hi
  obtain ⟨j,hj,rfl⟩ := (inv.mem_slotsOf at_n).1 hi
  apply Function.update_of_ne
  rw [inv.recorded.heads m t at_m]
  have differ := place_ne inv.layout.room at_n at_m live_n live_m hj (Nat.zero_le _) (Or.inl apart)
  simpa using differ

theorem InvAt.guarded {e : Event σ} {who : σ} {n : Nat} {s : Sent σ} (inv : InvAt st cleaned awake first)
    (by_who : e.sender = some who) (stepped : step st e = some st') (at_n : st.history.sends[n]? = some s)
    (live : cleaned ≤ n) :
    (st.senders who).number = some n ∧ s.who_sent = who ∨ ∀ i ∈ slotsOf st s, st'.ktm.slots i = st.ktm.slots i := by
  have acts := inv.crowd.acts who
  cases step_moves stepped with
  | prepare | handle | unawaited | ack | acked | clean | finish => cases by_who
  | full => exact Or.inr (fun i hi => rfl)
  | send idle sent =>
    right
    obtain ⟨found,rfl,rfl⟩ := send_some inv.current sent
    intro i hi
    obtain ⟨j,hj,rfl⟩ := (inv.mem_slotsOf at_n).1 hi
    have order := inv.order
    have roomy := inv.layout.found_room (by omega) found (by omega)
    exact placed_outside (fun k hk => free_ne inv.layout.room at_n live hj (by omega) (by omega))
  | fire firing =>
    rename_i m dst what
    obtain rfl := Option.some.inj by_who
    rw [firing] at acts
    obtain ⟨unfired,t,at_m,rfl,rfl,rfl⟩ := acts
    by_cases same : n = m
    · obtain rfl : s = t := Option.some.inj (by rw [← at_n,← at_m,same])
      rw [firing,same]
      exact Or.inl ⟨rfl,rfl⟩
    · have unhanded := inv.recorded.unhanded unfired
      have order := inv.order
      exact Or.inr (inv.head_write at_n live at_m (by omega) same)
  | copy_back woken =>
    rename_i m sent
    obtain rfl := Option.some.inj by_who
    obtain ⟨rfl,_,_,t,at_m,rfl,rfl⟩ := inv.spinning_of_woken woken
    by_cases same : n = m
    · obtain rfl : s = t := Option.some.inj (by rw [← at_n,← at_m,same])
      rw [woken,same]
      exact Or.inl ⟨rfl,rfl⟩
    · exact Or.inr (inv.head_write at_n live at_m (Nat.le_refl _) same)
  | give_up => exact Or.inr (fun i hi => rfl)

theorem InvAt.safe (inv : InvAt st cleaned awake first) : RingSafe st := by
  refine ⟨?_,?_,inv.recorded.fired_once,inv.recorded.delivered,?_⟩
  · rintro n m s t ⟨at_n,live_n⟩ ⟨at_m,live_m⟩ apart i in_s in_t
    rw [inv.cleaned_eq] at live_n live_m
    obtain ⟨j,hj,rfl⟩ := (inv.mem_slotsOf at_n).1 in_s
    obtain ⟨k,hk,same⟩ := (inv.mem_slotsOf at_m).1 in_t
    exact place_ne inv.layout.room at_n at_m live_n live_m hj hk (Or.inl apart) same
  · rintro e who st' by_who stepped n s ⟨at_n,live⟩
    rw [inv.cleaned_eq] at live
    exact inv.guarded by_who stepped at_n live
  · intro cur receiver
    have stage := inv.stage
    rw [receiver] at stage
    obtain ⟨given,_,_,place⟩ := stage
    rw [given]
    refine ⟨⟨?_,?_⟩,?_⟩
    · intro new
      obtain ⟨_,_,done,_⟩ := inv.oldest_of_new receiver new
      exact done
    · intro done
      have at_c := List.getElem?_eq_getElem (inv.recorded.fired_bound _ done)
      rw [place,inv.layout.loud cleaned _ at_c (by omega) done,new_firedHead]
    · intro s at_c
      rw [place,inv.recorded.heads cleaned s at_c]

/-! ### Delivery -/

/-- The steps the receiver takes by itself. -/
def Event.receives : Event σ → Bool
  | .handle _ => true
  | .ack => true
  | .acked => true
  | .clean => true
  | .finish => true
  | _ => false

/-- The receiver can take a step, at once or as soon as a sender has copied back. -/
def CanProceed (st : System σ) : Prop :=
  (∃ e : Event σ, e.receives = true ∧ (step st e).isSome) ∨
  ∃ who st' e, step st (.copy_back who) = some st' ∧ e.receives = true ∧ (step st' e).isSome

/-- The steps the receiver still has to take for the message at hand. -/
def Receiver.work : Receiver → Nat
  | .absent => 0
  | .waiting _ => 0
  | .responding _ count => add_msg_count count + 3
  | .spinning _ count => add_msg_count count + 2
  | .cleaning _ _ left => left + 1

/-- The steps the receiver takes for the first `n` sends of a run. -/
def workFor (sends : List (Sent σ)) (n : Nat) : Nat := startOf (fun s => bodyOf s + 4) sends n

/-- The steps of the receiver up to its call for the `n`th send. -/
def workLeft (st : System σ) (n : Nat) : Nat :=
  st.receiver.work + (workFor st.history.sends (n + 1) - workFor st.history.sends st.history.handed.length)

def receiverSteps (events : List (Event σ)) : Nat := events.countP Event.receives

/-- A send that has been reserved can be fired; and once a send has been fired with all
    before it, the receiver is never stuck before it is given that send, and takes a
    bounded number of steps until then, whatever the senders do in between. -/
structure RingLive (st : System σ) : Prop where
  fireable : ∀ n s, st.history.sends[n]? = some s → n ∉ st.history.fired → (step st (.fire s.who_sent)).isSome
  given : ∀ n, (∀ m ≤ n, m ∈ st.history.fired) → ∀ more st', run st more = some st' →
    n < st'.history.handed.length ∨ workLeft st' n + receiverSteps more ≤ workLeft st n ∧ CanProceed st'

theorem InvAt.fireable {n : Nat} {s : Sent σ} (inv : InvAt st cleaned awake first)
    (at_n : st.history.sends[n]? = some s) (unfired : n ∉ st.history.fired) : (step st (.fire s.who_sent)).isSome := by
  rw [step,fire_head,inv.crowd.unfired n s at_n unfired]
  rfl

/-- While the next send has been fired the receiver is not stuck. -/
theorem InvAt.can_proceed (inv : InvAt st cleaned awake first) (next : st.history.handed.length ∈ st.history.fired) :
    CanProceed st := by
  have stage := inv.stage
  cases receiver : st.receiver with
  | absent =>
    rw [receiver] at stage
    exact stage.elim
  | waiting cur =>
    have new := (inv.safe.waiting cur receiver).1.2 next
    refine Or.inl ⟨.handle st.ktm.slots,rfl,?_⟩
    rw [step,handle_message,receiver]
    dsimp only
    rw [if_neg (by rw [new]; simp)]
    rfl
  | responding what count =>
    refine Or.inl ⟨.ack,rfl,?_⟩
    rw [step,ktm_ack_sync,receiver]
    dsimp only
    split <;> rfl
  | spinning what count =>
    rw [receiver] at stage
    obtain ⟨_,_,_,_,new,_⟩ := stage
    by_cases busy : marked (st.ktm.slots what).flags MSG_STATUS_NEW = true
    · obtain ⟨who,n,sent,woken⟩ := new.1 busy
      obtain ⟨_,count',same,_⟩ := inv.spinning_of_woken woken
      obtain ⟨rfl,rfl⟩ : what = sent ∧ count = count' := by
        rw [receiver] at same
        injection same with h₁ h₂
        exact ⟨h₁,h₂⟩
      refine Or.inr ⟨who,_,.acked,by rw [step,copy_back,woken],rfl,?_⟩
      rw [step,acked,receiver]
      dsimp only
      rw [if_neg]
      · rfl
      · rw [clear_new,Function.update_self,new_after_clear_new]
        decide
    · refine Or.inl ⟨.acked,rfl,?_⟩
      rw [step,acked,receiver]
      dsimp only
      rw [if_neg busy]
      rfl
  | cleaning what cur left =>
    cases left with
    | zero =>
      refine Or.inl ⟨.finish,rfl,?_⟩
      rw [step,finish,receiver]
      rfl
    | succ left =>
      refine Or.inl ⟨.clean,rfl,?_⟩
      rw [step,message_clean,receiver]
      rfl

/-- What a step does to the history and to the work of the receiver: it is given the
    next send, or it comes nearer to the end of the one at hand. -/
def Works (st : System σ) (e : Event σ) (st' : System σ) : Prop :=
  (∃ more, st'.history.sends = st.history.sends ++ more) ∧ st.history.fired ⊆ st'.history.fired ∧
  (st'.receiver.work + (if e.receives then 1 else 0) ≤ st.receiver.work ∧
      st'.history.handed.length = st.history.handed.length ∨
    st'.history.handed.length = st.history.handed.length + 1 ∧ ∃ s, st.history.sends[st.history.handed.length]? = some s ∧
      st'.receiver.work + 1 ≤ bodyOf s + 4 ∧ e.receives = true)

omit [DecidableEq σ] in
theorem works_on {e : Event σ} (history : st'.history = st.history)
    (less : st'.receiver.work + (if e.receives then 1 else 0) ≤ st.receiver.work) : Works st e st' := by
  rw [Works,history]
  exact ⟨⟨[],(List.append_nil _).symm⟩,List.Subset.refl _,Or.inl ⟨less,rfl⟩⟩

/-- The handler is given the next send, with its body and the acknowledgement ahead. -/
theorem InvAt.handle_work {response : Nat → y_message} (inv : InvAt st cleaned awake first)
    (stepped : step st (.handle response) = some st') : Works st (.handle response) st' := by
  cases step_moves stepped with
  | handle receiver new counted sized =>
    subst counted sized
    have stage := inv.stage
    obtain ⟨s,at_c,_,rfl,head⟩ := inv.oldest_of_new receiver new
    rw [receiver] at stage
    refine ⟨⟨[],(List.append_nil _).symm⟩,List.Subset.refl _,Or.inr ⟨?_,s,?_,?_,rfl⟩⟩
    · rw [List.length_append,List.length_singleton]
    · rw [stage.1]
      exact at_c
    · have body : add_msg_count (st.ktm.slots s.dst).count.toNat = bodyOf s := by
        rw [head]
        rfl
      show Receiver.work (if _ then .responding s.dst (st.ktm.slots s.dst).count.toNat else
        .cleaning s.dst _ (add_msg_count (st.ktm.slots s.dst).count.toNat)) + 1 ≤ _
      split
      · show add_msg_count _ + 3 + 1 ≤ _
        omega
      · show add_msg_count _ + 1 + 1 ≤ _
        omega

theorem InvAt.step_work {e : Event σ} (inv : InvAt st cleaned awake first) (stepped : step st e = some st') :
    Works st e st' := by
  have stage := inv.stage
  cases step_moves stepped with
  | prepare absent reset =>
    rw [absent] at stage
    exact stage.elim
  | full idle refused => exact works_on rfl (Nat.le_refl _)
  | send idle sent => exact ⟨⟨_,rfl⟩,List.Subset.refl _,Or.inl ⟨Nat.le_refl _,rfl⟩⟩
  | fire firing =>
    exact ⟨⟨[],(List.append_nil _).symm⟩,List.subset_cons_self _ _,Or.inl ⟨Nat.le_refl _,rfl⟩⟩
  | handle => exact inv.handle_work stepped
  | unawaited receiver missing =>
    rename_i what count
    refine works_on rfl ?_
    rw [receiver]
    show add_msg_count count + 1 + 1 ≤ add_msg_count count + 3
    omega
  | ack receiver _ | acked receiver _ | clean receiver | finish receiver =>
    refine works_on rfl ?_
    rw [receiver]
    exact Nat.le_refl _
  | copy_back | give_up => exact works_on rfl (Nat.le_refl _)

/-- Every step of the receiver brings the `n`th send nearer. -/
theorem InvAt.step_workLeft {e : Event σ} {n : Nat} (inv : InvAt st cleaned awake first) (stepped : step st e = some st')
    (sent : n < st.history.sends.length) (later : st'.history.handed.length ≤ n) :
    workLeft st' n + (if e.receives then 1 else 0) ≤ workLeft st n := by
  obtain ⟨⟨more,sends⟩,_,work⟩ := inv.step_work stepped
  have handed := inv.recorded.handed_bound
  have same {k : Nat} (within : k ≤ st.history.sends.length) :
      workFor st'.history.sends k = workFor st.history.sends k := by
    rw [workFor,sends]
    exact startOf_append more within
  rw [workLeft,workLeft,same (by omega),same (by omega)]
  rcases work with ⟨less,equal⟩ | ⟨one_more,s,at_h,cost,receives⟩
  · rw [equal]
    omega
  · have next : workFor st.history.sends (st.history.handed.length + 1) =
        workFor st.history.sends st.history.handed.length + (bodyOf s + 4) := startOf_succ at_h
    have reach : workFor st.history.sends (st.history.handed.length + 1) ≤ workFor st.history.sends (n + 1) :=
      startOf_le (by omega)
    rw [one_more,receives,if_pos rfl]
    omega

theorem handed_grows {more : List (Event σ)} {n : Nat} : ∀ {st : System σ}, Inv st → n < st.history.handed.length →
    run st more = some st' → n < st'.history.handed.length := by
  induction more with
  | nil =>
    intro st _ given reached
    obtain rfl := Option.some.inj reached
    exact given
  | cons e more ih =>
    intro st inv given reached
    obtain ⟨next,stepped,rest⟩ := Option.bind_eq_some_iff.1 reached
    obtain ⟨cleaned,awake,first,inv_at⟩ := inv
    refine ih (step_inv ⟨cleaned,awake,first,inv_at⟩ stepped) ?_ rest
    rcases (inv_at.step_work stepped).2.2 with ⟨_,equal⟩ | ⟨one_more,_⟩ <;> omega

theorem run_given {more : List (Event σ)} {n : Nat} : ∀ {st : System σ}, Inv st → (∀ m ≤ n, m ∈ st.history.fired) →
    run st more = some st' →
    n < st'.history.handed.length ∨ workLeft st' n + receiverSteps more ≤ workLeft st n ∧ CanProceed st' := by
  induction more with
  | nil =>
    intro st inv fired reached
    obtain rfl := Option.some.inj reached
    rcases Nat.lt_or_ge n st.history.handed.length with given | waits
    · exact Or.inl given
    · obtain ⟨cleaned,awake,first,inv⟩ := inv
      exact Or.inr ⟨Nat.le_refl _,inv.can_proceed (fired _ waits)⟩
  | cons e more ih =>
    intro st inv fired reached
    obtain ⟨next,stepped,rest⟩ := Option.bind_eq_some_iff.1 reached
    have inv_next := step_inv inv stepped
    obtain ⟨cleaned,awake,first,inv_at⟩ := inv
    rcases ih inv_next (fun m hm => (inv_at.step_work stepped).2.1 (fired m hm)) rest with given | ⟨bound,proceed⟩
    · exact Or.inl given
    · rcases Nat.lt_or_ge n next.history.handed.length with given | waits
      · exact Or.inl (handed_grows inv_next given rest)
      · have less := inv_at.step_workLeft stepped (inv_at.recorded.fired_bound n (fired n (Nat.le_refl _))) waits
        refine Or.inr ⟨?_,proceed⟩
        rw [receiverSteps,List.countP_cons]
        rw [receiverSteps] at bound
        omega

/-- In every state a ring can reach, by any interleaving of its senders and its receiver,
    messages keep their slots to themselves, and the receiver is given every send that
    has been fired once, in the order of the reservations and on its head. -/
theorem run_ring_safe (slot_buffer_size : Nat) (slots : Nat → y_message) (events : List (Event σ)) (st : System σ)
    (reached : run (boot slot_buffer_size slots) events = some st) : RingSafe st ∧ RingLive st := by
  rcases run_inv (Or.inl rfl) reached with rfl | inv
  · refine ⟨⟨?_,?_,List.nodup_nil,?_,?_⟩,?_,?_⟩
    · rintro n m s t ⟨at_n,_⟩
      cases at_n
    · rintro e who st' _ _ n s ⟨at_n,_⟩
      cases at_n
    · intro n d at_n
      cases at_n
    · intro cur receiver
      cases receiver
    · intro n s at_n
      cases at_n
    · intro n fired
      exact absurd (fired n (Nat.le_refl _)) List.not_mem_nil
  · obtain ⟨cleaned,awake,first,inv_at⟩ := inv
    exact ⟨inv_at.safe,fun n s at_n unfired => inv_at.fireable at_n unfired,
      fun n fired more st' rest => run_given ⟨cleaned,awake,first,inv_at⟩ fired rest⟩

end Reached
end Runs

/-- Two senders in a ring of four slots, of which the second fires first. -/
private def twoSenders : List (Event Bool) :=
  [.prepare,.send false (fun _ => { count := 2#16, flags := 0#16, what := 5#32 }),
    .send true (fun _ => { count := 1#16, flags := 0#16, what := 6#32 }),.fire true,.fire false,
    .handle (fun _ => { count := 0#16, flags := 0#16, what := 0#32 })]

theorem run_ring_safe_two_senders : ∃ st : System Bool,
    run (boot 32 (fun _ => { count := 0#16, flags := 0x8787#16, what := 0#32 })) twoSenders = some st ∧
    st.history.fired = [0,1] ∧ st.history.handed.map Handed.cur = [0] ∧ RingSafe st ∧ RingLive st := by
  obtain ⟨st,reached,fired,handed⟩ : ∃ st : System Bool,
      run (boot 32 (fun _ => { count := 0#16, flags := 0x8787#16, what := 0#32 })) twoSenders = some st ∧
      st.history.fired = [0,1] ∧ st.history.handed.map Handed.cur = [0] := ⟨_,rfl,rfl,rfl⟩
  exact ⟨st,reached,fired,handed,run_ring_safe _ _ _ st reached⟩

end GridOS.Msg
