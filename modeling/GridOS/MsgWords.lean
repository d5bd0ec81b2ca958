import GridOS.MsgRuns

/-!
The words of a message: `y_message_read` and `y_message_writeback` of `source/libs/grid/sys/process.c`
and the way back in `ktm_send` of `source/kernel/process/msg.c`. A slot is two words, and the receiver
walks the ring word by word where the kernel copies whole slots. A word is named by how many words are
in front of it.
-/
namespace GridOS.Msg
open GridOS.Ring

/-! ### The code -/

/-- `MSG_DATA_TYPE`. -/
abbrev Word := BitVec 32

/-- The two words of a slot: the flags above the count, and `what`. -/
def word (slot : y_message) (half : Nat) : Word := if half = 0 then slot.flags ++ slot.count else slot.what

/-- Writing one of the words of a slot. -/
def put_word (slot : y_message) (half : Nat) (data : Word) : y_message :=
  if half = 0 then { slot with count := data.extractLsb' 0 16, flags := data.extractLsb' 16 16 }
  else { slot with what := data }

/-- `*cur`. -/
def load (slots : Nat → y_message) (cur : Nat) : Word := word (slots (cur / 2)) (cur % 2)

/-- `*cur = data`. -/
def store (slots : Nat → y_message) (cur : Nat) (data : Word) : Nat → y_message :=
  Function.update slots (cur / 2) (put_word (slots (cur / 2)) (cur % 2) data)

/-- `MSG_GET_NEXT_DATA`. -/
def next_data (slot_buffer_size cur : Nat) : Nat := if slot_buffer_size ≤ (cur + 1) * 4 then 0 else cur + 1

/-- `MSG_DATA_START`. -/
def data_start (slot_buffer_size what : Nat) : Nat := 2 * next_slot slot_buffer_size what

/-- The loop of `y_message_read`. -/
def read_words (slot_buffer_size : Nat) (slots : Nat → y_message) : Nat → Nat → List Word
  | 0, _ => []
  | n+1, cur => load slots cur :: read_words slot_buffer_size slots n (next_data slot_buffer_size cur)

/-- The words that `y_message_read` stores for its caller. -/
def y_message_read (slot_buffer_size : Nat) (slots : Nat → y_message) (what : Nat) : List Word :=
  read_words slot_buffer_size slots (slots what).count.toNat (data_start slot_buffer_size what)

/-- The loop of `y_message_writeback`. -/
def write_words (slot_buffer_size : Nat) : List Word → Nat → (Nat → y_message) → Nat → y_message
  | [], _, slots => slots
  | data :: rest, cur, slots =>
    write_words slot_buffer_size rest (next_data slot_buffer_size cur) (store slots cur data)

/-- `y_message_writeback`, and what it returns. -/
def y_message_writeback (slot_buffer_size : Nat) (slots : Nat → y_message) (what : Nat) (wb_list : List Word) :
    (Nat → y_message) × Int :=
  if wb_list.length > (slots what).count.toNat then (slots,-1) else
  (write_words slot_buffer_size wb_list (data_start slot_buffer_size what) slots,wb_list.length)

/-- The loop of `ktm_send` that copies the body of the response to the slots behind `dst`. -/
def copy_response (slot_buffer_size : Nat) (slots : Nat → y_message) :
    Nat → Nat → Nat → (Nat → y_message) → Nat → y_message
  | 0, _, _, what => what
  | n+1, src, dst, what =>
    let src := next_slot slot_buffer_size src
    copy_response slot_buffer_size slots n src (dst + 1) (Function.update what (dst + 1) (slots src))

/-- The message of the sender when `ktm_send` has copied the response back. -/
def copied_back (slot_buffer_size : Nat) (slots : Nat → y_message) (sent : Nat) (what : Nat → y_message) :
    Nat → y_message :=
  let response_count := min (add_msg_count (slots sent).count.toNat) (add_msg_count (what 0).count.toNat)
  Function.update (copy_response slot_buffer_size slots response_count sent 0 what) 0 (slots sent)

/-- The words that follow the head of a message in the memory of its sender. -/
def body_words (what : Nat → y_message) (count : Nat) : List Word :=
  (List.range count).map (fun i => load what (2 + i))

/-! ### Words and slots -/

theorem word_put_word (slot : y_message) {half other : Nat} (data : Word) (first : half < 2) (second : other < 2) :
    word (put_word slot half data) other = if other = half then data else word slot other := by
  obtain rfl | rfl : half = 0 ∨ half = 1 := by omega
  · obtain rfl | rfl : other = 0 ∨ other = 1 := by omega
    · rw [if_pos rfl,word,put_word,if_pos rfl,if_pos rfl]
      exact @BitVec.extractLsb'_append_extractLsb' 16 16 data
    · simp [word,put_word]
  · obtain rfl | rfl : other = 0 ∨ other = 1 := by omega
    · simp [word,put_word]
    · simp [word,put_word]

/-- Seen as words the slots are one memory. -/
theorem load_store (slots : Nat → y_message) (cur : Nat) (data : Word) :
    load (store slots cur data) = Function.update (load slots) cur data := by
  funext other
  have first := Nat.mod_lt cur (show 0 < 2 by decide)
  have second := Nat.mod_lt other (show 0 < 2 by decide)
  by_cases slot : other / 2 = cur / 2
  · rw [load,store,slot,Function.update_self,word_put_word _ _ first second]
    by_cases same : other = cur
    · rw [same,if_pos rfl,Function.update_self]
    · rw [if_neg (by omega),Function.update_of_ne same,load,slot]
  · have apart : other ≠ cur := fun same => slot (by rw [same])
    rw [load,store,Function.update_of_ne slot,Function.update_of_ne apart,load]

theorem slot_ext {slot slot' : y_message} (first : word slot 0 = word slot' 0) (second : word slot 1 = word slot' 1) :
    slot = slot' := by
  obtain ⟨count,flags,what⟩ := slot
  obtain ⟨count',flags',what'⟩ := slot'
  have low : count = count' := by
    rw [← BitVec.extractLsb'_append_eq_right (a := flags) (b := count)]
    rw [← BitVec.extractLsb'_append_eq_right (a := flags') (b := count')]
    exact congrArg (BitVec.extractLsb' 0 16) first
  have high : flags = flags' := by
    rw [← BitVec.extractLsb'_append_eq_left (a := flags) (b := count)]
    rw [← BitVec.extractLsb'_append_eq_left (a := flags') (b := count')]
    exact congrArg (BitVec.extractLsb' 16 16) first
  have rest : what = what' := second
  rw [low,high,rest]

/-! ### The ring of words -/

section Walk
variable {slot_buffer_size : Nat} (whole : message_size ∣ slot_buffer_size) (some_slot : 0 < slot_buffer_size)

/-- The words of the ring. -/
def wordCount (slot_buffer_size : Nat) : Nat := 2 * slotCount slot_buffer_size

/-- The slot and the half of a word behind the head at `a`. -/
theorem word_place (slots : Nat → y_message) (a i : Nat) :
    load slots ((2 * (a + 1) + i) % wordCount slot_buffer_size) =
      word (slots ((a + 1 + i / 2) % slotCount slot_buffer_size)) (i % 2) := by
  have slot : (2 * (a + 1) + i) / 2 = a + 1 + i / 2 := by omega
  have half : (2 * (a + 1) + i) % 2 = i % 2 := by omega
  rw [load,wordCount,Nat.mod_mul_right_div_self,Nat.mod_mul_right_mod,slot,half]

theorem data_start_eq (a : Nat) : data_start slot_buffer_size (a % slotCount slot_buffer_size) =
    (2 * (a + 1)) % wordCount slot_buffer_size := by
  rw [data_start,next_slot_round,wordCount,Nat.mul_mod_mul_left]

include whole some_slot

/-- Where slots end words do. -/
theorem next_data_round (x : Nat) : next_data slot_buffer_size (x % wordCount slot_buffer_size) =
    (x + 1) % wordCount slot_buffer_size := by
  obtain ⟨n,rfl⟩ := whole
  have words : wordCount (message_size * n) = 2 * n := by
    simp only [wordCount,slotCount,message_size] at *
    omega
  rw [words,← succ_mod (by simp only [message_size] at some_slot; omega) x,next_data]
  generalize x % (2 * n) = y
  exact if_congr (by simp only [message_size]; omega) rfl rfl

theorem read_words_eq (slots : Nat → y_message) (n b : Nat) :
    read_words slot_buffer_size slots n (b % wordCount slot_buffer_size) =
      (List.range n).map (fun i => load slots ((b + i) % wordCount slot_buffer_size)) := by
  induction n generalizing b with
  | zero => rfl
  | succ n ih =>
    rw [read_words,next_data_round whole some_slot,ih,List.range_succ_eq_map,List.map_cons,List.map_map,Nat.add_zero]
    congr 1
    apply List.map_congr_left
    intro i _
    exact congrArg (load slots) (add_mod_succ _ b i)

omit whole some_slot in
/-- Seen as words, the loop of `y_message_writeback` writes one cell after the other. -/
theorem load_write_words (slot_buffer_size : Nat) (full : List Word) (i cur : Nat) (slots : Nat → y_message) :
    load (write_words slot_buffer_size (full.drop i) cur slots) =
      (sweep (next_data slot_buffer_size) (fun k _ => full.getD k 0) (full.length - i) i cur (load slots)).1 := by
  induction left : full.length - i generalizing i cur slots with
  | zero =>
    rw [List.drop_eq_nil_of_le (by omega)]
    rfl
  | succ n ih =>
    have inside : i < full.length := by omega
    have value : full.getD i 0 = full[i] := by simp [inside]
    rw [List.drop_eq_getElem_cons inside,write_words,ih (i + 1) _ _ (by omega),load_store,sweep,value]

/-- The words of the ring after the writing. -/
theorem written_word {data : List Word} {n b i : Nat} (slots : Nat → y_message) (short : data.length ≤ n)
    (fits : n ≤ wordCount slot_buffer_size) (inside : i < n) :
    load (write_words slot_buffer_size data (b % wordCount slot_buffer_size) slots) ((b + i) % wordCount slot_buffer_size) =
      if i < data.length then data.getD i 0 else load slots ((b + i) % wordCount slot_buffer_size) := by
  have round := next_data_round whole some_slot
  have words := load_write_words slot_buffer_size data 0 (b % wordCount slot_buffer_size) slots
  rw [List.drop_zero,Nat.sub_zero] at words
  rw [words]
  split
  · next written =>
    rw [sweep_inside round (Nat.le_trans short fits) written,Nat.zero_add]
  · next kept =>
    rw [sweep_outside round]
    intro j within same
    have := window_injective b (by omega) (by omega) (by omega) (by omega) same
    omega

/-- The words of the head are written by nobody. -/
theorem written_head (data : List Word) (slots : Nat → y_message) (a : Nat)
    (fits : data.length + 2 ≤ wordCount slot_buffer_size) :
    write_words slot_buffer_size data (data_start slot_buffer_size (a % slotCount slot_buffer_size)) slots
      (a % slotCount slot_buffer_size) = slots (a % slotCount slot_buffer_size) := by
  have same : ∀ half < 2, ∀ slots : Nat → y_message,
      word (slots (a % slotCount slot_buffer_size)) half =
        load slots ((2 * (a + 1) + (wordCount slot_buffer_size - 2 + half)) % wordCount slot_buffer_size) := by
    intro half small slots
    have round : a + 1 + (wordCount slot_buffer_size - 2 + half) / 2 = a + slotCount slot_buffer_size := by
      simp only [wordCount] at *
      omega
    have odd : (wordCount slot_buffer_size - 2 + half) % 2 = half := by
      simp only [wordCount] at *
      omega
    rw [word_place,round,odd,Nat.add_mod_right]
  have kept : ∀ half < 2, word (write_words slot_buffer_size data (data_start slot_buffer_size
      (a % slotCount slot_buffer_size)) slots (a % slotCount slot_buffer_size)) half =
        word (slots (a % slotCount slot_buffer_size)) half := by
    intro half small
    rw [same half small,same half small,data_start_eq,
      written_word whole some_slot slots (by omega) (Nat.le_refl (wordCount slot_buffer_size))
        (by omega),if_neg (by omega)]
  exact slot_ext (kept 0 (by decide)) (kept 1 (by decide))

end Walk

/-! ### Messages -/

section Messages
variable {slot_buffer_size : Nat} (a : Nat) (slots : Nat → y_message) {what : Nat → y_message}

/-- The slots of `count` words. -/
theorem inside_body {i count : Nat} (inside : i < count) : 1 + i / 2 ≤ add_msg_count count := by
  simp only [add_msg_count,message_size]
  omega

theorem words_fit {count : Nat} (fits : add_msg_count count + 1 ≤ slotCount slot_buffer_size) :
    count + 2 ≤ wordCount slot_buffer_size := by
  simp only [wordCount,add_msg_count,message_size] at *
  omega

theorem body_words_eq (what : Nat → y_message) (count : Nat) :
    body_words what count = (List.range count).map (fun i => word (what (1 + i / 2)) (i % 2)) := by
  apply List.map_congr_left
  intro i _
  have slot : (2 + i) / 2 = 1 + i / 2 := by omega
  have half : (2 + i) % 2 = i % 2 := by omega
  rw [load,slot,half]

/-- Messages with the same slots have the same words. -/
theorem body_words_congr {what' : Nat → y_message} {count : Nat}
    (same : ∀ j, 1 ≤ j → j ≤ add_msg_count count → what j = what' j) : body_words what count = body_words what' count := by
  rw [body_words_eq,body_words_eq]
  apply List.map_congr_left
  intro i inside
  rw [same (1 + i / 2) (by omega) (inside_body (List.mem_range.mp inside))]

/-- The receiver reads the words that are in the slots behind the head. -/
theorem y_message_read_eq (whole : message_size ∣ slot_buffer_size) (some_slot : 0 < slot_buffer_size) :
    y_message_read slot_buffer_size slots (a % slotCount slot_buffer_size) =
      body_words (fun j => slots ((a + j) % slotCount slot_buffer_size))
        (slots (a % slotCount slot_buffer_size)).count.toNat := by
  rw [y_message_read,data_start_eq,read_words_eq whole some_slot,body_words_eq]
  apply List.map_congr_left
  intro i _
  rw [word_place,Nat.add_assoc]

/-- The words behind the head after `y_message_writeback`: the first ones are those written. -/
theorem writeback_words {data : List Word} {count : Nat} (whole : message_size ∣ slot_buffer_size)
    (some_slot : 0 < slot_buffer_size) (fits : add_msg_count count + 1 ≤ slotCount slot_buffer_size)
    (short : data.length ≤ count) :
    body_words (fun j => write_words slot_buffer_size data (data_start slot_buffer_size (a % slotCount slot_buffer_size))
        slots ((a + j) % slotCount slot_buffer_size)) count =
      data ++ (body_words (fun j => slots ((a + j) % slotCount slot_buffer_size)) count).drop data.length := by
  have room := words_fit fits
  have words : ∀ slots : Nat → y_message, body_words (fun j => slots ((a + j) % slotCount slot_buffer_size)) count =
      (List.range count).map (fun i => load slots ((2 * (a + 1) + i) % wordCount slot_buffer_size)) := by
    intro slots
    rw [body_words_eq]
    apply List.map_congr_left
    intro i _
    rw [word_place,Nat.add_assoc]
  rw [words,words,data_start_eq]
  apply List.ext_getElem
  · simp
    omega
  · intro i first second
    have inside : i < count := by simpa using first
    rw [List.getElem_map,List.getElem_range,written_word whole some_slot slots short (by omega) inside]
    by_cases early : i < data.length
    · rw [if_pos early,List.getElem_append_left early]
      simp [early]
    · have later : data.length + (i - data.length) = i := by omega
      rw [if_neg early,List.getElem_append_right (by omega),List.getElem_drop,List.getElem_map,List.getElem_range,later]

/-- The slots that the loop of `ktm_send` has copied. -/
theorem copy_response_eq (n dst : Nat) (j : Nat) :
    copy_response slot_buffer_size slots n (a % slotCount slot_buffer_size) dst what j =
      if dst < j ∧ j ≤ dst + n then slots ((a + (j - dst)) % slotCount slot_buffer_size) else what j := by
  induction n generalizing a dst what with
  | zero => rw [copy_response,if_neg (by omega)]
  | succ n ih =>
    rw [copy_response,next_slot_round,ih]
    by_cases here : j = dst + 1
    · subst here
      rw [if_neg (by omega),if_pos (by omega),Function.update_self,Nat.add_sub_cancel_left]
    · rw [Function.update_of_ne here]
      by_cases inside : dst < j ∧ j ≤ dst + (n + 1)
      · rw [if_pos inside,if_pos (by omega)]
        congr 2
        omega
      · rw [if_neg inside,if_neg (by omega)]

/-- The words that the sender sees are those in the slots behind the head. -/
theorem copied_back_words {count : Nat} (what : Nat → y_message) (head : (slots (a % slotCount slot_buffer_size)).count.toNat = count)
    (asked : (what 0).count.toNat = count) :
    body_words (copied_back slot_buffer_size slots (a % slotCount slot_buffer_size) what) count =
      body_words (fun j => slots ((a + j) % slotCount slot_buffer_size)) count := by
  apply body_words_congr
  intro j positive inside
  rw [copied_back,head,asked,Nat.min_self,Function.update_of_ne (by omega),copy_response_eq,if_pos (by omega),Nat.sub_zero]

/-- The handler writes the count of the head and the slots behind it. -/
theorem respond_count {count : Nat} (response : Nat → y_message) (fits : count + 1 ≤ slotCount slot_buffer_size) :
    (respond slot_buffer_size slots (a % slotCount slot_buffer_size) count response
      (a % slotCount slot_buffer_size)).count = (response 0).count := by
  rw [respond,copy_body_outside,Function.update_self]
  intro j positive inside same
  have equal := window_injective a (by omega) (by omega) (Nat.le_refl _) (by omega) same
  omega

theorem respond_inside {count j : Nat} (response : Nat → y_message) (fits : count + 1 ≤ slotCount slot_buffer_size)
    (positive : 1 ≤ j) (inside : j ≤ count) :
    respond slot_buffer_size slots (a % slotCount slot_buffer_size) count response
      ((a + j) % slotCount slot_buffer_size) = response j := by
  rw [respond,copy_body_inside (by omega) positive inside]

end Messages

/-! ### Runs -/

section Runs
variable {σ : Type} [DecidableEq σ] {st st' : System σ} {s : Sent σ} {n : Nat} {response : Nat → y_message}

/-- The receiver has called the handler of a synchronous message, whose sender has not finished. -/
def Receiver.answering : Receiver → Prop
  | .responding _ _ => True
  | .spinning _ _ => True
  | _ => False

/-- The `n`th message was answered with the response, which is in the ring as long as the sender may read it. -/
structure Answered (slot_buffer_size : Nat) (s : Sent σ) (n : Nat) (response : Nat → y_message) (st : System σ) : Prop where
  inv : Inv st
  size : st.ktm.slot_buffer_size = slot_buffer_size
  there : st.history.sends[n]? = some s
  given : n < st.history.handed.length
  answer : st.history.handed.length = n + 1 → st.receiver.answering → (st.ktm.slots s.dst).count = (response 0).count ∧
    ∀ j, 1 ≤ j → j ≤ bodyOf s → st.ktm.slots ((s.dst + j) % slotCount slot_buffer_size) = response j

omit [DecidableEq σ] in
theorem send_size {ktm ktm' : Ktm σ} {what : Nat → y_message} {wait : Option σ} {dst : Nat}
    (sent : send ktm what wait = some (ktm',dst)) : ktm'.slot_buffer_size = ktm.slot_buffer_size := by
  rw [send] at sent
  dsimp only at sent
  split at sent
  · cases sent
  · split at sent
    · cases sent
    · obtain ⟨rfl,_⟩ := Prod.mk.inj (Option.some.inj sent)
      rfl

/-- What the steps of the senders leave. -/
theorem sender_step {e : Event σ} {who : σ} (by_who : e.sender = some who) (stepped : step st e = some st') :
    st'.receiver = st.receiver ∧ st'.history.handed = st.history.handed ∧
      st'.ktm.slot_buffer_size = st.ktm.slot_buffer_size ∧ ∃ more, st'.history.sends = st.history.sends ++ more := by
  cases step_moves stepped with
  | prepare | handle | unawaited | ack | acked | clean | finish => cases by_who
  | send idle sent => exact ⟨rfl,rfl,send_size sent,_,rfl⟩
  | full | fire | copy_back | give_up => exact ⟨rfl,rfl,rfl,[],by simp⟩

omit [DecidableEq σ] in
/-- The head of a message is where its slots begin. -/
theorem InvAt.dst_eq {cleaned first : Nat} {awake : Option Nat} (inv : InvAt st cleaned awake first)
    (at_n : st.history.sends[n]? = some s) : s.dst % slotCount st.ktm.slot_buffer_size = s.dst := by
  rw [inv.recorded.heads n s at_n]
  exact Nat.mod_mod _ _

omit [DecidableEq σ] in
theorem InvAt.mem_places {cleaned first : Nat} {awake : Option Nat} (inv : InvAt st cleaned awake first)
    (at_n : st.history.sends[n]? = some s) {j : Nat} (inside : j ≤ bodyOf s) :
    (s.dst + j) % slotCount st.ktm.slot_buffer_size ∈ slotsOf st s := by
  rw [inv.mem_slotsOf at_n]
  exact ⟨j,inside,by rw [inv.recorded.heads n s at_n,Nat.mod_add_mod]⟩

/-- A step of a sender leaves the count and the body of a message that was handed over. -/
theorem InvAt.sender_slots {cleaned first : Nat} {awake : Option Nat} {e : Event σ} {who : σ}
    (inv : InvAt st cleaned awake first) (by_who : e.sender = some who) (stepped : step st e = some st')
    (at_n : st.history.sends[n]? = some s) (live : cleaned ≤ n) (given : n < st.history.handed.length) :
    (st'.ktm.slots s.dst).count = (st.ktm.slots s.dst).count ∧ ∀ j, 1 ≤ j → j ≤ bodyOf s →
      st'.ktm.slots ((s.dst + j) % slotCount st.ktm.slot_buffer_size) =
        st.ktm.slots ((s.dst + j) % slotCount st.ktm.slot_buffer_size) := by
  have acts := inv.crowd.acts who
  rcases inv.guarded by_who stepped at_n live with ⟨own,rfl⟩ | kept
  · cases step_moves stepped with
    | prepare | handle | unawaited | ack | acked | clean | finish => cases by_who
    | full idle _ | send idle _ =>
      obtain rfl := Option.some.inj by_who
      rw [idle] at own
      cases own
    | fire firing =>
      obtain rfl := Option.some.inj by_who
      rw [firing] at own acts
      obtain rfl := Option.some.inj own
      exact absurd (inv.recorded.handed_fired given) acts.1
    | copy_back woken =>
      rename_i m sent
      obtain rfl := Option.some.inj by_who
      rw [woken] at acts own
      obtain rfl := Option.some.inj own
      obtain ⟨_,t,at_m,_,rfl⟩ := acts
      obtain rfl : s = t := Option.some.inj (at_n.symm.trans at_m)
      refine ⟨by simp [clear_new],fun j positive inside => Function.update_of_ne ?_ ..⟩
      intro same
      have places := place_ne inv.layout.room at_n at_n live live inside (Nat.zero_le _) (.inr (by omega))
      apply places
      rw [← Nat.mod_add_mod,← inv.recorded.heads m s at_n,same,Nat.add_zero,inv.recorded.heads m s at_n]
    | give_up => exact ⟨rfl,fun _ _ _ => rfl⟩
  · have head := inv.mem_places at_n (Nat.zero_le (bodyOf s))
    rw [Nat.add_zero,inv.dst_eq at_n] at head
    exact ⟨by rw [kept _ head],fun j _ inside => kept _ (inv.mem_places at_n inside)⟩

omit [DecidableEq σ] in
theorem Inv.looping (inv : Inv st) : st.receiver ≠ .absent := by
  obtain ⟨cleaned,awake,first,inv⟩ := inv
  intro absent
  have stage := inv.stage
  rw [absent] at stage
  exact stage.elim

/-- What the steps of the receiver do while it answers. -/
theorem receiver_step {e : Event σ} (looping : st.receiver ≠ .absent) (by_nobody : e.sender = none)
    (stepped : step st e = some st') :
    st'.history.sends = st.history.sends ∧ st'.ktm.slot_buffer_size = st.ktm.slot_buffer_size ∧
      st.history.handed.length ≤ st'.history.handed.length ∧
      (¬st'.receiver.answering ∨ st.history.handed.length < st'.history.handed.length ∨
        (st.receiver.answering ∧ st'.ktm.slots = st.ktm.slots)) := by
  cases step_moves stepped with
  | full | send | fire | copy_back | give_up => cases by_nobody
  | prepare absent _ => exact absurd absent looping
  | handle => exact ⟨rfl,rfl,by simp,.inr (.inl (by simp))⟩
  | ack receiver found => exact ⟨rfl,rfl,Nat.le_refl _,.inr (.inr ⟨by rw [receiver]; trivial,rfl⟩)⟩
  | unawaited | acked | clean | finish => exact ⟨rfl,rfl,Nat.le_refl _,.inl id⟩

omit [DecidableEq σ] in
/-- The message that is being answered is the oldest one. -/
theorem InvAt.answering_cleaned {cleaned first : Nat} {awake : Option Nat} (inv : InvAt st cleaned awake first)
    (answering : st.receiver.answering) : st.history.handed.length = cleaned + 1 := by
  have stage := inv.stage
  cases receiver : st.receiver with
  | responding what count =>
    rw [receiver] at stage
    exact stage.1
  | spinning what count =>
    rw [receiver] at stage
    exact stage.1
  | absent | waiting | cleaning =>
    rw [receiver] at answering
    exact answering.elim

theorem Answered.step {e : Event σ} {slot_buffer_size : Nat} (answered : Answered slot_buffer_size s n response st)
    (stepped : Msg.step st e = some st') : Answered slot_buffer_size s n response st' := by
  have inv' := step_inv answered.inv stepped
  cases by_who : e.sender with
  | none =>
    obtain ⟨sends,size,longer,change⟩ := receiver_step answered.inv.looping by_who stepped
    refine ⟨inv',size.trans answered.size,by rw [sends]; exact answered.there,
      Nat.lt_of_lt_of_le answered.given longer,?_⟩
    intro last answering
    have given := answered.given
    rcases change with other | next | ⟨before,same⟩
    · exact absurd answering other
    · omega
    · rw [same]
      exact answered.answer (by omega) before
  | some who =>
    obtain ⟨receiver,handed,size,more,sends⟩ := sender_step by_who stepped
    refine ⟨inv',size.trans answered.size,?_,by rw [handed]; exact answered.given,?_⟩
    · rw [sends,List.getElem?_append_left (below_length answered.there)]
      exact answered.there
    · intro last answering
      rw [handed] at last
      rw [receiver] at answering
      obtain ⟨cleaned,awake,first,inv⟩ := answered.inv
      have oldest := inv.answering_cleaned answering
      obtain ⟨count,body⟩ := inv.sender_slots by_who stepped answered.there (by omega) answered.given
      obtain ⟨count_was,body_was⟩ := answered.answer last answering
      rw [answered.size] at body
      exact ⟨count.trans count_was,fun j positive inside => (body j positive inside).trans (body_was j positive inside)⟩

theorem Answered.run {events : List (Event σ)} {slot_buffer_size : Nat}
    (answered : Answered slot_buffer_size s n response st) (reached : Msg.run st events = some st') :
    Answered slot_buffer_size s n response st' := by
  induction events generalizing st with
  | nil =>
    obtain rfl := Option.some.inj reached
    exact answered
  | cons e events ih =>
    obtain ⟨next,stepped,rest⟩ := Option.bind_eq_some_iff.1 reached
    exact ih (answered.step stepped) rest

theorem run_size {events : List (Event σ)} {slot_buffer_size : Nat} {slots : Nat → y_message}
    (start : st = boot slot_buffer_size slots ∨ Inv st ∧ st.ktm.slot_buffer_size = slot_buffer_size)
    (reached : Msg.run st events = some st') :
    st' = boot slot_buffer_size slots ∨ Inv st' ∧ st'.ktm.slot_buffer_size = slot_buffer_size := by
  induction events generalizing st with
  | nil =>
    obtain rfl := Option.some.inj reached
    exact start
  | cons e events ih =>
    obtain ⟨next,stepped,rest⟩ := Option.bind_eq_some_iff.1 reached
    refine ih ?_ rest
    rcases start with rfl | ⟨inv,size⟩
    · refine (step_boot stepped).imp_right (fun inv => ⟨inv,?_⟩)
      cases e with
      | prepare =>
        obtain ⟨_,_,made⟩ := Option.map_eq_some_iff.mp stepped
        rw [← made]
        rfl
      | send who what =>
        obtain rfl := Option.some.inj stepped
        rfl
      | fire | handle | ack | copy_back | acked | clean | finish | give_up => cases stepped
    · refine .inr ⟨step_inv inv stepped,?_⟩
      cases by_who : e.sender with
      | none => rw [(receiver_step inv.looping by_who stepped).2.1,size]
      | some who => rw [(sender_step by_who stepped).2.2.1,size]

omit [DecidableEq σ] in
/-- The message in front of the receiver lies in the ring as it was sent. -/
theorem InvAt.body_at {cleaned first cur j : Nat} {awake : Option Nat} (inv : InvAt st cleaned awake first)
    (receiver : st.receiver = .waiting cur) (at_c : st.history.sends[cleaned]? = some s) (positive : 1 ≤ j)
    (inside : j ≤ bodyOf s) : st.ktm.slots ((s.dst + j) % slotCount st.ktm.slot_buffer_size) = s.what j := by
  have stage := inv.stage
  rw [receiver] at stage
  rw [inv.recorded.heads cleaned s at_c,Nat.mod_add_mod]
  exact inv.layout.body cleaned s j at_c (Nat.le_of_eq stage.1) positive inside

/-- The response of the handler is in the ring for the sender. -/
theorem InvAt.answered {cleaned first cur : Nat} {awake : Option Nat} (inv : InvAt st cleaned awake first)
    (receiver : st.receiver = .waiting cur) (at_c : st.history.sends[cleaned]? = some s)
    (head : st.ktm.slots s.dst = firedHead (s.what 0)) (here : cur = s.dst)
    (stepped : Msg.step st (.handle response) = some st') :
    Answered st.ktm.slot_buffer_size s cleaned response st' := by
  have inv' := step_inv ⟨cleaned,awake,first,inv⟩ stepped
  have stage := inv.stage
  have place := inv.dst_eq at_c
  have fits := inv.message_fits at_c
  rw [receiver] at stage
  cases step_moves stepped with
  | handle here_too new counted sized =>
    obtain rfl := Receiver.waiting.inj (receiver.symm.trans here_too)
    subst here counted sized
    have body : add_msg_count (st.ktm.slots s.dst).count.toNat = bodyOf s := by
      rw [head]
      rfl
    refine ⟨inv',rfl,at_c,by simp [stage.1],fun _ _ => ⟨?_,?_⟩⟩
    · have written := respond_count s.dst st.ktm.slots response fits
      dsimp only
      rwa [place,← body] at written
    · intro j positive inside
      have written := respond_inside s.dst st.ktm.slots response fits positive inside
      dsimp only
      rwa [place,← body] at written

/-- In every run the receiver reads the words that were sent, and a sender whose message was answered by
    `y_message_writeback` sees the words that were written, and behind them the words that it sent. -/
theorem message_words {slot_buffer_size cur : Nat} {slots : Nat → y_message} {events : List (Event σ)}
    (whole : message_size ∣ slot_buffer_size) (some_slot : 0 < slot_buffer_size)
    (reached : Msg.run (boot slot_buffer_size slots) events = some st) (receiver : st.receiver = .waiting cur)
    (new : marked (st.ktm.slots cur).flags MSG_STATUS_NEW = true) :
    ∃ s, st.history.sends[st.history.handed.length]? = some s ∧
      y_message_read slot_buffer_size st.ktm.slots cur = body_words s.what (s.what 0).count.toNat ∧
      ∀ data : List Word, data.length ≤ (s.what 0).count.toNat →
        (y_message_writeback slot_buffer_size st.ktm.slots cur data).2 = data.length ∧
        ∀ (later : List (Event σ)) (st' : System σ) (who : σ) (sent : Nat),
          Msg.run st (.handle (fun j => (y_message_writeback slot_buffer_size st.ktm.slots cur data).1
            ((next_slot slot_buffer_size)^[j] cur)) :: later) = some st' →
          st'.senders who = .woken st.history.handed.length sent →
          body_words (copied_back slot_buffer_size st'.ktm.slots sent s.what) (s.what 0).count.toNat =
            data ++ (body_words s.what (s.what 0).count.toNat).drop data.length := by
  obtain rfl | ⟨⟨cleaned,awake,first,inv⟩,rfl⟩ := run_size (.inl rfl) reached
  · cases receiver
  obtain ⟨s,at_c,_,rfl,head⟩ := inv.oldest_of_new receiver new
  have given : st.history.handed.length = cleaned := by
    have stage := inv.stage
    rw [receiver] at stage
    exact stage.1
  have place := inv.dst_eq at_c
  have fits := inv.message_fits at_c
  have count : (st.ktm.slots s.dst).count = (s.what 0).count := by
    rw [head]
    rfl
  have body : body_words (fun j => st.ktm.slots ((s.dst + j) % slotCount st.ktm.slot_buffer_size)) (s.what 0).count.toNat =
      body_words s.what (s.what 0).count.toNat :=
    body_words_congr (fun j positive inside => inv.body_at receiver at_c positive inside)
  refine ⟨s,by rw [given]; exact at_c,?_,?_⟩
  · have read := y_message_read_eq s.dst st.ktm.slots whole some_slot
    rwa [place,count,body] at read
  · intro data short
    rw [y_message_writeback,count,if_neg (Nat.not_lt.mpr short)]
    refine ⟨rfl,?_⟩
    intro later st' who sent reached' woken
    obtain ⟨next,stepped,rest⟩ := Option.bind_eq_some_iff.1 reached'
    have answered := (inv.answered receiver at_c head rfl stepped).run rest
    obtain ⟨cleaned',awake',first',inv'⟩ := answered.inv
    obtain ⟨same,count',spinning,t,at_t,_,rfl⟩ := inv'.spinning_of_woken woken
    rw [given] at same
    rw [← same] at at_t
    obtain rfl : s = t := Option.some.inj (answered.there.symm.trans at_t)
    have answering : st'.receiver.answering := by
      rw [spinning]
      trivial
    obtain ⟨head',body'⟩ := answered.answer (by rw [same]; exact inv'.answering_cleaned answering) answering
    have written : ∀ j, (next_slot st.ktm.slot_buffer_size)^[j] s.dst = (s.dst + j) % slotCount st.ktm.slot_buffer_size := by
      intro j
      have steps := iterate_next (next_slot_round st.ktm.slot_buffer_size) s.dst j
      rwa [place] at steps
    have room : data.length + 2 ≤ wordCount st.ktm.slot_buffer_size :=
      Nat.le_trans (Nat.add_le_add_right short 2) (words_fit fits)
    have unwritten := written_head whole some_slot data st.ktm.slots s.dst room
    have answer := writeback_words s.dst st.ktm.slots whole some_slot fits short
    rw [place] at unwritten answer
    have head_count : (st'.ktm.slots s.dst).count = (s.what 0).count := by
      rw [head',← count]
      exact congrArg y_message.count unwritten
    have seen := copied_back_words s.dst st'.ktm.slots s.what (by rw [place,head_count]) rfl
    rw [place] at seen
    rw [seen,← body,← answer]
    apply body_words_congr
    intro j positive inside
    rw [body' j positive inside]
    dsimp only
    rw [written]

/-- A synchronous message of three words. -/
def three_words (j : Nat) : y_message :=
  match j with
  | 0 => { count := 3#16, flags := MSG_FLAGS_SYNC, what := 0#32 }
  | 1 => { count := 1#16, flags := 0#16, what := 2#32 }
  | _ => { count := 3#16, flags := 0#16, what := 0#32 }

/-- A message of two slots, and one whose body lies on both sides of the end of the ring. -/
def wrapping : List (Event Bool) :=
  [.prepare,.send false (fun _ => { count := 1#16, flags := 0#16, what := 0#32 }),.fire false,
    .handle (fun _ => { count := 0#16, flags := 0#16, what := 0#32 }),.clean,.finish,.send true three_words,.fire true]

theorem message_words_wrapping : ∃ st st' : System Bool,
    Msg.run (boot 32 (fun _ => { count := 0#16, flags := 0x8787#16, what := 0#32 })) wrapping = some st ∧
    y_message_read 32 st.ktm.slots 2 = [1#32,2#32,3#32] ∧
    Msg.run st [.handle (fun j => (y_message_writeback 32 st.ktm.slots 2 [7#32]).1 ((next_slot 32)^[j] 2)),.ack] =
      some st' ∧
    body_words (copied_back 32 st'.ktm.slots 2 three_words) 3 = [7#32,2#32,3#32] := by
  obtain ⟨st,st',reached,receiver,new,handed,sends,answered,woken⟩ : ∃ st st' : System Bool,
      Msg.run (boot 32 (fun _ => { count := 0#16, flags := 0x8787#16, what := 0#32 })) wrapping = some st ∧
      st.receiver = .waiting 2 ∧ marked (st.ktm.slots 2).flags MSG_STATUS_NEW = true ∧ st.history.handed.length = 1 ∧
      st.history.sends[1]? = some ⟨true,three_words,2⟩ ∧
      Msg.run st [.handle (fun j => (y_message_writeback 32 st.ktm.slots 2 [7#32]).1 ((next_slot 32)^[j] 2)),.ack] =
        some st' ∧ st'.senders true = .woken 1 2 := ⟨_,_,rfl,rfl,rfl,rfl,rfl,rfl,rfl⟩
  obtain ⟨s,there,read,write⟩ := message_words (by decide) (by decide) reached receiver new
  rw [handed] at there write
  obtain rfl := Option.some.inj (sends.symm.trans there)
  exact ⟨st,st',reached,read,answered,(write [7#32] (by decide)).2 _ st' true 2 answered woken⟩

end Runs
end GridOS.Msg
