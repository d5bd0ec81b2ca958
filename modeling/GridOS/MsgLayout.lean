import GridOS.Msg

/-!
Where the messages of a ring lie. The sends of a run take slots one behind the other,
so the `n`th begins at the sum of the sizes before it, counted on without wrapping; its
slots are the remainders. Every slot of a body may look free, but the heads do not.
-/
namespace GridOS.Msg
open GridOS.Ring

/-- The slots of the ring. A ring without room for one slot still uses the first. -/
def slotCount (slot_buffer_size : Nat) : Nat := max 1 ((slot_buffer_size + message_size - 1) / message_size)

theorem slotCount_pos (slot_buffer_size : Nat) : 0 < slotCount slot_buffer_size := by
  rw [slotCount]
  omega

theorem next_slot_round (slot_buffer_size x : Nat) :
    next_slot slot_buffer_size (x % slotCount slot_buffer_size) = (x + 1) % slotCount slot_buffer_size := by
  rw [← succ_mod (slotCount_pos slot_buffer_size) x]
  have below := Nat.mod_lt x (slotCount_pos slot_buffer_size)
  generalize x % slotCount slot_buffer_size = i at *
  simp only [next_slot,slotCount,message_size] at *
  exact if_congr (by omega) rfl rfl

/-! ### Flag bits -/

theorem marked_or (a b bit : BitVec 16) : marked (a ||| b) bit = (marked a bit || marked b bit) := by
  rw [marked,marked,marked,BitVec.and_or_distrib_right,Bool.eq_iff_iff]
  simp only [bne_iff_ne,ne_eq,Bool.or_eq_true,BitVec.or_eq_zero_iff]
  exact not_and_or

theorem marked_zero (bit : BitVec 16) : marked 0#16 bit = false := by
  rw [marked,BitVec.zero_and]
  rfl

theorem used_after_clear_new (flags : BitVec 16) :
    marked (flags &&& ~~~MSG_STATUS_NEW) MSG_STATUS_USED_BIT = marked flags MSG_STATUS_USED_BIT := by
  rw [marked,marked,BitVec.and_assoc,show ~~~MSG_STATUS_NEW &&& MSG_STATUS_USED_BIT = MSG_STATUS_USED_BIT by decide]

theorem new_after_clear_new (flags : BitVec 16) : marked (flags &&& ~~~MSG_STATUS_NEW) MSG_STATUS_NEW = false := by
  rw [marked,BitVec.and_assoc,show ~~~MSG_STATUS_NEW &&& MSG_STATUS_NEW = 0#16 by decide,BitVec.and_zero]
  rfl

/-! ### Places -/

section Places
variable {σ : Type}

/-- The body slots of a send. -/
def bodyOf (s : Sent σ) : Nat := add_msg_count (s.what 0).count.toNat

/-- Where the `n`th send begins. -/
def startAt (sends : List (Sent σ)) (n : Nat) : Nat := startOf (fun s => bodyOf s + 1) sends n

/-- The head of a message once it has been fired. -/
def firedHead (what : y_message) : y_message :=
  fire { what with flags := MSG_STATUS_USED_BIT } what

theorem used_firedHead (what : y_message) : marked (firedHead what).flags MSG_STATUS_USED_BIT = true := by
  show marked ((MSG_STATUS_USED_BIT ||| what.flags) ||| MSG_STATUS_NEW) MSG_STATUS_USED_BIT = true
  rw [marked_or,marked_or,show marked MSG_STATUS_USED_BIT MSG_STATUS_USED_BIT = true by decide,Bool.true_or,Bool.true_or]

theorem new_firedHead (what : y_message) : marked (firedHead what).flags MSG_STATUS_NEW = true := by
  show marked ((MSG_STATUS_USED_BIT ||| what.flags) ||| MSG_STATUS_NEW) MSG_STATUS_NEW = true
  rw [marked_or,show marked MSG_STATUS_NEW MSG_STATUS_NEW = true by decide,Bool.or_true]

theorem sync_firedHead (what : y_message) :
    marked (firedHead what).flags MSG_FLAGS_SYNC = marked what.flags MSG_FLAGS_SYNC := by
  show marked ((MSG_STATUS_USED_BIT ||| what.flags) ||| MSG_STATUS_NEW) MSG_FLAGS_SYNC = _
  rw [marked_or,marked_or,show marked MSG_STATUS_USED_BIT MSG_FLAGS_SYNC = false by decide,
    show marked MSG_STATUS_NEW MSG_FLAGS_SYNC = false by decide,Bool.false_or,Bool.or_false]

/-- The memory of a ring of `M` slots whose first `cleaned` messages are gone and whose
    first `handed` messages have been given to the receiver. -/
structure Layout (M : Nat) (slots : Nat → y_message) (sends : List (Sent σ)) (fired : List Nat) (cleaned handed : Nat) :
    Prop where
  room : startAt sends sends.length ≤ startAt sends cleaned + M
  free : ∀ x, startAt sends sends.length ≤ x → x < startAt sends cleaned + M → (slots (x % M)).flags = 0#16
  owned : ∀ n s, sends[n]? = some s → cleaned ≤ n → marked (slots (startAt sends n % M)).flags MSG_STATUS_USED_BIT = true
  silent : ∀ n s, sends[n]? = some s → handed ≤ n → n ∉ fired →
    (slots (startAt sends n % M)).flags = MSG_STATUS_USED_BIT
  loud : ∀ n s, sends[n]? = some s → handed ≤ n → n ∈ fired → slots (startAt sends n % M) = firedHead (s.what 0)
  body : ∀ n s j, sends[n]? = some s → handed ≤ n → 1 ≤ j → j ≤ bodyOf s →
    slots ((startAt sends n + j) % M) = s.what j

variable {M : Nat} {slots slots' : Nat → y_message} {sends : List (Sent σ)} {fired : List Nat} {cleaned handed : Nat}

theorem startAt_next {n : Nat} {s : Sent σ} (at_n : sends[n]? = some s) :
    startAt sends (n + 1) = startAt sends n + (bodyOf s + 1) := startOf_succ at_n

theorem below_length {n : Nat} {s : Sent σ} (at_n : sends[n]? = some s) : n < sends.length :=
  (List.getElem?_eq_some_iff.1 at_n).1

theorem snoc_cases {s t : Sent σ} {n : Nat} (at_n : (sends ++ [s])[n]? = some t) :
    sends[n]? = some t ∧ n < sends.length ∨ n = sends.length ∧ t = s := by
  rcases Nat.lt_trichotomy n sends.length with less | rfl | more
  · rw [List.getElem?_append_left less] at at_n
    exact Or.inl ⟨at_n,less⟩
  · rw [List.getElem?_append_right (Nat.le_refl _)] at at_n
    simp only [Nat.sub_self,List.getElem?_cons_zero,Option.some.injEq] at at_n
    exact Or.inr ⟨rfl,at_n.symm⟩
  · have := below_length at_n
    simp only [List.length_append,List.length_cons,List.length_nil] at this
    omega

theorem at_snoc {s t : Sent σ} {n : Nat} (at_n : sends[n]? = some t) : (sends ++ [s])[n]? = some t := by
  rw [List.getElem?_append_left (below_length at_n)]
  exact at_n

theorem startAt_snoc {n : Nat} (s : Sent σ) (old : n ≤ sends.length) : startAt (sends ++ [s]) n = startAt sends n :=
  startOf_append [s] old

theorem startAt_snoc_end (s : Sent σ) :
    startAt (sends ++ [s]) (sends ++ [s]).length = startAt sends sends.length + (bodyOf s + 1) := by
  rw [List.length_append]
  exact startOf_append_end s

/-- A slot of a message that is not cleaned lies between the oldest head and the end. -/
theorem place_bounds {n j : Nat} {s : Sent σ} (at_n : sends[n]? = some s) (live : cleaned ≤ n) (inside : j ≤ bodyOf s) :
    startAt sends cleaned ≤ startAt sends n + j ∧ startAt sends n + j < startAt sends sends.length := by
  have low : startAt sends cleaned ≤ startAt sends n := startOf_le live
  have high : startAt sends n + (bodyOf s + 1) ≤ startAt sends sends.length := startOf_lt at_n (below_length at_n)
  omega

/-- Messages that are not cleaned have no slot in common. -/
theorem place_ne {n m j k : Nat} {s t : Sent σ} (room : startAt sends sends.length ≤ startAt sends cleaned + M)
    (at_n : sends[n]? = some s) (at_m : sends[m]? = some t) (live_n : cleaned ≤ n) (live_m : cleaned ≤ m)
    (in_n : j ≤ bodyOf s) (in_m : k ≤ bodyOf t) (apart : n ≠ m ∨ j ≠ k) :
    (startAt sends n + j) % M ≠ (startAt sends m + k) % M := by
  intro same
  have bounds_n := place_bounds at_n live_n in_n
  have bounds_m := place_bounds at_m live_m in_m
  have equal := window_injective (startAt sends cleaned) bounds_n.1 (by omega) bounds_m.1 (by omega) same
  rcases Nat.lt_trichotomy n m with less | rfl | more
  · have : startAt sends n + (bodyOf s + 1) ≤ startAt sends m := startOf_lt at_n less
    omega
  · omega
  · have : startAt sends m + (bodyOf t + 1) ≤ startAt sends n := startOf_lt at_m more
    omega

theorem head_ne {n m : Nat} {s t : Sent σ} (room : startAt sends sends.length ≤ startAt sends cleaned + M)
    (at_n : sends[n]? = some s) (at_m : sends[m]? = some t) (live_n : cleaned ≤ n) (live_m : cleaned ≤ m)
    (apart : n ≠ m) : startAt sends n % M ≠ startAt sends m % M :=
  place_ne room at_n at_m live_n live_m (Nat.zero_le _) (Nat.zero_le _) (Or.inl apart)

/-- A free slot is none of a message. -/
theorem free_ne {n j x : Nat} {s : Sent σ} (room : startAt sends sends.length ≤ startAt sends cleaned + M)
    (at_n : sends[n]? = some s) (live : cleaned ≤ n) (inside : j ≤ bodyOf s)
    (low : startAt sends sends.length ≤ x) (high : x < startAt sends cleaned + M) :
    x % M ≠ (startAt sends n + j) % M := by
  intro same
  have bounds := place_bounds at_n live inside
  have equal := window_injective (startAt sends cleaned) (by omega) high bounds.1 (by omega) same
  omega

/-! ### What the steps do to the memory -/

/-- The oldest message may be changed while it is handled, so long as its head stays
    taken. -/
theorem Layout.inside {s : Sent σ} (layout : Layout M slots sends fired cleaned (cleaned + 1))
    (at_cleaned : sends[cleaned]? = some s)
    (outside : ∀ k, (∀ j ≤ bodyOf s, (startAt sends cleaned + j) % M ≠ k) → slots' k = slots k)
    (taken : marked (slots' (startAt sends cleaned % M)).flags MSG_STATUS_USED_BIT = true) :
    Layout M slots' sends fired cleaned (cleaned + 1) := by
  have other {n j : Nat} {t : Sent σ} (at_n : sends[n]? = some t) (later : cleaned + 1 ≤ n) (within : j ≤ bodyOf t) :
      slots' ((startAt sends n + j) % M) = slots ((startAt sends n + j) % M) := by
    apply outside
    intro k hk
    exact place_ne layout.room at_cleaned at_n (Nat.le_refl _) (by omega) hk within (Or.inl (by omega))
  refine ⟨layout.room,?_,?_,?_,?_,?_⟩
  · intro x low high
    rw [outside]
    · exact layout.free x low high
    · intro j hj
      exact (free_ne layout.room at_cleaned (Nat.le_refl _) hj low high).symm
  · intro n t at_n live
    rcases Nat.eq_or_lt_of_le live with rfl | later
    · exact taken
    · have same := other at_n later (Nat.zero_le _)
      rw [Nat.add_zero] at same
      rw [same]
      exact layout.owned n t at_n live
  · intro n t at_n later unfired
    have same := other at_n later (Nat.zero_le _)
    rw [Nat.add_zero] at same
    rw [same]
    exact layout.silent n t at_n later unfired
  · intro n t at_n later done
    have same := other at_n later (Nat.zero_le _)
    rw [Nat.add_zero] at same
    rw [same]
    exact layout.loud n t at_n later done
  · intro n t j at_n later positive within
    rw [other at_n later within]
    exact layout.body n t j at_n later positive within

theorem Layout.hand (layout : Layout M slots sends fired cleaned cleaned) :
    Layout M slots sends fired cleaned (cleaned + 1) where
  room := layout.room
  free := layout.free
  owned := layout.owned
  silent n s at_n later := layout.silent n s at_n (by omega)
  loud n s at_n later := layout.loud n s at_n (by omega)
  body n s j at_n later := layout.body n s j at_n (by omega)

/-- When all flags of the oldest message are cleared its slots are free again. -/
theorem Layout.release {s : Sent σ} (layout : Layout M slots sends fired cleaned (cleaned + 1))
    (at_cleaned : sends[cleaned]? = some s)
    (outside : ∀ k, startAt sends cleaned % M ≠ k → slots' k = slots k)
    (body_clear : ∀ j, 1 ≤ j → j ≤ bodyOf s → (slots ((startAt sends cleaned + j) % M)).flags = 0#16)
    (head_clear : (slots' (startAt sends cleaned % M)).flags = 0#16) :
    Layout M slots' sends fired (cleaned + 1) (cleaned + 1) := by
  have next := startAt_next at_cleaned
  have other {n j : Nat} {t : Sent σ} (at_n : sends[n]? = some t) (later : cleaned + 1 ≤ n) (within : j ≤ bodyOf t) :
      slots' ((startAt sends n + j) % M) = slots ((startAt sends n + j) % M) := by
    apply outside
    have apart := place_ne layout.room at_cleaned at_n (Nat.le_refl _) (by omega) (Nat.zero_le _) within (Or.inl (by omega))
    simpa using apart
  have head {n : Nat} {t : Sent σ} (at_n : sends[n]? = some t) (later : cleaned + 1 ≤ n) :
      slots' (startAt sends n % M) = slots (startAt sends n % M) := by
    simpa using other at_n later (Nat.zero_le _)
  have room := layout.room
  refine ⟨by omega,?_,?_,?_,?_,?_⟩
  · intro x low high
    by_cases before : x < startAt sends cleaned + M
    · rw [outside]
      · exact layout.free x low before
      · have apart := free_ne layout.room at_cleaned (Nat.le_refl _) (Nat.zero_le _) low before
        simpa using apart.symm
    · -- one round behind the oldest message
      obtain ⟨j,rfl⟩ : ∃ j, x = startAt sends cleaned + j + M := ⟨x - startAt sends cleaned - M,by omega⟩
      rw [Nat.add_mod_right]
      rcases Nat.eq_zero_or_pos j with rfl | positive
      · exact head_clear
      · rw [outside]
        · exact body_clear j positive (by omega)
        · have apart := place_ne layout.room at_cleaned at_cleaned (Nat.le_refl _) (Nat.le_refl _) (Nat.zero_le _)
            (show j ≤ bodyOf s by omega) (Or.inr (by omega))
          simpa using apart
  · intro n t at_n later
    rw [head at_n later]
    exact layout.owned n t at_n (by omega)
  · intro n t at_n later unfired
    rw [head at_n later]
    exact layout.silent n t at_n later unfired
  · intro n t at_n later done
    rw [head at_n later]
    exact layout.loud n t at_n later done
  · intro n t j at_n later positive within
    rw [other at_n later within]
    exact layout.body n t j at_n later positive within

/-- Firing changes the head of the message and no other slot. -/
theorem Layout.fire {number : Nat} {s : Sent σ} (layout : Layout M slots sends fired cleaned handed)
    (at_number : sends[number]? = some s) (order : cleaned ≤ handed) (waiting : handed ≤ number)
    (unfired : number ∉ fired) :
    Layout M (Function.update slots (startAt sends number % M)
      (Msg.fire (slots (startAt sends number % M)) (s.what 0))) sends (number :: fired) cleaned handed := by
  have new_head : Msg.fire (slots (startAt sends number % M)) (s.what 0) = firedHead (s.what 0) := by
    rw [firedHead,Msg.fire,Msg.fire,layout.silent number s at_number waiting unfired]
  rw [new_head]
  have head {n : Nat} {t : Sent σ} (at_n : sends[n]? = some t) (live : cleaned ≤ n) (apart : n ≠ number) :
      Function.update slots (startAt sends number % M) (firedHead (s.what 0)) (startAt sends n % M) =
        slots (startAt sends n % M) :=
    Function.update_of_ne (head_ne layout.room at_n at_number live (by omega) apart) _ _
  refine ⟨layout.room,?_,?_,?_,?_,?_⟩
  · intro x low high
    rw [Function.update_of_ne]
    · exact layout.free x low high
    · simpa using free_ne layout.room at_number (by omega) (Nat.zero_le _) low high
  · intro n t at_n live
    by_cases same : n = number
    · rw [same,Function.update_self]
      exact used_firedHead (s.what 0)
    · rw [head at_n live same]
      exact layout.owned n t at_n live
  · intro n t at_n later still
    rw [List.mem_cons,not_or] at still
    rw [head at_n (by omega) still.1]
    exact layout.silent n t at_n later still.2
  · intro n t at_n later done
    by_cases same : n = number
    · obtain rfl : t = s := Option.some.inj (by rw [← at_n,← at_number,same])
      rw [same,Function.update_self]
    · rw [head at_n (by omega) same]
      exact layout.loud n t at_n later ((List.mem_cons.1 done).resolve_left same)
  · intro n t j at_n later positive within
    rw [Function.update_of_ne]
    · exact layout.body n t j at_n later positive within
    · have apart := place_ne layout.room at_n at_number (by omega) (by omega) within (Nat.zero_le _) (Or.inr (by omega))
      simpa using apart

/-! ### Reservation -/

variable {slot_buffer_size : Nat}

/-- A search that finds as many slots as it wants has seen all of them free, and has
    not come round. -/
theorem search_free {a want : Nat} : ∀ {rounds i : Nat}, i < want → i < slotCount slot_buffer_size →
    search slot_buffer_size slots (a % slotCount slot_buffer_size) want rounds ((a + i) % slotCount slot_buffer_size) i =
      want →
    want ≤ slotCount slot_buffer_size ∧ ∀ j, i ≤ j → j < want →
      marked (slots ((a + j) % slotCount slot_buffer_size)).flags MSG_STATUS_USED_BIT = false
  | 0, i, short, _, found => by
    rw [search] at found
    omega
  | rounds+1, i, short, within, found => by
    rw [search,next_slot_round] at found
    split at found
    · omega
    rename_i unused
    rw [Bool.not_eq_true] at unused
    dsimp only at found
    split at found
    · rename_i more
      have apart : i + 1 ≠ slotCount slot_buffer_size := by
        intro round
        apply more.1
        rw [Nat.add_assoc,round,Nat.add_mod_right]
      obtain ⟨fits,rest⟩ := search_free (i := i + 1) more.2 (by omega) found
      refine ⟨fits,?_⟩
      intro j low high
      rcases Nat.eq_or_lt_of_le low with rfl | later
      · exact unused
      · exact rest j later high
    · refine ⟨by omega,?_⟩
      intro j low high
      obtain rfl : j = i := by omega
      exact unused

/-- The search cannot pass the oldest head, so what it finds lies in the free part. -/
theorem Layout.found_room {want : Nat} (layout : Layout (slotCount slot_buffer_size) slots sends fired cleaned handed)
    (bounded : cleaned ≤ sends.length)
    (found : search slot_buffer_size slots (startAt sends sends.length % slotCount slot_buffer_size) want want
      (startAt sends sends.length % slotCount slot_buffer_size) 0 = want) (positive : 0 < want) :
    startAt sends sends.length + want ≤ startAt sends cleaned + slotCount slot_buffer_size := by
  obtain ⟨fits,unused⟩ := search_free (i := 0) positive (slotCount_pos slot_buffer_size) found
  have room := layout.room
  rcases Nat.eq_or_lt_of_le bounded with all | some_left
  · rw [← all] at *
    omega
  · by_contra crowded
    -- one of the positions searched is the oldest head, a round later
    have oldest := layout.owned cleaned _ (List.getElem?_eq_getElem some_left) (Nat.le_refl _)
    have low : startAt sends cleaned ≤ startAt sends sends.length := startOf_le bounded
    have clear := unused (startAt sends cleaned + slotCount slot_buffer_size - startAt sends sends.length) (by omega)
      (by omega)
    rw [show startAt sends sends.length +
        (startAt sends cleaned + slotCount slot_buffer_size - startAt sends sends.length) =
        startAt sends cleaned + slotCount slot_buffer_size by omega,Nat.add_mod_right,oldest] at clear
    exact Bool.noConfusion clear

section Written
variable {a count : Nat} {what : Nat → y_message}

theorem set_used_end (n : Nat) :
    (set_used slot_buffer_size slots n (a % slotCount slot_buffer_size)).2 = (a + n) % slotCount slot_buffer_size :=
  sweep_end (next_slot_round slot_buffer_size) n 0 a slots

theorem copy_body_outside {k : Nat} (away : ∀ j, 1 ≤ j → j ≤ count → (a + j) % slotCount slot_buffer_size ≠ k) :
    copy_body slot_buffer_size slots (a % slotCount slot_buffer_size) count what k = slots k := by
  rw [copy_body,next_slot_round]
  apply sweep_outside (next_slot_round slot_buffer_size)
  intro j hj
  rw [add_mod_succ]
  exact away (j + 1) (by omega) (by omega)

theorem copy_body_inside {j : Nat} (fits : count ≤ slotCount slot_buffer_size) (positive : 1 ≤ j) (within : j ≤ count) :
    copy_body slot_buffer_size slots (a % slotCount slot_buffer_size) count what ((a + j) % slotCount slot_buffer_size) =
      what j := by
  obtain ⟨i,rfl⟩ : ∃ i, j = 1 + i := ⟨j - 1,by omega⟩
  rw [copy_body,next_slot_round,← Nat.add_assoc]
  exact sweep_inside (next_slot_round slot_buffer_size) fits (by omega)

theorem set_used_outside {n k : Nat} (away : ∀ j < n, (a + j) % slotCount slot_buffer_size ≠ k) :
    (set_used slot_buffer_size slots n (a % slotCount slot_buffer_size)).1 k = slots k :=
  sweep_outside (next_slot_round slot_buffer_size) away

/-- The slots of a message that has just found room. -/
def placed (slot_buffer_size : Nat) (slots : Nat → y_message) (tmp count : Nat) (what : Nat → y_message) :
    Nat → y_message :=
  copy_body slot_buffer_size (set_used slot_buffer_size slots (count + 1) tmp).1 tmp count what

theorem placed_outside {k : Nat} (away : ∀ j ≤ count, (a + j) % slotCount slot_buffer_size ≠ k) :
    placed slot_buffer_size slots (a % slotCount slot_buffer_size) count what k = slots k := by
  rw [placed,copy_body_outside (fun j _ within => away j within)]
  exact set_used_outside (fun j hj => away j (by omega))

theorem placed_head (slots : Nat → y_message) (what : Nat → y_message) (fits : count + 1 ≤ slotCount slot_buffer_size) :
    (placed slot_buffer_size slots (a % slotCount slot_buffer_size) count what (a % slotCount slot_buffer_size)).flags =
      (slots (a % slotCount slot_buffer_size)).flags ||| MSG_STATUS_USED_BIT := by
  rw [placed,copy_body_outside]
  · have head : (set_used slot_buffer_size slots (count + 1) (a % slotCount slot_buffer_size)).1
        ((a + 0) % slotCount slot_buffer_size) = { slots ((a + 0) % slotCount slot_buffer_size) with
          flags := (slots ((a + 0) % slotCount slot_buffer_size)).flags ||| MSG_STATUS_USED_BIT } :=
      sweep_inside (next_slot_round slot_buffer_size) fits (by omega)
    exact congrArg y_message.flags head
  · intro j positive within same
    have equal := window_injective a (by omega) (by omega) (Nat.le_refl _) (by omega) same
    omega

end Written

/-- A message that has found room is laid behind the others. -/
theorem Layout.reserve {s : Sent σ} (layout : Layout (slotCount slot_buffer_size) slots sends fired cleaned handed)
    (order : cleaned ≤ handed) (bounded : cleaned ≤ sends.length) (fresh : sends.length ∉ fired)
    (roomy : startAt sends sends.length + (bodyOf s + 1) ≤ startAt sends cleaned + slotCount slot_buffer_size) :
    Layout (slotCount slot_buffer_size)
      (placed slot_buffer_size slots (startAt sends sends.length % slotCount slot_buffer_size) (bodyOf s) s.what)
      (sends ++ [s]) fired cleaned handed := by
  have low : startAt sends cleaned ≤ startAt sends sends.length := startOf_le bounded
  have kept {n j : Nat} {t : Sent σ} (at_n : sends[n]? = some t) (live : cleaned ≤ n) (inside : j ≤ bodyOf t) :
      placed slot_buffer_size slots (startAt sends sends.length % slotCount slot_buffer_size) (bodyOf s) s.what
        ((startAt sends n + j) % slotCount slot_buffer_size) = slots ((startAt sends n + j) % slotCount slot_buffer_size) :=
    placed_outside (fun k hk => free_ne layout.room at_n live inside (by omega) (by omega))
  have kept_head {n : Nat} {t : Sent σ} (at_n : sends[n]? = some t) (live : cleaned ≤ n) :
      placed slot_buffer_size slots (startAt sends sends.length % slotCount slot_buffer_size) (bodyOf s) s.what
        (startAt sends n % slotCount slot_buffer_size) = slots (startAt sends n % slotCount slot_buffer_size) := by
    simpa using kept at_n live (Nat.zero_le _)
  have head := placed_head (a := startAt sends sends.length) slots s.what
    (show bodyOf s + 1 ≤ slotCount slot_buffer_size by omega)
  rw [layout.free _ (Nat.le_refl _) (by omega),BitVec.zero_or] at head
  refine ⟨?_,?_,?_,?_,?_,?_⟩
  · rw [startAt_snoc_end s,startAt_snoc s bounded]
    exact roomy
  · intro x low_x high_x
    rw [startAt_snoc_end s] at low_x
    rw [startAt_snoc s bounded] at high_x
    rw [placed_outside]
    · exact layout.free x (by omega) high_x
    · intro j hj same
      have := window_injective (startAt sends cleaned) (by omega) (by omega) (by omega) high_x same
      omega
  · intro n t at_n live
    rcases snoc_cases at_n with ⟨old,less⟩ | ⟨rfl,rfl⟩
    · rw [startAt_snoc s (by omega),kept_head old live]
      exact layout.owned n t old live
    · rw [startAt_snoc t (Nat.le_refl _),head]
      decide
  · intro n t at_n later unfired
    rcases snoc_cases at_n with ⟨old,less⟩ | ⟨rfl,rfl⟩
    · rw [startAt_snoc s (by omega),kept_head old (by omega)]
      exact layout.silent n t old later unfired
    · rw [startAt_snoc t (Nat.le_refl _),head]
  · intro n t at_n later done
    rcases snoc_cases at_n with ⟨old,less⟩ | ⟨rfl,rfl⟩
    · rw [startAt_snoc s (by omega),kept_head old (by omega)]
      exact layout.loud n t old later done
    · exact absurd done fresh
  · intro n t j at_n later positive within
    rcases snoc_cases at_n with ⟨old,less⟩ | ⟨rfl,rfl⟩
    · rw [startAt_snoc s (by omega),kept old (by omega) within]
      exact layout.body n t j old later positive within
    · rw [startAt_snoc t (Nat.le_refl _),placed]
      exact copy_body_inside (by omega) positive within

/-! ### The other loops -/

theorem next_slot_below {i : Nat} (within : i < slotCount slot_buffer_size) :
    next_slot slot_buffer_size i = (i + 1) % slotCount slot_buffer_size := by
  rw [← next_slot_round,Nat.mod_eq_of_lt within]

theorem reset_from_spec {rounds i : Nat} (within : i < slotCount slot_buffer_size)
    (enough : slotCount slot_buffer_size ≤ rounds + i) (done : ∀ k < i, (slots k).flags = 0#16) :
    ∃ cleared, reset_from slot_buffer_size rounds i slots = some cleared ∧
      ∀ k < slotCount slot_buffer_size, (cleared k).flags = 0#16 := by
  induction rounds generalizing i slots with
  | zero => omega
  | succ rounds ih =>
    rw [reset_from,next_slot_below within]
    dsimp only
    have upto : ∀ k < i + 1, (Function.update slots i { slots i with flags := 0#16 } k).flags = 0#16 := by
      intro k hk
      by_cases same : k = i
      · rw [same,Function.update_self]
      · rw [Function.update_of_ne same]
        exact done k (by omega)
    by_cases last : i + 1 = slotCount slot_buffer_size
    · rw [last,Nat.mod_self,if_pos rfl]
      exact ⟨_,rfl,fun k hk => upto k (by omega)⟩
    · rw [Nat.mod_eq_of_lt (show i + 1 < slotCount slot_buffer_size by omega),if_neg (by omega)]
      exact ih (by omega) (by omega) upto

theorem message_reset_all_spec (slot_buffer_size : Nat) (slots : Nat → y_message) :
    ∃ cleared, message_reset_all slot_buffer_size slots = some cleared ∧
      ∀ k < slotCount slot_buffer_size, (cleared k).flags = 0#16 := by
  apply reset_from_spec (slotCount_pos slot_buffer_size)
  · simp only [slotCount,message_size]
    omega
  · omega

section Response
variable {a count : Nat} {response : Nat → y_message}

theorem respond_outside {k : Nat} (away : ∀ j ≤ count, (a + j) % slotCount slot_buffer_size ≠ k) :
    respond slot_buffer_size slots (a % slotCount slot_buffer_size) count response k = slots k := by
  rw [respond,copy_body_outside (fun j _ within => away j within),Function.update_of_ne]
  exact fun same => away 0 (Nat.zero_le _) same.symm

theorem respond_head (slots response : Nat → y_message) (fits : count + 1 ≤ slotCount slot_buffer_size) :
    (respond slot_buffer_size slots (a % slotCount slot_buffer_size) count response
      (a % slotCount slot_buffer_size)).flags = (slots (a % slotCount slot_buffer_size)).flags := by
  rw [respond,copy_body_outside,Function.update_self]
  intro j positive within same
  have equal := window_injective a (by omega) (by omega) (Nat.le_refl _) (by omega) same
  omega

end Response

/-- The slots of a message, as the sender and the receiver walk them. -/
theorem slots_at_eq (slot_buffer_size a count : Nat) : slots_at slot_buffer_size (a % slotCount slot_buffer_size) count =
    (List.range (count + 1)).map (fun j => (a + j) % slotCount slot_buffer_size) := by
  rw [slots_at]
  apply List.map_congr_left
  intro j _
  exact iterate_next (next_slot_round slot_buffer_size) a j

end Places
end GridOS.Msg
