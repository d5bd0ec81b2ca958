import GridOS.TcpRecv

/-!
A queue of received chains that one reader takes apart with calls of `grd_recv` that do not block. What the messages
still hold, counted from the front of the queue, says which of them a call finishes (`Moves`); a message that ends in an
empty buffer stays in the queue when a call ends with its last byte.
-/
namespace GridOS.RecvStream
open GridOS.TcpRecv

section Code
variable {α : Type}

/-- A connection with chains that nobody has read from. -/
def received (chains : List (List (List α))) : grd_netconn α :=
  ⟨chains.map (fun chain => ⟨chain,0⟩),[],chains.length,false⟩

/-- `grd_recv` without `NET_F_BLOCK`: what it returns, what it has written to the buffer, and the connection. -/
def grd_recv (netconn : grd_netconn α) (len : BitVec 32) : Option (BitVec 32 × List α × grd_netconn α) :=
  (grd_recv_again netconn (Call.start len false)).map (fun after => (after.2.1.result,after.2.1.buff,after.2.2))

/-- One more call, with the bytes that the calls have returned. -/
def next (s : grd_netconn α × List α) (len : BitVec 32) : Option (grd_netconn α × List α) :=
  (grd_recv s.1 len).map (fun after => (after.2.2,s.2 ++ after.2.1))

def calls (chains : List (List (List α))) (lens : List (BitVec 32)) : Option (grd_netconn α × List α) :=
  lens.foldl (fun s len => s.bind (next · len)) (some (received chains,[]))

end Code

section Statements
variable {α : Type}

/-- The payload of the chains. -/
def payload (chains : List (List (List α))) : List α := chains.flatten.flatten

/-- What calls have made of the chains when they have returned so many bytes: the first ones wait to be freed, and one with
    any bytes does so exactly when its last byte was returned. -/
structure Reassembled (chains : List (List (List α))) (netconn : grd_netconn α) (returned : List α) : Prop where
  stream : returned <+: payload chains
  order : netconn.wait_free_queue.map recv_msg_hd.stack_msg ++ netconn.recv_queue.map recv_msg_hd.stack_msg = chains
  moved : ∀ i chain, chains[i]? = some chain → chain.flatten ≠ [] →
    (i < netconn.wait_free_queue.length ↔ (payload (chains.take (i+1))).length ≤ returned.length)
  count : netconn.rx_queue_limit = netconn.recv_queue.length

/-- A call returns the number of bytes it has written, all that it asks for or all that are left. -/
def Returns (chains : List (List (List α))) (netconn : grd_netconn α) (returned : List α) (len : BitVec 32) : Prop :=
  ∃ result buff after, grd_recv netconn len = some (result,buff,after) ∧ buff.length = result.toNat ∧
    result.toNat = min len.toNat ((payload chains).length - returned.length)

/-- The calls go on, keep the queue in order, and each returns the right number of bytes. -/
def Right (chains : List (List (List α))) (lens : List (BitVec 32)) : Prop :=
  ∀ before, before <+: lens → ∃ netconn returned, calls chains before = some (netconn,returned) ∧
    Reassembled chains netconn returned ∧ ∀ len, before ++ [len] <+: lens → Returns chains netconn returned len

/-- The first `n` bytes end with the last byte of a message, and its chain goes on with an empty buffer. -/
def EndsEarly (chains : List (List (List α))) (n : Nat) : Prop :=
  ∃ i chain, chains[i]? = some chain ∧ chain.flatten ≠ [] ∧ chain.getLast? = some [] ∧ n = (payload (chains.take (i+1))).length

/-- What calls ask for together. -/
def asked (lens : List (BitVec 32)) : Nat := (lens.map BitVec.toNat).sum

/-- The call asks for fewer than `2^31` bytes or nothing is left, and it does not end with the last byte of a message
    whose chain goes on. -/
def Careful (chains : List (List (List α))) (before : List (BitVec 32)) (len : BitVec 32) : Prop :=
  (len.toNat < 2^31 ∨ (payload chains).length ≤ asked before) ∧ ¬EndsEarly chains (asked before + len.toNat)

end Statements

/-! ### Which messages a pass finishes -/

section Pass
variable {α : Type}

/-- With room for just the rest of a chain, the loop goes to `out` when buffers without a byte are left. -/
theorem copy_pbufs_out (pbufs : List (List α)) : ∀ {total_len offset : Nat} {rem_len : Int} {copied : Copied α},
    total_len ≤ offset → 0 < rem_len → rem_len = (pbufs.flatten.drop (offset - total_len)).length →
    copy_pbufs pbufs total_len offset rem_len = some copied → (copied.out = true ↔ pbufs.getLast? = some []) := by
  induction pbufs with
  | nil =>
    intro total_len offset rem_len copied _ positive room _
    rw [List.flatten_nil,List.drop_nil,List.length_nil] at room
    omega
  | cons temp next ih =>
    intro total_len offset rem_len copied behind positive room done
    rw [copy_pbufs,if_neg (by omega)] at done
    dsimp only at done
    by_cases inside : offset < total_len + temp.length
    · rw [unread_split behind inside,List.length_append,List.length_drop] at room
      have copy_len : (if rem_len > ((total_len + temp.length - offset : Nat) : Int) then
          ((total_len + temp.length - offset : Nat) : Int) else rem_len) = (total_len + temp.length - offset : Nat) := by
        split <;> omega
      rw [if_pos inside,copy_len,if_neg (by omega),Int.toNat_natCast,if_neg (by omega)] at done
      obtain ⟨rest,rest_done,rfl⟩ := Option.map_eq_some_iff.mp done
      by_cases more : next.flatten = []
      · -- the buffer takes the last byte: the next round finds no room
        have full : rem_len - (total_len + temp.length - offset : Nat) = 0 := by
          rw [more,List.length_nil] at room
          omega
        cases next with
        | nil =>
          rw [copy_pbufs] at rest_done
          obtain rfl := Option.some.inj rest_done
          have some : temp ≠ [] := by
            rintro rfl
            rw [List.length_nil] at inside
            omega
          simp [some]
        | cons empty others =>
          rw [copy_pbufs,if_pos full] at rest_done
          obtain rfl := Option.some.inj rest_done
          have last := List.flatten_eq_nil_iff.mp more
          rw [List.getLast?_cons_cons,List.getLast?_eq_some_getLast (List.cons_ne_nil empty others)]
          refine iff_of_true rfl ?_
          rw [last _ (List.getLast_mem _)]
      · have zero : offset + (total_len + temp.length - offset) - (total_len + temp.length) = 0 := by omega
        have more_bytes : 0 < next.flatten.length := List.length_pos_iff.mpr more
        have left : rem_len - (total_len + temp.length - offset : Nat) =
            (next.flatten.drop (offset + (total_len + temp.length - offset) - (total_len + temp.length))).length := by
          rw [zero,List.drop_zero]
          omega
        obtain ⟨b,others,rfl⟩ := List.exists_cons_of_ne_nil (l := next) (by rintro rfl; exact more rfl)
        have tail : rest.out = true ↔ (b :: others).getLast? = some [] := ih (by omega) (by omega) left rest_done
        rw [List.getLast?_cons_cons]
        exact tail
    · rw [unread_skip (by omega)] at room
      rw [if_neg inside] at done
      obtain ⟨b,others,rfl⟩ : ∃ b others, next = b :: others := by
        cases next with
        | nil =>
          rw [List.flatten_nil,List.drop_nil,List.length_nil] at room
          omega
        | cons b others => exact ⟨b,others,rfl⟩
      rw [List.getLast?_cons_cons]
      exact ih (by omega) positive room done

/-- The bytes that the first `n` messages of a queue still hold. -/
def held (queue : List (recv_msg_hd α)) (n : Nat) : Nat := ((queue.take n).flatMap recv_msg_hd.unread).length

@[simp] theorem held_zero (queue : List (recv_msg_hd α)) : held queue 0 = 0 := rfl

@[simp] theorem held_cons (m : recv_msg_hd α) (queue : List (recv_msg_hd α)) (n : Nat) :
    held (m :: queue) (n+1) = m.unread.length + held queue n := by
  unfold held
  rw [List.take_succ_cons,List.flatMap_cons,List.length_append]

theorem held_succ {queue : List (recv_msg_hd α)} {i : Nat} {m : recv_msg_hd α} (here : queue[i]? = some m) :
    held queue (i+1) = held queue i + m.unread.length := by
  induction queue generalizing i with
  | nil => cases here
  | cons head queue ih =>
    cases i with
    | zero =>
      obtain rfl := Option.some.inj here
      simp
    | succ i =>
      rw [held_cons,held_cons,ih here,Nat.add_assoc]

/-- What a pass over the queue does to the messages: the first ones are finished, and one with bytes to read is among them
    exactly when the room goes beyond its last byte, or just to it in a chain that ends there. -/
structure Moves (queue : List (recv_msg_hd α)) (rem_len : Int) (pass : Pass α) : Prop where
  order : pass.finished.map recv_msg_hd.stack_msg ++ pass.recv_queue.map recv_msg_hd.stack_msg =
    queue.map recv_msg_hd.stack_msg
  behind : held queue pass.finished.length ≤ pass.bytes.length
  places : ∀ j < pass.recv_queue.length,
    pass.bytes.length + held pass.recv_queue (j+1) = held queue (pass.finished.length + j + 1)
  moved : ∀ i m, queue[i]? = some m → m.unread ≠ [] → (i < pass.finished.length ↔
    (held queue (i+1) : Int) ≤ rem_len ∧ ¬((held queue (i+1) : Int) = rem_len ∧ m.stack_msg.getLast? = some []))

theorem copy_queue_moves (queue : List (recv_msg_hd α)) : ∀ {rem_len : Int} {pass : Pass α},
    (0 ≤ rem_len ∨ queue.flatMap recv_msg_hd.unread = []) → copy_queue queue rem_len = some pass →
    Moves queue rem_len pass := by
  induction queue with
  | nil =>
    intro rem_len pass _ done
    obtain rfl := Option.some.inj done
    exact ⟨rfl,le_rfl,fun j wrong => absurd wrong (Nat.not_lt_zero j),fun i m wrong => by cases wrong⟩
  | cons recv_msg next ih =>
    intro rem_len pass able done
    rw [List.flatMap_cons] at able
    have able_here : 0 ≤ rem_len ∨ recv_msg.stack_msg.flatten.drop (recv_msg.offset - 0) = [] :=
      able.imp_right (fun nothing => (List.append_eq_nil_iff.mp nothing).1)
    obtain ⟨copied,copied_done,reads⟩ := copy_pbufs_spec recv_msg.stack_msg _ _ rem_len (Nat.zero_le _) able_here
    have here : recv_msg.stack_msg.flatten.drop (recv_msg.offset - 0) = recv_msg.unread := rfl
    rw [here] at reads
    have just (positive : 0 < rem_len) (same : rem_len = recv_msg.unread.length) :
        copied.out = true ↔ recv_msg.stack_msg.getLast? = some [] :=
      copy_pbufs_out recv_msg.stack_msg (Nat.zero_le _) positive same copied_done
    have unread : ({ recv_msg with offset := copied.offset } : recv_msg_hd α).unread =
        recv_msg.unread.drop copied.bytes.length := by
      unfold recv_msg_hd.unread
      rw [reads.offset,List.drop_drop]
    have copied_length := congrArg List.length reads.bytes
    rw [List.length_take] at copied_length
    rw [copy_queue,copied_done] at done
    dsimp only at done
    by_cases out : copied.out = true
    · rw [if_pos out] at done
      obtain rfl := Option.some.inj done
      have full := reads.out out
      rw [reads.left] at full
      refine ⟨rfl,Nat.zero_le _,?_,?_⟩
      · intro j _
        dsimp only
        rw [held_cons,unread,List.length_drop,List.length_nil,Nat.zero_add,held_cons]
        omega
      · intro i m at_i some
        have bytes := List.length_pos_iff.mpr some
        refine iff_of_false (Nat.not_lt_zero i) ?_
        rintro ⟨fits,goes_on⟩
        cases i with
        | zero =>
          obtain rfl := Option.some.inj at_i
          rw [held_cons,held_zero] at fits goes_on
          exact goes_on ⟨by omega,(just (by omega) (by omega)).mp out⟩
        | succ i =>
          have later : held next (i+1) = held next i + m.unread.length := held_succ at_i
          rw [held_cons] at fits
          omega
    · rw [if_neg out] at done
      have all := reads.finished (Bool.eq_false_iff.mpr out)
      have later : 0 ≤ copied.rem_len ∨ next.flatMap recv_msg_hd.unread = [] :=
        able.imp reads.rem_nonneg (fun nothing => (List.append_eq_nil_iff.mp nothing).2)
      obtain ⟨rest,rest_done,rfl⟩ := Option.map_eq_some_iff.mp done
      have moves := ih later rest_done
      have left := reads.left
      rw [all] at left copied_length
      refine ⟨?_,?_,?_,?_⟩
      · have order := moves.order
        dsimp only
        rw [List.map_cons,List.map_cons,List.cons_append,order]
      · have behind := moves.behind
        dsimp only
        rw [List.length_cons,held_cons,List.length_append,all]
        omega
      · intro j below
        have place := moves.places j below
        dsimp only
        rw [List.length_cons,List.length_append,all,Nat.add_assoc,place,Nat.add_right_comm _ 1 j,held_cons]
      · intro i m at_i some
        have bytes := List.length_pos_iff.mpr some
        cases i with
        | zero =>
          obtain rfl := Option.some.inj at_i
          dsimp only
          rw [List.length_cons,held_cons,held_zero]
          refine iff_of_true (Nat.zero_lt_succ _) ⟨by omega,?_⟩
          rintro ⟨fits,last⟩
          exact out ((just (by omega) (by omega)).mpr last)
        | succ i =>
          dsimp only
          rw [List.length_cons,Nat.succ_lt_succ_iff,moves.moved i m at_i some,held_cons,left]
          push_cast
          refine and_congr (by omega) (not_congr (and_congr_left fun _ => by omega))

end Pass

/-! ### Sequences of calls -/

section Runs
variable {α : Type}

@[simp] theorem payload_nil : payload ([] : List (List (List α))) = [] := rfl

theorem payload_append (chains others : List (List (List α))) :
    payload (chains ++ others) = payload chains ++ payload others := by
  unfold payload
  rw [List.flatten_append,List.flatten_append]

theorem payload_cons (chain : List (List α)) (chains : List (List (List α))) :
    payload (chain :: chains) = chain.flatten ++ payload chains := by
  unfold payload
  rw [List.flatten_cons,List.flatten_append]

/-- Where the first `n` messages end. -/
def ending (chains : List (List (List α))) (n : Nat) : Nat := (payload (chains.take n)).length

theorem ending_succ {chains : List (List (List α))} {i : Nat} {chain : List (List α)} (here : chains[i]? = some chain) :
    ending chains (i+1) = ending chains i + chain.flatten.length := by
  unfold ending
  rw [List.take_add_one,here,payload_append,List.length_append,Option.toList_some,payload_cons,payload_nil,List.append_nil]

theorem ending_le (chains : List (List (List α))) (n : Nat) : ending chains n ≤ (payload chains).length := by
  have parts : (payload (chains.take n ++ chains.drop n)).length = (payload chains).length := by
    rw [List.take_append_drop]
  rw [payload_append,List.length_append] at parts
  unfold ending
  omega

theorem ending_mono {chains : List (List (List α))} {m n : Nat} (le : m ≤ n) : ending chains m ≤ ending chains n := by
  have within := ending_le (chains.take n) m
  unfold ending at *
  rwa [List.take_take,Nat.min_eq_left le] at within

/-- The places of the messages in the payload: the bytes returned and those that the first messages of the queue hold end where
    these end. -/
structure Placed (chains : List (List (List α))) (netconn : grd_netconn α) (returned : List α) : Prop where
  order : netconn.wait_free_queue.map recv_msg_hd.stack_msg ++ netconn.recv_queue.map recv_msg_hd.stack_msg = chains
  stream : returned ++ netconn.unread = payload chains
  behind : ending chains netconn.wait_free_queue.length ≤ returned.length
  places : ∀ j < netconn.recv_queue.length,
    returned.length + held netconn.recv_queue (j+1) = ending chains (netconn.wait_free_queue.length + j + 1)
  count : netconn.rx_queue_limit = netconn.recv_queue.length

/-- Every message with a byte is in the queue of those to be freed exactly when its last byte was returned. -/
def Moved (chains : List (List (List α))) (netconn : grd_netconn α) (returned : List α) : Prop :=
  ∀ i chain, chains[i]? = some chain → chain.flatten ≠ [] →
    (i < netconn.wait_free_queue.length ↔ ending chains (i+1) ≤ returned.length)

theorem Placed.reassembled {chains : List (List (List α))} {netconn : grd_netconn α} {returned : List α}
    (placed : Placed chains netconn returned) :
    Reassembled chains netconn returned ↔ Moved chains netconn returned :=
  ⟨fun right => right.moved,fun moved => ⟨⟨_,placed.stream⟩,placed.order,moved,placed.count⟩⟩

theorem held_map_fresh (chains : List (List (List α))) (n : Nat) :
    held (chains.map (fun chain => ⟨chain,0⟩)) n = ending chains n := by
  induction chains generalizing n with
  | nil => simp [held,ending]
  | cons chain chains ih =>
    cases n with
    | zero => simp [ending]
    | succ n =>
      unfold ending at *
      rw [List.map_cons,held_cons,ih,List.take_succ_cons,payload_cons,List.length_append]
      rfl

theorem received_placed (chains : List (List (List α))) : Placed chains (received chains) [] := by
  refine ⟨?_,?_,Nat.le_refl 0,?_,?_⟩
  · simp [received,Function.comp_def]
  · unfold grd_netconn.unread received payload
    induction chains with
    | nil => rfl
    | cons chain chains ih =>
      rw [List.nil_append] at ih
      rw [List.nil_append,List.map_cons,List.flatMap_cons,ih,List.flatten_cons,List.flatten_append]
      rfl
  · intro j _
    dsimp only [received]
    rw [held_map_fresh]
    simp
  · simp [received]

theorem Placed.get {chains : List (List (List α))} {netconn : grd_netconn α} {returned : List α}
    (placed : Placed chains netconn returned) (j : Nat) :
    chains[netconn.wait_free_queue.length + j]? = netconn.recv_queue[j]?.map recv_msg_hd.stack_msg := by
  rw [← placed.order,List.getElem?_append_right (by rw [List.length_map]; omega),List.length_map,Nat.add_sub_cancel_left,
    List.getElem?_map]

/-- A message that has bytes and ends behind those returned still holds some. -/
theorem Placed.holds {chains : List (List (List α))} {netconn : grd_netconn α} {returned : List α}
    (placed : Placed chains netconn returned) {j : Nat} {m : recv_msg_hd α} (here : netconn.recv_queue[j]? = some m)
    (bytes : m.stack_msg.flatten ≠ []) (later : returned.length < ending chains (netconn.wait_free_queue.length + j + 1)) :
    m.unread ≠ [] := by
  obtain ⟨below,_⟩ := List.getElem?_eq_some_iff.mp here
  have place := placed.places j below
  have total := held_succ here
  refine List.length_pos_iff.mp ?_
  cases j with
  | zero =>
    rw [held_zero] at total
    omega
  | succ j =>
    have before := placed.places j (by omega)
    have at_chains := placed.get (j+1)
    rw [here,Option.map_some] at at_chains
    have chain := ending_succ at_chains
    have some_bytes := List.length_pos_iff.mpr bytes
    rw [Nat.add_assoc] at before
    omega

/-- What one call does to the queue, in places of the payload. -/
structure Served (chains : List (List (List α))) (netconn : grd_netconn α) (returned : List α) (len : BitVec 32)
    (after : grd_netconn α) (bytes : List α) : Prop where
  placed : Placed chains after (returned ++ bytes)
  length : bytes.length = min len.toNat ((payload chains).length - returned.length)
  later : netconn.wait_free_queue.length ≤ after.wait_free_queue.length
  moved : ∀ j m, netconn.recv_queue[j]? = some m → m.unread ≠ [] →
    (netconn.wait_free_queue.length + j < after.wait_free_queue.length ↔
      ending chains (netconn.wait_free_queue.length + j + 1) ≤ returned.length + len.toNat ∧
      ¬(ending chains (netconn.wait_free_queue.length + j + 1) = returned.length + len.toNat ∧
        m.stack_msg.getLast? = some []))

theorem toInt_nonneg (len : BitVec 32) : 0 ≤ len.toInt ↔ len.toNat < 2^31 := by
  have bound := len.isLt
  rw [BitVec.toInt_eq_toNat_cond]
  split <;> omega

theorem grd_recv_call {chains : List (List (List α))} {netconn : grd_netconn α} {returned : List α} {len : BitVec 32}
    (placed : Placed chains netconn returned) (able : len.toNat < 2^31 ∨ netconn.unread = []) :
    ∃ result bytes after, grd_recv netconn len = some (result,bytes,after) ∧ bytes.length = result.toNat ∧
      Served chains netconn returned len after bytes := by
  have room : 0 ≤ len.toInt ∨ netconn.recv_queue.flatMap recv_msg_hd.unread = [] := able.imp_left (toInt_nonneg len).mpr
  have again_able : Able netconn (Call.start len false) := by
    intro negative
    exact room.resolve_left (not_le.mpr negative)
  obtain ⟨taken,call,after,again_done,again⟩ := grd_recv_again_spec (Call.start_inv len false) again_able
  obtain ⟨pass,done,reads⟩ := copy_queue_spec netconn.recv_queue room
  have moves := copy_queue_moves netconn.recv_queue room done
  have result := again.inv.result
  have returns : grd_recv netconn len = some (call.result,call.buff,after) := by rw [grd_recv,again_done]; rfl
  have rem_len : (Call.start len false : Call α).rem_len = len.toInt := rfl
  rw [grd_recv_again,rem_len,done] at again_done
  obtain ⟨rfl,rfl,rfl⟩ : pass.bytes = taken ∧ _ = call ∧ _ = after := by simpa using again_done
  have stream := congrArg List.length placed.stream
  rw [List.length_append] at stream
  have length : pass.bytes.length = min len.toNat ((payload chains).length - returned.length) := by
    have taken := congrArg List.length reads.bytes
    rw [List.length_take] at taken
    have unread : (netconn.recv_queue.flatMap recv_msg_hd.unread).length = netconn.unread.length := rfl
    rw [taken,unread]
    rcases able with small | nothing
    · have same := BitVec.toInt_eq_toNat_of_lt (x := len) (by omega)
      omega
    · rw [nothing,List.length_nil] at stream ⊢
      omega
  have counts := congrArg List.length moves.order
  rw [List.length_append,List.length_map,List.length_map,List.length_map] at counts
  refine ⟨_,pass.bytes,_,returns,result.symm,?_,length,?_,?_⟩
  · refine ⟨?_,?_,?_,?_,again.count placed.count⟩
    · rw [List.map_append,List.append_assoc,moves.order,placed.order]
    · rw [again.rest,reads.bytes,List.append_assoc]
      exact (congrArg (returned ++ ·) (List.take_append_drop ..)).trans placed.stream
    · have behind := moves.behind
      have before := placed.behind
      rw [List.length_append,List.length_append]
      cases finished : pass.finished.length with
      | zero => rw [Nat.add_zero]; omega
      | succ k =>
        have place := placed.places k (by omega)
        rw [finished] at behind
        rw [Nat.add_assoc] at place
        omega
    · intro j below
      dsimp only at below ⊢
      have place := moves.places j below
      have before := placed.places (pass.finished.length + j) (by omega)
      rw [List.length_append,List.length_append,Nat.add_assoc,place,before,Nat.add_assoc _ _ j]
  · rw [List.length_append]
    exact Nat.le_add_right ..
  · intro j m here bytes
    obtain ⟨below,_⟩ := List.getElem?_eq_some_iff.mp here
    have small : len.toNat < 2^31 := by
      refine able.resolve_right fun nothing => bytes ?_
      exact List.flatMap_eq_nil_iff.mp nothing m (List.mem_of_getElem? here)
    have same := BitVec.toInt_eq_toNat_of_lt (x := len) (by omega)
    have place := placed.places j below
    have moved := moves.moved j m here bytes
    rw [← place,List.length_append,Nat.add_lt_add_iff_left,moved,same]
    refine and_congr (by omega) (not_congr (and_congr_left fun _ => by omega))

/-- A call keeps every message where it belongs exactly when it does not end with the last byte of a message whose chain
    goes on. -/
theorem Served.moved_iff {chains : List (List (List α))} {netconn after : grd_netconn α} {returned bytes : List α}
    {len : BitVec 32} {asked : Nat} (placed : Placed chains netconn returned) (moved : Moved chains netconn returned)
    (same : returned.length = min asked (payload chains).length) (early : ¬EndsEarly chains asked)
    (served : Served chains netconn returned len after bytes) :
    Moved chains after (returned ++ bytes) ↔ ¬EndsEarly chains (asked + len.toNat) := by
  have length := served.length
  constructor
  · rintro moved_after ⟨i,chain,at_i,some_bytes,last,ends⟩
    have within : ending chains (i+1) ≤ (payload chains).length := ending_le ..
    have ends : asked + len.toNat = ending chains (i+1) := ends
    have positive : len.toNat ≠ 0 := by
      intro zero
      rw [zero,Nat.add_zero] at ends
      exact early ⟨i,chain,at_i,some_bytes,last,ends⟩
    have returned_all : ending chains (i+1) ≤ (returned ++ bytes).length := by
      rw [List.length_append]
      omega
    have gone := (moved_after i chain at_i some_bytes).mpr returned_all
    have there : ¬i < netconn.wait_free_queue.length := by
      rw [moved i chain at_i some_bytes]
      omega
    obtain ⟨j,rfl⟩ : ∃ j, i = netconn.wait_free_queue.length + j := ⟨i - netconn.wait_free_queue.length,by omega⟩
    obtain ⟨m,here,rfl⟩ := Option.map_eq_some_iff.mp ((placed.get j).symm.trans at_i)
    have holds := placed.holds here some_bytes (by omega)
    exact ((served.moved j m here holds).mp gone).2 ⟨by omega,last⟩
  · intro goes_on i chain at_i some_bytes
    constructor
    · intro gone
      exact (ending_mono gone).trans served.placed.behind
    · intro returned_all
      rw [List.length_append] at returned_all
      by_cases before : i < netconn.wait_free_queue.length
      · exact lt_of_lt_of_le before served.later
      have later := mt (moved i chain at_i some_bytes).mpr before
      have within : ending chains (i+1) ≤ (payload chains).length := ending_le ..
      obtain ⟨j,rfl⟩ : ∃ j, i = netconn.wait_free_queue.length + j := ⟨i - netconn.wait_free_queue.length,by omega⟩
      obtain ⟨m,here,rfl⟩ := Option.map_eq_some_iff.mp ((placed.get j).symm.trans at_i)
      have holds := placed.holds here some_bytes (by omega)
      refine (served.moved j m here holds).mpr ⟨by omega,?_⟩
      rintro ⟨ends,last⟩
      exact goes_on ⟨_,_,at_i,some_bytes,last,show asked + len.toNat = ending chains _ by omega⟩

theorem grd_recv_crash {netconn : grd_netconn α} {len : BitVec 32} (big : ¬len.toNat < 2^31) (some_left : netconn.unread ≠ []) :
    grd_recv netconn len = none := by
  have unable : ¬Able netconn (Call.start len false) := by
    intro able
    exact some_left (able (not_le.mp (mt (toInt_nonneg len).mp big)))
  rw [grd_recv,grd_recv_again_crash (Call.start_inv len false) unable]
  rfl

/-! ### Every sequence of calls -/

theorem calls_snoc (chains : List (List (List α))) (before : List (BitVec 32)) (len : BitVec 32) :
    calls chains (before ++ [len]) = (calls chains before).bind (next · len) := List.foldl_concat ..

theorem asked_snoc (before : List (BitVec 32)) (len : BitVec 32) : asked (before ++ [len]) = asked before + len.toNat := by
  simp [asked]

/-- The calls have gone on so far, each message is where it belongs, and no call has ended early. -/
structure Good (chains : List (List (List α))) (before : List (BitVec 32)) (netconn : grd_netconn α) (returned : List α) :
    Prop where
  done : calls chains before = some (netconn,returned)
  placed : Placed chains netconn returned
  moved : Moved chains netconn returned
  same : returned.length = min (asked before) (payload chains).length
  early : ¬EndsEarly chains (asked before)

theorem good_nil (chains : List (List (List α))) : Good chains [] (received chains) [] := by
  have some_end {i : Nat} {chain : List (List α)} (at_i : chains[i]? = some chain) (bytes : chain.flatten ≠ []) :
      0 < ending chains (i+1) := by
    have length := ending_succ at_i
    have positive := List.length_pos_iff.mpr bytes
    omega
  refine ⟨rfl,received_placed chains,?_,(Nat.zero_min _).symm,?_⟩
  · intro i chain at_i bytes
    refine iff_of_false (Nat.not_lt_zero i) ?_
    rw [List.length_nil]
    exact not_le.mpr (some_end at_i bytes)
  · rintro ⟨i,chain,at_i,bytes,_,ends⟩
    exact absurd ends (Nat.ne_of_lt (some_end at_i bytes))

/-- A call after good ones is right, and leaves the messages where they belong, exactly when it meets the condition. -/
theorem Good.step {chains : List (List (List α))} {before : List (BitVec 32)} {netconn : grd_netconn α} {returned : List α}
    (good : Good chains before netconn returned) (len : BitVec 32) :
    (Careful chains before len →
      Returns chains netconn returned len ∧ ∃ after bytes, Good chains (before ++ [len]) after (returned ++ bytes)) ∧
    ((∃ after all, calls chains (before ++ [len]) = some (after,all) ∧ Reassembled chains after all) →
      Careful chains before len) := by
  have stream := congrArg List.length good.placed.stream
  have same := good.same
  rw [List.length_append] at stream
  have left : netconn.unread = [] ↔ (payload chains).length ≤ asked before := by
    rw [← List.length_eq_zero_iff]
    omega
  have able_spec (able : len.toNat < 2^31 ∨ netconn.unread = []) : ∃ after bytes,
      calls chains (before ++ [len]) = some (after,returned ++ bytes) ∧ Served chains netconn returned len after bytes ∧
        Returns chains netconn returned len := by
    obtain ⟨result,bytes,after,done,count,served⟩ := grd_recv_call good.placed able
    refine ⟨after,bytes,?_,served,result,bytes,after,done,count,count.symm.trans served.length⟩
    rw [calls_snoc,good.done,Option.bind_some,next,done]
    rfl
  constructor
  · rintro ⟨able,early⟩
    obtain ⟨after,bytes,done,served,returns⟩ := able_spec (able.imp_right left.mpr)
    have length := served.length
    refine ⟨returns,after,bytes,done,served.placed,?_,?_,?_⟩
    · exact (served.moved_iff good.placed good.moved good.same good.early).mpr early
    · rw [asked_snoc,List.length_append]
      omega
    · rwa [asked_snoc]
  · rintro ⟨after,all,done,right⟩
    have able : len.toNat < 2^31 ∨ netconn.unread = [] := by
      by_contra unable
      push Not at unable
      rw [calls_snoc,good.done,Option.bind_some,next,grd_recv_crash (not_lt.mpr unable.1) unable.2] at done
      cases done
    obtain ⟨after',bytes,done',served,_⟩ := able_spec able
    obtain ⟨rfl,rfl⟩ := Prod.mk.inj (Option.some.inj (done.symm.trans done'))
    exact ⟨able.imp_right left.mp,
      (served.moved_iff good.placed good.moved good.same good.early).mp (served.placed.reassembled.mp right)⟩

/-- Calls that meet the condition behind good ones are good. -/
theorem good_before {chains : List (List (List α))} {lens : List (BitVec 32)} (careful : ∀ before len netconn returned,
    before ++ [len] <+: lens → Good chains before netconn returned → Careful chains before len)
    (before : List (BitVec 32)) (starts : before <+: lens) : ∃ netconn returned, Good chains before netconn returned := by
  induction before using List.reverseRecOn with
  | nil => exact ⟨_,_,good_nil chains⟩
  | append_singleton before len ih =>
    obtain ⟨netconn,returned,good⟩ := ih ((List.prefix_append ..).trans starts)
    obtain ⟨_,_,_,next⟩ := (good.step len).1 (careful before len netconn returned starts good)
    exact ⟨_,_,next⟩

/-- The calls take the chains apart as they should exactly when each of them meets the condition. -/
theorem reassembly_iff (chains : List (List (List α))) (lens : List (BitVec 32)) :
    Right chains lens ↔ ∀ before len, before ++ [len] <+: lens → Careful chains before len := by
  constructor
  · intro right
    have careful (before : List (BitVec 32)) (len : BitVec 32) (netconn : grd_netconn α) (returned : List α)
        (starts : before ++ [len] <+: lens) (good : Good chains before netconn returned) : Careful chains before len := by
      obtain ⟨after,all,done,right,_⟩ := right _ starts
      exact (good.step len).2 ⟨after,all,done,right⟩
    intro before len starts
    obtain ⟨netconn,returned,good⟩ := good_before careful before ((List.prefix_append ..).trans starts)
    exact careful before len netconn returned starts good
  · intro careful before starts
    obtain ⟨netconn,returned,good⟩ := good_before (fun before len _ _ starts _ => careful before len starts) before starts
    refine ⟨netconn,returned,good.done,good.placed.reassembled.mpr good.moved,?_⟩
    intro len more
    exact ((good.step len).1 (careful before len more)).1

/-- A message that ends in an empty buffer stays in the queue when its last byte was returned, and a call for `2^31` bytes
    runs out of the buffer. -/
theorem empty_buffer_stays : ¬Right [[[1,2],[]]] [2#32] ∧ ¬Right [[[1,2]]] [2147483648#32] := by
  constructor
  · intro right
    obtain ⟨netconn,returned,done,reassembled,_⟩ := right [2#32] List.prefix_rfl
    have run : calls [[[1,2],[]]] [2#32] = some (⟨[⟨[[1,2],[]],2⟩],[],1,false⟩,[1,2]) := rfl
    obtain ⟨rfl,rfl⟩ := Prod.mk.inj (Option.some.inj (run.symm.trans done))
    exact absurd ((reassembled.moved 0 [[1,2],[]] rfl (by decide)).mpr (by decide)) (by decide)
  · intro right
    obtain ⟨netconn,returned,done,_⟩ := right [2147483648#32] List.prefix_rfl
    cases done

end Runs

end GridOS.RecvStream
