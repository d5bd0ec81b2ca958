import Mathlib.Tactic

/-!
The receiving side of a TCP connection: the callback `tcp_recved_fn` of the stack thread and the callers of
`grd_recv` share a queue of messages and its counter under the lock of the connection. A byte is any `α`, a
message is a chain of buffers, and a blocking call may go through the queue several times with other calls
and segments in between.
-/
namespace GridOS.TcpRecv

def NETCONN_MAX_RX_QUEUE : Int := 10

structure recv_msg_hd (α : Type) where
  stack_msg : List (List α)
  offset : Nat

/-- What the two sides share. The lock is `true` while it is taken. -/
structure grd_netconn (α : Type) where
  recv_queue : List (recv_msg_hd α)
  wait_free_queue : List (recv_msg_hd α)
  rx_queue_limit : Int
  netconn_lock : Bool

section Code
variable {α : Type}

/-- The bytes of a message that were not read yet. -/
def recv_msg_hd.unread (m : recv_msg_hd α) : List α := m.stack_msg.flatten.drop m.offset

def grd_netconn.unread (netconn : grd_netconn α) : List α := netconn.recv_queue.flatMap recv_msg_hd.unread

inductive Err
  | ERR_OK
  | ERR_MEM
deriving DecidableEq

/-- What `tcp_recved_fn` answers, the bytes it acknowledges, and the connection after it. Without an answer it spins
    on the lock that it holds. -/
def tcp_recved_fn (netconn : grd_netconn α) (p : List (List α)) (memory : Bool) :
    Option Err × List α × grd_netconn α :=
  if netconn.rx_queue_limit = NETCONN_MAX_RX_QUEUE then (none,[],{ netconn with netconn_lock := true }) else
  if memory then
    (some .ERR_OK,p.flatten,
      { netconn with recv_queue := netconn.recv_queue ++ [⟨p,0⟩]
                     rx_queue_limit := netconn.rx_queue_limit + 1
                     wait_free_queue := [] })
  else (some .ERR_MEM,[],netconn)

/-- What the loop over the buffers of a message leaves: whether it went to `out`, what is left of `rem_len`, the
    offset and the bytes that it copied. -/
structure Copied (α : Type) where
  out : Bool
  rem_len : Int
  offset : Nat
  bytes : List α

/-- The loop over the buffers of a message. The length of a `memcpy` is unsigned: with a negative one it runs out of
    both buffers. -/
def copy_pbufs : List (List α) → (total_len offset : Nat) → (rem_len : Int) → Option (Copied α)
  | [], _, offset, rem_len => some ⟨false,rem_len,offset,[]⟩
  | temp :: next, total_len, offset, rem_len =>
    if rem_len = 0 then some ⟨true,rem_len,offset,[]⟩ else
    let total_len := total_len + temp.length
    if offset < total_len then
      let copy_len := if rem_len > (total_len - offset : Nat) then ((total_len - offset : Nat) : Int) else rem_len
      if copy_len < 0 then none else
      let bytes := (temp.drop (temp.length - (total_len - offset))).take copy_len.toNat
      let offset := offset + copy_len.toNat
      if offset < total_len then some ⟨true,rem_len - copy_len,offset,bytes⟩ else
      (copy_pbufs next total_len offset (rem_len - copy_len)).map
        (fun rest => { rest with bytes := bytes ++ rest.bytes })
    else copy_pbufs next total_len offset rem_len

/-- What the loop over the queue leaves: the messages that stay, those that are finished, what is left of `rem_len`
    and the bytes that it copied. -/
structure Pass (α : Type) where
  recv_queue : List (recv_msg_hd α)
  finished : List (recv_msg_hd α)
  rem_len : Int
  bytes : List α

def copy_queue : List (recv_msg_hd α) → Int → Option (Pass α)
  | [], rem_len => some ⟨[],[],rem_len,[]⟩
  | recv_msg :: next, rem_len =>
    match copy_pbufs recv_msg.stack_msg 0 recv_msg.offset rem_len with
    | none => none
    | some copied =>
      let recv_msg := { recv_msg with offset := copied.offset }
      if copied.out then some ⟨recv_msg :: next,[],copied.rem_len,copied.bytes⟩ else
      (copy_queue next copied.rem_len).map
        (fun pass => { pass with finished := recv_msg :: pass.finished, bytes := copied.bytes ++ pass.bytes })

/-- A call of `grd_recv` under way, with what it has written to the buffer. -/
structure Call (α : Type) where
  len : BitVec 32
  block : Bool
  rem_len : Int
  buff : List α

/-- The locals when the call begins. -/
def Call.start (len : BitVec 32) (block : Bool) : Call α := ⟨len,block,len.toInt,[]⟩

/-- Whether the call has to wait and go through the queue again. -/
def Call.waits (call : Call α) : Prop := call.block = true ∧ call.rem_len ≠ 0

instance (call : Call α) : Decidable call.waits := inferInstanceAs (Decidable (_ ∧ _))

/-- What the call returns when it does not wait. -/
def Call.result (call : Call α) : BitVec 32 := call.len - BitVec.ofInt 32 call.rem_len

/-- `grd_recv` from the label `again` to the unlock: the bytes that are copied, the call and the connection. -/
def grd_recv_again (netconn : grd_netconn α) (call : Call α) : Option (List α × Call α × grd_netconn α) :=
  (copy_queue netconn.recv_queue call.rem_len).map (fun pass =>
    (pass.bytes,{ call with rem_len := pass.rem_len, buff := call.buff ++ pass.bytes },
      { netconn with recv_queue := pass.recv_queue
                     wait_free_queue := netconn.wait_free_queue ++ pass.finished
                     rx_queue_limit := netconn.rx_queue_limit - pass.finished.length }))

end Code

/-! ### Runs -/

/-- What happens: the stack hands over a segment, a caller begins `grd_recv`, and one that waits goes on. -/
inductive Op (τ α : Type)
  | segment (p : List (List α)) (memory : Bool)
  | recv (who : τ) (len : BitVec 32) (block : Bool)
  | again (who : τ)

/-- The connection, the calls that wait, the bytes that were acknowledged and those that calls have taken, in the order
    in which they took them. A process that ran out of a buffer is `crashed`. -/
structure System (τ α : Type) where
  netconn : grd_netconn α
  waiting : τ → Option (Call α)
  acknowledged : List α
  taken : List α
  crashed : Bool

section Steps
variable {τ α : Type} [DecidableEq τ]

/-- Nothing goes on without the lock or the process. -/
def System.stuck (s : System τ α) : Prop := s.netconn.netconn_lock = true ∨ s.crashed = true

instance (s : System τ α) : Decidable s.stuck := inferInstanceAs (Decidable (_ ∨ _))

/-- A call takes the lock and goes through the queue once. -/
def pass (s : System τ α) (who : τ) (call : Call α) : System τ α :=
  match grd_recv_again s.netconn call with
  | none => { s with crashed := true }
  | some (bytes,call,netconn) =>
    { s with netconn
             waiting := Function.update s.waiting who (if call.waits then some call else none)
             taken := s.taken ++ bytes }

def step (s : System τ α) (op : Op τ α) : System τ α :=
  if s.stuck then s else
  match op with
  | .segment p memory =>
    let answer := tcp_recved_fn s.netconn p memory
    { s with netconn := answer.2.2, acknowledged := s.acknowledged ++ answer.2.1 }
  | .recv who len block =>
    match s.waiting who with
    | some _ => s
    | none => pass s who (Call.start len block)
  | .again who =>
    match s.waiting who with
    | some call => pass s who call
    | none => s

/-- A connection just made. -/
def start : System τ α := ⟨⟨[],[],0,false⟩,fun _ => none,[],[],false⟩

def run (ops : List (Op τ α)) : System τ α := ops.foldl step start

/-- The lock is free, the bytes taken and those that still wait in the queue are the acknowledged ones, and only
    messages that were read to their end wait to be freed. -/
structure Sound (s : System τ α) : Prop where
  lock_free : s.netconn.netconn_lock = false
  alive : s.crashed = false
  stream : s.taken ++ s.netconn.unread = s.acknowledged
  finished : ∀ m ∈ s.netconn.wait_free_queue, m.unread = []

/-- What a pass of a call does: it takes the next bytes, as many as are there and wanted, all that were acknowledged are
    taken when it asked for enough, and a call that returns reports as many bytes as it has written. -/
structure RightPass (s : System τ α) (who : τ) (call : Call α) : Prop where
  taken : (pass s who call).taken = s.taken ++ s.netconn.unread.take call.rem_len.toNat
  enough : s.netconn.unread.length ≤ call.rem_len → (pass s who call).taken = (pass s who call).acknowledged
  returns : ∃ bytes call' netconn, grd_recv_again s.netconn call = some (bytes,call',netconn) ∧
    call'.buff = call.buff ++ s.netconn.unread.take call.rem_len.toNat ∧ call'.result.toNat = call'.buff.length

/-- A segment is acknowledged, and goes to the end of the queue, exactly when the callback answers `ERR_OK`. -/
def Right (s : System τ α) : Op τ α → Prop
  | .segment p memory => ∃ err bytes netconn, tcp_recved_fn s.netconn p memory = (some err,bytes,netconn) ∧
      netconn.netconn_lock = false ∧ netconn.unread = s.netconn.unread ++ bytes ∧
      bytes = if err = .ERR_OK then p.flatten else []
  | .recv who len block => s.waiting who = none → RightPass s who (Call.start len block)
  | .again who => ∀ call, s.waiting who = some call → RightPass s who call

/-- A segment finds fewer than ten messages in the queue, and a call that asks for `2^31` bytes or more finds none to
    read. -/
def Careful (s : System τ α) : Op τ α → Prop
  | .segment _ _ => s.netconn.recv_queue.length ≠ 10
  | .recv who len _ => s.waiting who = none → len.toInt < 0 → s.netconn.unread = []
  | .again who => ∀ call, s.waiting who = some call → call.len.toInt < 0 → s.netconn.unread = []

end Steps

/-! ### The copy -/

section Proofs
variable {α : Type}

/-- The loop over the buffers of a message copies the next bytes from the offset on, as many as fit; it goes to `out` with a
    full buffer, and else the message is finished. -/
structure Reads (unread : List α) (offset : Nat) (rem_len : Int) (copied : Copied α) : Prop where
  bytes : copied.bytes = unread.take rem_len.toNat
  left : copied.rem_len = rem_len - copied.bytes.length
  offset : copied.offset = offset + copied.bytes.length
  out : copied.out = true → copied.rem_len = 0
  finished : copied.out = false → copied.bytes = unread

/-- What is left of the chain behind a buffer that was read. -/
theorem unread_skip {temp : List α} {next : List (List α)} {total_len offset : Nat} (behind : total_len + temp.length ≤ offset) :
    (temp :: next).flatten.drop (offset - total_len) = next.flatten.drop (offset - (total_len + temp.length)) := by
  rw [List.flatten_cons,List.drop_append,List.drop_eq_nil_of_le (by omega),List.nil_append,Nat.sub_sub]

/-- What is left of the chain from a buffer on that was read in part. -/
theorem unread_split {temp : List α} {next : List (List α)} {total_len offset : Nat} (behind : total_len ≤ offset)
    (inside : offset < total_len + temp.length) : (temp :: next).flatten.drop (offset - total_len) =
      temp.drop (temp.length - (total_len + temp.length - offset)) ++ next.flatten := by
  rw [List.flatten_cons,List.drop_append_of_le_length (by omega)]
  congr 2
  omega

/-- The room ends within a buffer. -/
theorem reads_part {here rest : List α} {offset : Nat} {rem_len : Int} (positive : 0 ≤ rem_len)
    (short : rem_len ≤ here.length) :
    Reads (here ++ rest) offset rem_len ⟨true,rem_len - rem_len,offset + rem_len.toNat,here.take rem_len.toNat⟩ := by
  have length : (here.take rem_len.toNat).length = rem_len.toNat := List.length_take_of_le (by omega)
  refine ⟨?_,?_,?_,fun _ => sub_self rem_len,fun wrong => Bool.noConfusion wrong⟩
  · rw [List.take_append_of_le_length (by omega)]
  · dsimp only
    rw [length]
    omega
  · rw [length]

/-- A buffer is read to its end, and the chain behind it further. -/
theorem Reads.behind {here rest : List α} {offset : Nat} {rem_len : Int} {copied : Copied α}
    (fits : here.length ≤ rem_len) (reads : Reads rest (offset + here.length) (rem_len - here.length) copied) :
    Reads (here ++ rest) offset rem_len { copied with bytes := here ++ copied.bytes } := by
  refine ⟨?_,?_,?_,reads.out,?_⟩
  · dsimp only
    rw [reads.bytes,List.take_append,List.take_of_length_le (l := here) (by omega)]
    congr 2
    omega
  · have left := reads.left
    dsimp only
    rw [List.length_append]
    omega
  · have moved := reads.offset
    dsimp only
    rw [List.length_append]
    omega
  · intro finished
    dsimp only
    rw [reads.finished finished]

theorem copy_pbufs_spec (pbufs : List (List α)) : ∀ (total_len offset : Nat) (rem_len : Int), total_len ≤ offset →
    (0 ≤ rem_len ∨ pbufs.flatten.drop (offset - total_len) = []) →
    ∃ copied, copy_pbufs pbufs total_len offset rem_len = some copied ∧
      Reads (pbufs.flatten.drop (offset - total_len)) offset rem_len copied := by
  induction pbufs with
  | nil =>
    intro total_len offset rem_len _ _
    exact ⟨_,rfl,⟨by simp,by simp,by simp,fun wrong => (by cases wrong),fun _ => by simp⟩⟩
  | cons temp next ih =>
    intro total_len offset rem_len behind able
    rw [copy_pbufs]
    by_cases full : rem_len = 0
    · rw [if_pos full]
      exact ⟨_,rfl,⟨by simp [full],by simp,by simp,fun _ => full,fun wrong => by cases wrong⟩⟩
    rw [if_neg full]
    dsimp only
    by_cases inside : offset < total_len + temp.length
    · rw [if_pos inside,unread_split behind inside]
      rw [unread_split behind inside] at able
      set here := temp.drop (temp.length - (total_len + temp.length - offset)) with here_eq
      have length : here.length = total_len + temp.length - offset := by
        rw [here_eq,List.length_drop]
        omega
      have positive : 0 < rem_len := by
        rcases able with positive | nothing
        · omega
        · have none := congrArg List.length nothing
          rw [List.length_append,List.length_nil] at none
          omega
      rw [← length]
      by_cases short : rem_len < here.length
      · have copy_len : (if rem_len > here.length then (here.length : Int) else rem_len) = rem_len := if_neg (by omega)
        rw [copy_len,if_neg (by omega),if_pos (by omega)]
        exact ⟨_,rfl,reads_part positive.le short.le⟩
      · have copy_len : (if rem_len > here.length then (here.length : Int) else rem_len) = here.length := by
          split
          · rfl
          · omega
        rw [copy_len,if_neg (by omega),Int.toNat_natCast,List.take_length,if_neg (by omega)]
        obtain ⟨copied,done,reads⟩ := ih (total_len + temp.length) (offset + here.length)
          (rem_len - here.length) (by omega) (.inl (by omega))
        have rest : offset + here.length - (total_len + temp.length) = 0 := by omega
        rw [rest,List.drop_zero] at reads
        rw [done]
        exact ⟨_,rfl,reads.behind (by omega)⟩
    · rw [if_neg inside]
      rw [unread_skip (by omega)] at able ⊢
      exact ih _ _ _ (by omega) able

theorem Reads.rem_nonneg {unread : List α} {offset : Nat} {rem_len : Int} {copied : Copied α}
    (reads : Reads unread offset rem_len copied) (positive : 0 ≤ rem_len) : 0 ≤ copied.rem_len := by
  rw [reads.left,reads.bytes,List.length_take]
  omega

/-- With a negative length nothing may be left to copy. -/
theorem copy_pbufs_negative (pbufs : List (List α)) : ∀ {total_len offset : Nat} {rem_len : Int}, total_len ≤ offset →
    rem_len < 0 → pbufs.flatten.drop (offset - total_len) ≠ [] → copy_pbufs pbufs total_len offset rem_len = none := by
  induction pbufs with
  | nil =>
    intro total_len offset rem_len _ _ some
    exact absurd List.drop_nil some
  | cons temp next ih =>
    intro total_len offset rem_len behind negative some
    rw [copy_pbufs,if_neg (by omega)]
    dsimp only
    by_cases inside : offset < total_len + temp.length
    · have copy_len : (if rem_len > ((total_len + temp.length - offset : Nat) : Int) then
          ((total_len + temp.length - offset : Nat) : Int) else rem_len) = rem_len := if_neg (by omega)
      rw [if_pos inside,copy_len,if_pos negative]
    · rw [if_neg inside]
      rw [unread_skip (by omega)] at some
      exact ih (by omega) negative some

/-- The loop over the queue copies the next bytes, as many as fit, and finishes the messages that it reads to their
    end. -/
structure ReadsQueue (queue : List (recv_msg_hd α)) (rem_len : Int) (pass : Pass α) : Prop where
  bytes : pass.bytes = (queue.flatMap recv_msg_hd.unread).take rem_len.toNat
  left : pass.rem_len = rem_len - pass.bytes.length
  rest : pass.recv_queue.flatMap recv_msg_hd.unread = (queue.flatMap recv_msg_hd.unread).drop rem_len.toNat
  finished : ∀ m ∈ pass.finished, m.unread = []
  count : pass.finished.length + pass.recv_queue.length = queue.length

theorem copy_queue_spec (queue : List (recv_msg_hd α)) : ∀ {rem_len : Int},
    (0 ≤ rem_len ∨ queue.flatMap recv_msg_hd.unread = []) →
    ∃ pass, copy_queue queue rem_len = some pass ∧ ReadsQueue queue rem_len pass := by
  induction queue with
  | nil =>
    intro rem_len _
    exact ⟨_,rfl,⟨by simp,by simp,by simp,fun m wrong => (by cases wrong),rfl⟩⟩
  | cons recv_msg next ih =>
    intro rem_len able
    rw [List.flatMap_cons] at able
    have able_here : 0 ≤ rem_len ∨ recv_msg.stack_msg.flatten.drop (recv_msg.offset - 0) = [] :=
      able.imp_right (fun nothing => (List.append_eq_nil_iff.mp nothing).1)
    obtain ⟨copied,done,reads⟩ := copy_pbufs_spec recv_msg.stack_msg _ _ rem_len (Nat.zero_le _) able_here
    have here : recv_msg.stack_msg.flatten.drop (recv_msg.offset - 0) = recv_msg.unread := rfl
    rw [here] at reads
    have unread : ({ recv_msg with offset := copied.offset } : recv_msg_hd α).unread =
        recv_msg.unread.drop copied.bytes.length := by
      unfold recv_msg_hd.unread
      rw [reads.offset,List.drop_drop]
    rw [copy_queue,done]
    dsimp only
    by_cases out : copied.out = true
    · rw [if_pos out]
      -- the buffer is full, and the rest of the message stays in the queue
      have length : copied.bytes.length = rem_len.toNat := by
        have full := reads.out out
        rw [reads.left] at full
        omega
      have fits : rem_len.toNat ≤ recv_msg.unread.length := by
        rw [← length,reads.bytes,List.length_take]
        exact Nat.min_le_right ..
      refine ⟨_,rfl,⟨?_,reads.left,?_,fun m wrong => (by cases wrong),Nat.zero_add _⟩⟩
      · rw [List.flatMap_cons,List.take_append_of_le_length fits]
        exact reads.bytes
      · dsimp only
        rw [List.flatMap_cons,List.flatMap_cons,unread,length,List.drop_append_of_le_length fits]
    · rw [if_neg out]
      have bytes := reads.finished (Bool.eq_false_iff.mpr out)
      have later : 0 ≤ copied.rem_len ∨ next.flatMap recv_msg_hd.unread = [] :=
        able.imp reads.rem_nonneg (fun nothing => (List.append_eq_nil_iff.mp nothing).2)
      have length : recv_msg.unread.length ≤ rem_len.toNat := by
        rw [← bytes,reads.bytes]
        exact List.length_take_le _ _
      have room : copied.rem_len.toNat = rem_len.toNat - recv_msg.unread.length := by
        rw [reads.left,bytes]
        omega
      obtain ⟨pass,rest_done,rest⟩ := ih later
      rw [rest_done]
      refine ⟨_,rfl,⟨?_,?_,?_,?_,?_⟩⟩
      · dsimp only
        rw [rest.bytes,room,bytes,List.flatMap_cons,List.take_append,List.take_of_length_le (l := recv_msg.unread) length]
      · have left := rest.left
        rw [reads.left] at left
        dsimp only
        rw [left,List.length_append]
        omega
      · dsimp only
        rw [rest.rest,room,List.flatMap_cons,List.drop_append,List.drop_eq_nil_of_le length,List.nil_append]
      · intro m finished
        rcases List.mem_cons.mp finished with rfl | later
        · rw [unread,bytes,List.drop_length]
        · exact rest.finished m later
      · have count := rest.count
        simp only [List.length_cons]
        omega

/-- With a negative length nothing may be left to copy in the whole queue. -/
theorem copy_queue_negative (queue : List (recv_msg_hd α)) {rem_len : Int} (negative : rem_len < 0)
    (some : queue.flatMap recv_msg_hd.unread ≠ []) : copy_queue queue rem_len = none := by
  induction queue with
  | nil => exact absurd rfl some
  | cons recv_msg next ih =>
    rw [copy_queue]
    by_cases here : recv_msg.stack_msg.flatten.drop (recv_msg.offset - 0) = []
    · obtain ⟨copied,done,reads⟩ := copy_pbufs_spec recv_msg.stack_msg _ _ rem_len (Nat.zero_le _) (.inr here)
      have same : copied.rem_len = rem_len := by
        rw [reads.left,reads.bytes,here]
        simp
      have out : copied.out ≠ true := by
        intro out
        have zero := reads.out out
        omega
      have later : next.flatMap recv_msg_hd.unread ≠ [] := by
        intro nothing
        exact some (by rw [List.flatMap_cons,nothing,List.append_nil]; exact here)
      rw [done]
      dsimp only
      rw [if_neg out,same,ih later]
      rfl
    · rw [copy_pbufs_negative recv_msg.stack_msg (Nat.zero_le _) negative here]

/-! ### One call -/

/-- What is left of the length of a call, and that nothing is written with a negative length. -/
structure Call.Inv (call : Call α) : Prop where
  left : call.rem_len = call.len.toInt - call.buff.length
  positive : 0 ≤ call.len.toInt → 0 ≤ call.rem_len
  negative : call.len.toInt < 0 → call.buff = []

theorem Call.start_inv (len : BitVec 32) (block : Bool) : (Call.start len block : Call α).Inv :=
  ⟨(Int.sub_zero _).symm,id,fun _ => rfl⟩

theorem Call.Inv.result {call : Call α} (inv : call.Inv) : call.result.toNat = call.buff.length := by
  unfold Call.result
  by_cases positive : 0 ≤ call.len.toInt
  · have left := inv.left
    have rest := inv.positive positive
    have bound := call.len.isLt
    have unsigned : call.len.toInt = call.len.toNat := by
      rw [BitVec.toInt_eq_toNat_cond] at positive ⊢
      split
      · rfl
      · next big => rw [if_neg big] at positive; omega
    obtain ⟨room,same⟩ := Int.eq_ofNat_of_zero_le rest
    rw [same,BitVec.ofInt_natCast,BitVec.toNat_sub,BitVec.toNat_ofNat]
    omega
  · have negative := inv.negative (by omega)
    have left := inv.left
    rw [negative,List.length_nil,Int.natCast_zero,Int.sub_zero] at left
    rw [left,BitVec.ofInt_toInt,BitVec.sub_self,negative]
    rfl

/-- A call can go through the queue when it has room or nothing is there. -/
def Able (netconn : grd_netconn α) (call : Call α) : Prop := call.len.toInt < 0 → netconn.unread = []

/-- What going through the queue once leaves. -/
structure Again (netconn : grd_netconn α) (call : Call α) (bytes : List α) (call' : Call α)
    (netconn' : grd_netconn α) : Prop where
  taken : bytes = netconn.unread.take call.rem_len.toNat
  inv : call'.Inv
  buff : call'.buff = call.buff ++ bytes
  rest : netconn'.unread = netconn.unread.drop call.rem_len.toNat
  finished : (∀ m ∈ netconn.wait_free_queue, m.unread = []) → ∀ m ∈ netconn'.wait_free_queue, m.unread = []
  count : netconn.rx_queue_limit = netconn.recv_queue.length → netconn'.rx_queue_limit = netconn'.recv_queue.length
  lock : netconn'.netconn_lock = netconn.netconn_lock

theorem grd_recv_again_spec {netconn : grd_netconn α} {call : Call α} (inv : call.Inv) (able : Able netconn call) :
    ∃ bytes call' netconn', grd_recv_again netconn call = some (bytes,call',netconn') ∧
      Again netconn call bytes call' netconn' := by
  have room : 0 ≤ call.rem_len ∨ netconn.recv_queue.flatMap recv_msg_hd.unread = [] := by
    by_cases positive : 0 ≤ call.len.toInt
    · exact .inl (inv.positive positive)
    · exact .inr (able (by omega))
  obtain ⟨pass,done,reads⟩ := copy_queue_spec netconn.recv_queue room
  have bytes : pass.bytes = netconn.unread.take call.rem_len.toNat := reads.bytes
  unfold grd_recv_again
  rw [done]
  refine ⟨_,_,_,rfl,bytes,⟨?_,?_,?_⟩,rfl,reads.rest,?_,?_,rfl⟩
  · have left := reads.left
    have before := inv.left
    dsimp only
    rw [List.length_append]
    omega
  · intro positive
    have before := inv.positive positive
    have left := reads.left
    have fits := congrArg List.length bytes
    rw [List.length_take] at fits
    dsimp only
    omega
  · intro negative
    dsimp only
    rw [inv.negative negative,bytes,able negative,List.take_nil,List.append_nil]
  · intro before m member
    rcases List.mem_append.mp member with old | new
    · exact before m old
    · exact reads.finished m new
  · intro count
    have length := reads.count
    dsimp only
    omega

/-- A call that asks for too much runs out of the buffer when there is something to read. -/
theorem grd_recv_again_crash {netconn : grd_netconn α} {call : Call α} (inv : call.Inv) (unable : ¬Able netconn call) :
    grd_recv_again netconn call = none := by
  unfold Able at unable
  push Not at unable
  obtain ⟨negative,some⟩ := unable
  have rem_len : call.rem_len < 0 := by
    have left := inv.left
    rw [inv.negative negative,List.length_nil] at left
    omega
  unfold grd_recv_again
  rw [copy_queue_negative netconn.recv_queue rem_len some]
  rfl

/-- What a call of the callback leaves; `full` says that it found ten messages. -/
structure Answer (netconn : grd_netconn α) (p : List (List α)) (full : Prop)
    (answer : Option Err × List α × grd_netconn α) : Prop where
  rest : answer.2.2.unread = netconn.unread ++ answer.2.1
  finished : (∀ m ∈ netconn.wait_free_queue, m.unread = []) → ∀ m ∈ answer.2.2.wait_free_queue, m.unread = []
  count : netconn.rx_queue_limit = netconn.recv_queue.length → answer.2.2.rx_queue_limit = answer.2.2.recv_queue.length
  spins : full → answer.2.2.netconn_lock = true
  answers : ¬full → answer.2.2.netconn_lock = netconn.netconn_lock ∧
    ∃ err, answer.1 = some err ∧ answer.2.1 = if err = .ERR_OK then p.flatten else []

theorem tcp_recved_fn_spec (netconn : grd_netconn α) (p : List (List α)) (memory : Bool) :
    Answer netconn p (netconn.rx_queue_limit = NETCONN_MAX_RX_QUEUE) (tcp_recved_fn netconn p memory) := by
  unfold tcp_recved_fn
  by_cases full : netconn.rx_queue_limit = NETCONN_MAX_RX_QUEUE
  · rw [if_pos full]
    exact ⟨(List.append_nil _).symm,id,id,fun _ => rfl,fun free => absurd full free⟩
  · rw [if_neg full]
    cases memory with
    | true =>
      refine ⟨?_,fun _ m wrong => (by cases wrong),?_,fun wrong => absurd wrong full,fun _ => ⟨rfl,_,rfl,rfl⟩⟩
      · unfold grd_netconn.unread
        simp [recv_msg_hd.unread]
      · intro count
        simp [count]
    | false => exact ⟨(List.append_nil _).symm,id,id,fun wrong => absurd wrong full,fun _ => ⟨rfl,_,rfl,rfl⟩⟩

end Proofs

/-! ### Every run -/

section Runs
variable {τ α : Type} [DecidableEq τ] {s : System τ α}

/-- The counter counts the messages, and the bytes taken and unread are the acknowledged ones. -/
structure Inv (s : System τ α) : Prop where
  count : s.netconn.rx_queue_limit = s.netconn.recv_queue.length
  calls : ∀ who call, s.waiting who = some call → call.Inv
  stream : s.taken ++ s.netconn.unread = s.acknowledged
  finished : ∀ m ∈ s.netconn.wait_free_queue, m.unread = []

omit [DecidableEq τ] in
theorem Inv.sound (inv : Inv s) (goes : ¬s.stuck) : Sound s where
  lock_free := Bool.eq_false_iff.mpr (fun taken => goes (.inl taken))
  alive := Bool.eq_false_iff.mpr (fun crashed => goes (.inr crashed))
  stream := inv.stream
  finished := inv.finished

omit [DecidableEq τ] in
theorem Sound.goes (sound : Sound s) : ¬s.stuck := by
  rintro (taken | crashed)
  · exact Bool.noConfusion (sound.lock_free.symm.trans taken)
  · exact Bool.noConfusion (sound.alive.symm.trans crashed)

theorem pass_inv (inv : Inv s) (who : τ) {call : Call α} (begun : call.Inv) : Inv (pass s who call) := by
  unfold pass
  by_cases able : Able s.netconn call
  · obtain ⟨bytes,call',netconn,done,again⟩ := grd_recv_again_spec begun able
    rw [done]
    refine ⟨again.count inv.count,?_,?_,again.finished inv.finished⟩
    · intro other waiting here
      dsimp only at here
      by_cases same : other = who
      · rw [same,Function.update_self] at here
        split at here
        · obtain rfl := Option.some.inj here
          exact again.inv
        · cases here
      · rw [Function.update_of_ne same] at here
        exact inv.calls other waiting here
    · dsimp only
      rw [again.taken,again.rest,List.append_assoc,List.take_append_drop]
      exact inv.stream
  · rw [grd_recv_again_crash begun able]
    exact ⟨inv.count,inv.calls,inv.stream,inv.finished⟩

theorem pass_goes (goes : ¬s.stuck) (who : τ) {call : Call α} (begun : call.Inv) :
    ¬(pass s who call).stuck ↔ Able s.netconn call := by
  unfold pass
  constructor
  · intro after
    by_contra unable
    rw [grd_recv_again_crash begun unable] at after
    exact after (.inr rfl)
  · intro able
    obtain ⟨bytes,call',netconn,done,again⟩ := grd_recv_again_spec begun able
    rw [done]
    rintro (taken | crashed)
    · dsimp only at taken
      rw [again.lock] at taken
      exact goes (.inl taken)
    · exact goes (.inr crashed)

theorem pass_right (inv : Inv s) (who : τ) {call : Call α} (begun : call.Inv) (able : Able s.netconn call) :
    RightPass s who call := by
  have after := pass_inv inv who begun
  obtain ⟨bytes,call',netconn,done,again⟩ := grd_recv_again_spec begun able
  have taken : (pass s who call).taken = s.taken ++ s.netconn.unread.take call.rem_len.toNat := by
    unfold pass
    rw [done,← again.taken]
  have rest : (pass s who call).netconn.unread = s.netconn.unread.drop call.rem_len.toNat := by
    unfold pass
    rw [done]
    exact again.rest
  refine ⟨taken,?_,bytes,call',netconn,done,?_,again.inv.result⟩
  · intro enough
    have nothing : (pass s who call).netconn.unread = [] := by
      rw [rest]
      exact List.drop_eq_nil_of_le (by omega)
    rw [← after.stream,nothing,List.append_nil]
  · rw [again.buff,again.taken]

omit [DecidableEq τ] in
theorem segment_inv (inv : Inv s) (p : List (List α)) (memory : Bool) :
    Inv { s with netconn := (tcp_recved_fn s.netconn p memory).2.2
                 acknowledged := s.acknowledged ++ (tcp_recved_fn s.netconn p memory).2.1 } := by
  have answer := tcp_recved_fn_spec s.netconn p memory
  refine ⟨answer.count inv.count,inv.calls,?_,answer.finished inv.finished⟩
  dsimp only
  rw [answer.rest,← List.append_assoc,inv.stream]

theorem step_inv (inv : Inv s) (op : Op τ α) : Inv (step s op) := by
  unfold step
  split
  · exact inv
  · cases op with
    | segment p memory => exact segment_inv inv p memory
    | recv who len block =>
      dsimp only
      split
      · exact inv
      · exact pass_inv inv who (Call.start_inv len block)
    | again who =>
      dsimp only
      split
      · next call here => exact pass_inv inv who (inv.calls who call here)
      · exact inv

theorem run_inv (ops : List (Op τ α)) : Inv (run ops) := by
  induction ops using List.reverseRecOn with
  | nil => exact ⟨rfl,fun _ _ none => (by cases none),rfl,fun _ none => by cases none⟩
  | append_singleton before op ih =>
    rw [run,List.foldl_concat]
    exact step_inv ih op

/-- What the condition asks of a step keeps the lock free and the process alive, and nothing less does. -/
theorem step_goes (inv : Inv s) (goes : ¬s.stuck) (op : Op τ α) : ¬(step s op).stuck ↔ Careful s op := by
  unfold step
  rw [if_neg goes]
  cases op with
  | segment p memory =>
    have answer := tcp_recved_fn_spec s.netconn p memory
    have full : s.netconn.rx_queue_limit = NETCONN_MAX_RX_QUEUE ↔ s.netconn.recv_queue.length = 10 := by
      rw [inv.count]
      unfold NETCONN_MAX_RX_QUEUE
      omega
    rw [full] at answer
    constructor
    · intro after ten
      exact after (.inl (answer.spins ten))
    · rintro few (taken | crashed)
      · rw [(answer.answers few).1] at taken
        exact goes (.inl taken)
      · exact goes (.inr crashed)
  | recv who len block =>
    dsimp only
    cases idle : s.waiting who with
    | some call => exact iff_of_true goes (fun none => by rw [idle] at none; cases none)
    | none =>
      rw [pass_goes goes who (Call.start_inv len block)]
      exact ⟨fun able _ => able,fun careful => careful idle⟩
  | again who =>
    dsimp only
    cases waits : s.waiting who with
    | none => exact iff_of_true goes (fun call some => by rw [waits] at some; cases some)
    | some call =>
      rw [pass_goes goes who (inv.calls who call waits)]
      constructor
      · intro able call' here
        rw [waits] at here
        obtain rfl := Option.some.inj here
        exact able
      · intro careful
        exact careful call waits

theorem step_right (inv : Inv s) (goes : ¬s.stuck) (op : Op τ α) (careful : Careful s op) : Right s op := by
  cases op with
  | segment p memory =>
    have answer := tcp_recved_fn_spec s.netconn p memory
    have free : ¬s.netconn.rx_queue_limit = NETCONN_MAX_RX_QUEUE := by
      have few : s.netconn.recv_queue.length ≠ 10 := careful
      rw [inv.count]
      unfold NETCONN_MAX_RX_QUEUE
      omega
    obtain ⟨lock,err,here,bytes⟩ := answer.answers free
    refine ⟨err,_,_,Prod.ext here rfl,?_,answer.rest,bytes⟩
    rw [lock]
    exact Bool.eq_false_iff.mpr (fun taken => goes (.inl taken))
  | recv who len block => exact fun idle => pass_right inv who (Call.start_inv len block) (careful idle)
  | again who => exact fun call waits => pass_right inv who (inv.calls who call waits) (careful call waits)

/-- Every state of a run is sound and every step of it right exactly when every step meets the condition. -/
theorem recv_right_iff (ops : List (Op τ α)) :
    ((∀ before, before <+: ops → Sound (run before)) ∧
      ∀ before op, before ++ [op] <+: ops → Right (run before) op) ↔
      ∀ before op, before ++ [op] <+: ops → Careful (run before) op := by
  constructor
  · rintro ⟨sound,_⟩ before op starts
    have goes := (sound before ((List.prefix_append ..).trans starts)).goes
    have after := (sound (before ++ [op]) starts).goes
    rw [run,List.foldl_concat] at after
    exact (step_goes (run_inv before) goes op).mp after
  · intro careful
    have goes : ∀ before, before <+: ops → ¬(run before).stuck := by
      intro before
      induction before using List.reverseRecOn with
      | nil => exact fun _ stuck => by rcases stuck with wrong | wrong <;> cases wrong
      | append_singleton before op ih =>
        intro starts
        rw [run,List.foldl_concat]
        exact (step_goes (run_inv before) (ih ((List.prefix_append ..).trans starts)) op).mpr (careful before op starts)
    constructor
    · intro before starts
      exact (run_inv before).sound (goes before starts)
    · intro before op starts
      exact step_right (run_inv before) (goes before ((List.prefix_append ..).trans starts)) op (careful before op starts)

/-- The eleventh segment that nobody has read: the callback never lets go of the lock, and a read after it gets nothing of
    what was acknowledged. -/
theorem eleventh_segment :
    ¬Sound (run (List.replicate 11 (Op.segment [[0,1],[2]] true : Op Unit Nat))) ∧
      (run (List.replicate 11 (Op.segment [[0,1],[2]] true : Op Unit Nat) ++ [.recv () 100 false])).taken = [] ∧
      (run (List.replicate 11 (Op.segment [[0,1],[2]] true : Op Unit Nat))).acknowledged =
        (List.replicate 10 [0,1,2]).flatten := by
  refine ⟨?_,by decide,by decide⟩
  intro sound
  exact absurd sound.lock_free (by decide)

end Runs

end GridOS.TcpRecv
