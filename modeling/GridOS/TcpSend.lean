import Mathlib.Tactic

/-!
The sending side of a TCP connection: the callers of `grd_send` queue their messages, and the stack thread writes
what it has room for to the stack, for any caller's request (`do_send`) or when room comes free (`tcp_send_fn`). The
answer to a request is the number of bytes that were written for the whole queue, and the caller compares it with the
length of its own message. The calls are numbered in the order in which they queue their messages, and a message is
known by the number of its call.
-/
namespace GridOS.TcpSend

/-- A message of one part: its bytes and how many of them were written. -/
structure send_msg_hd (α : Type) where
  msg_base : List α
  offset : Nat

/-- The connection, with how often each head was freed and all that was passed to `tcp_write`. -/
structure Conn (α : Type) where
  heads : Nat → send_msg_hd α
  send_queue : List Nat
  freed : Nat → Nat
  written : List α

section Code
variable {α : Type}

def remain_msg_len (c : Conn α) (i : Nat) : Nat := (c.heads i).msg_base.length - (c.heads i).offset

/-- A head that is in no list any more is freed once more all the same. -/
def free_send_msg_head (c : Conn α) (i : Nat) : Conn α :=
  { c with send_queue := c.send_queue.erase i, freed := Function.update c.freed i (c.freed i + 1) }

/-- `tcp_write` and `msg_body_add_len`. -/
def write_part (c : Conn α) (i send_len : Nat) : Conn α :=
  { c with heads := Function.update c.heads i { c.heads i with offset := (c.heads i).offset + send_len }
           written := c.written ++ ((c.heads i).msg_base.drop (c.heads i).offset).take send_len }

/-- The loop over the queue with `rem_len` bytes of room: the room that is left, and the connection. -/
def write_more_msg_to_tcp_queue : List Nat → (rem_len : Nat) → Conn α → Nat × Conn α
  | [], rem_len, c => (rem_len,c)
  | i :: next, rem_len, c =>
    if rem_len = 0 then (rem_len,c) else
    let send_len := if rem_len > remain_msg_len c i then remain_msg_len c i else rem_len
    let c := write_part c i send_len
    if (c.heads i).offset < (c.heads i).msg_base.length then (rem_len - send_len,c) else
    write_more_msg_to_tcp_queue next (rem_len - send_len) (free_send_msg_head c i)

end Code

/-- Where a call is: its request is on the way to the stack thread, it has the answer, it waits for the queue to run
    empty, or it has returned. -/
inductive Phase
  | requested
  | answered (ret : Nat)
  | waits
  | returned (ret : Nat)
deriving DecidableEq

structure System (α : Type) where
  conn : Conn α
  count : Nat
  block : Nat → Bool
  phase : Nat → Phase

inductive Op (α : Type)
  /-- A call begins and queues its message; without memory for the head it fails. -/
  | grd_send (buff : List α) (block memory : Bool)
  /-- The stack thread serves the request of a call. -/
  | do_send (i : Nat) (sndbuf : BitVec 16)
  | tcp_send_fn (sndbuf : BitVec 16)
  /-- A call takes its answer up. -/
  | resume (i : Nat)
  /-- A call that waits looks at the queue. -/
  | wake (i : Nat)

section Steps
variable {α : Type}

/-- The whole queue is gone through with the room that the stack reports. -/
def System.drain (s : System α) (sndbuf : BitVec 16) : Nat × Conn α :=
  write_more_msg_to_tcp_queue s.conn.send_queue sndbuf.toNat s.conn

def step (s : System α) : Op α → System α
  | .grd_send buff block memory =>
    if memory then
      { conn :=
          { s.conn with heads := Function.update s.conn.heads s.count ⟨buff,0⟩
                        send_queue := s.conn.send_queue ++ [s.count]
                        freed := Function.update s.conn.freed s.count 0 }
        count := s.count + 1
        block := Function.update s.block s.count block
        phase := Function.update s.phase s.count .requested }
    else s
  | .do_send i sndbuf =>
    match s.phase i with
    | .requested =>
      { s with conn := (s.drain sndbuf).2
               phase := Function.update s.phase i (.answered (sndbuf.toNat - (s.drain sndbuf).1)) }
    | _ => s
  | .tcp_send_fn sndbuf => { s with conn := (s.drain sndbuf).2 }
  | .resume i =>
    match s.phase i with
    | .answered ret =>
      if ret ≠ (s.conn.heads i).msg_base.length ∧ s.block i then
        { s with phase := Function.update s.phase i .waits }
      else if ret ≠ (s.conn.heads i).msg_base.length then
        { s with conn := free_send_msg_head s.conn i, phase := Function.update s.phase i (.returned ret) }
      else { s with phase := Function.update s.phase i (.returned ret) }
    | _ => s
  | .wake i =>
    match s.phase i with
    | .waits =>
      if s.conn.send_queue = [] then
        { s with phase := Function.update s.phase i (.returned (s.conn.heads i).msg_base.length) }
      else s
    | _ => s

/-- A connection just made. -/
def start : System α := ⟨⟨fun _ => ⟨[],0⟩,[],fun _ => 0,[]⟩,0,fun _ => false,fun _ => .returned 0⟩

def run (ops : List (Op α)) : System α := ops.foldl step start

/-- A head is in the queue until it is freed, which happens once, and has happened when its call has returned; what was
    written is, in the order of the queue, a prefix of each message, and that of the length which its call has reported. -/
structure Sound (s : System α) : Prop where
  freed : ∀ i < s.count, s.conn.freed i ≤ 1 ∧ (i ∈ s.conn.send_queue ↔ s.conn.freed i = 0)
  returned : ∀ i < s.count, ∀ ret, s.phase i = .returned ret → s.conn.freed i = 1 ∧ ret = (s.conn.heads i).offset ∧
    ret ≤ (s.conn.heads i).msg_base.length
  written : s.conn.written =
    (List.range s.count).flatMap (fun i => (s.conn.heads i).msg_base.take (s.conn.heads i).offset)

/-- The unsent bytes ahead of a message. -/
def ahead (left : Nat → Nat) : List Nat → Nat → Nat
  | [], _ => 0
  | j :: next, i => if j = i then 0 else left j + ahead left next i

def System.ahead (s : System α) (i : Nat) : Nat := TcpSend.ahead (remain_msg_len s.conn) s.conn.send_queue i

/-- The unsent bytes of the whole queue. -/
def System.unsent (s : System α) : Nat := (s.conn.send_queue.map (remain_msg_len s.conn)).sum

/-- With `n` bytes of room the message is no longer in the queue: it was not before, or is written to its end. -/
def System.Leaves (s : System α) (n i : Nat) : Prop :=
  i ∈ s.conn.send_queue → s.ahead i < n ∧ s.ahead i + remain_msg_len s.conn i ≤ n

/-- The call has its answer and does not wait. -/
def System.leaving (s : System α) (i : Nat) : Bool :=
  match s.phase i with
  | .answered _ => !s.block i
  | _ => false

/-- The room ends ahead of every message whose call is leaving. -/
def System.Quiet (s : System α) (n : Nat) : Prop :=
  ∀ i ∈ s.conn.send_queue, s.leaving i = true → n ≤ s.ahead i

/-- The room for a request covers as many bytes as the message has exactly when it covers the message, or the call waits;
    and a non-blocking call whose message stays has none written before or ahead of it. -/
def Careful (s : System α) : Op α → Prop
  | .do_send i sndbuf => s.phase i = .requested → s.Quiet sndbuf.toNat ∧
      (s.Leaves sndbuf.toNat i → s.block i = false →
        min sndbuf.toNat s.unsent = (s.conn.heads i).msg_base.length) ∧
      (¬s.Leaves sndbuf.toNat i → min sndbuf.toNat s.unsent ≠ (s.conn.heads i).msg_base.length ∧
        (s.block i = false → (s.conn.heads i).offset = 0 ∧ (s.ahead i = 0 ∨ sndbuf.toNat = 0)))
  | .tcp_send_fn sndbuf => s.Quiet sndbuf.toNat
  | _ => True

instance (s : System α) (n : Nat) : Decidable (s.Quiet n) :=
  inferInstanceAs (Decidable (∀ i ∈ s.conn.send_queue, _ → _))

instance (s : System α) (n i : Nat) : Decidable (s.Leaves n i) :=
  inferInstanceAs (Decidable (_ → _ ∧ _))

instance (s : System α) : (op : Op α) → Decidable (Careful s op)
  | .grd_send _ _ _ | .resume _ | .wake _ => .isTrue trivial
  | .do_send i sndbuf => inferInstanceAs (Decidable (s.phase i = .requested → s.Quiet sndbuf.toNat ∧ (_ → _ → _) ∧
      (_ → _ ∧ (_ → _ ∧ (_ ∨ _)))))
  | .tcp_send_fn sndbuf => inferInstanceAs (Decidable (s.Quiet sndbuf.toNat))

/-- The states of the runs whose steps all meet the condition. -/
inductive CarefulRun : System α → Prop
  | start : CarefulRun start
  | step {s : System α} (run : CarefulRun s) (op : Op α) (careful : Careful s op) : CarefulRun (step s op)

end Steps

/-! ### The queue and the log -/

/-- The messages are queued in the order of their calls, no head is freed while it is queued, and nothing is written of a
    message behind a queued one. -/
structure Core {α : Type} (count : Nat) (c : Conn α) : Prop where
  sorted : c.send_queue.Pairwise (· < ·)
  inside : ∀ i ∈ c.send_queue, i < count
  freed : ∀ i < count, c.freed i = if i ∈ c.send_queue then 0 else 1
  bounded : ∀ i, (c.heads i).offset ≤ (c.heads i).msg_base.length
  fresh : ∀ i ∈ c.send_queue, ∀ j, i < j → (c.heads j).offset = 0
  later : ∀ j, count ≤ j → (c.heads j).offset = 0
  written : c.written = (List.range count).flatMap (fun i => (c.heads i).msg_base.take (c.heads i).offset)

section Proofs
variable {α : Type} {c : Conn α} {count : Nat}

theorem flatMap_range_last {g : Nat → List α} {i : Nat} (inside : i < count) (nothing : ∀ j, i < j → g j = []) :
    (List.range count).flatMap g = (List.range i).flatMap g ++ g i := by
  induction count with
  | zero => cases inside
  | succ count ih =>
    rw [List.range_succ,List.flatMap_append,List.flatMap_singleton]
    rcases Nat.lt_succ_iff_lt_or_eq.mp inside with before | rfl
    · rw [ih before,nothing count before,List.append_nil]
    · rfl

theorem flatMap_range_congr {g g' : Nat → List α} (same : ∀ i < count, g' i = g i) :
    (List.range count).flatMap g' = (List.range count).flatMap g :=
  List.flatMap_congr (fun i member => same i (List.mem_range.mp member))

theorem write_part_self (c : Conn α) (i send_len : Nat) :
    (write_part c i send_len).heads i = { c.heads i with offset := (c.heads i).offset + send_len } :=
  Function.update_self ..

theorem write_part_other (c : Conn α) {i j : Nat} (other : j ≠ i) (send_len : Nat) :
    (write_part c i send_len).heads j = c.heads j :=
  Function.update_of_ne other ..

/-- The first message of the queue is written a little further. -/
theorem Core.write_part {i : Nat} {next : List Nat} {send_len : Nat} (core : Core count c) (first : c.send_queue = i :: next)
    (fits : send_len ≤ remain_msg_len c i) : Core count (write_part c i send_len) := by
  have member : i ∈ c.send_queue := by rw [first]; exact List.mem_cons_self
  have least : ∀ j ∈ c.send_queue, i ≤ j := by
    intro j queued
    rw [first] at queued
    rcases List.mem_cons.mp queued with rfl | later
    · exact le_rfl
    · have sorted := core.sorted
      rw [first] at sorted
      exact (List.rel_of_pairwise_cons sorted later).le
  have bound := core.bounded i
  unfold remain_msg_len at fits
  refine ⟨core.sorted,core.inside,core.freed,?_,?_,?_,?_⟩
  · intro j
    by_cases same : j = i
    · rw [same,write_part_self]
      dsimp only
      omega
    · rw [write_part_other c same]
      exact core.bounded j
  · intro queued here j behind
    have other : j ≠ i := by
      have le := least queued here
      omega
    rw [write_part_other c other]
    exact core.fresh queued here j behind
  · intro j outside
    have inside := core.inside i member
    rw [write_part_other c (by omega)]
    exact core.later j outside
  · have inside := core.inside i member
    have nothing : ∀ j, i < j → (c.heads j).msg_base.take (c.heads j).offset = [] := by
      intro j behind
      rw [core.fresh i member j behind,List.take_zero]
    have log : (TcpSend.write_part c i send_len).written =
        c.written ++ ((c.heads i).msg_base.drop (c.heads i).offset).take send_len := rfl
    rw [log,core.written,flatMap_range_last inside nothing,flatMap_range_last inside,write_part_self,List.append_assoc]
    · dsimp only
      rw [List.take_add]
      congr 1
      refine flatMap_range_congr (fun j before => ?_)
      rw [write_part_other c before.ne]
    · intro j behind
      rw [write_part_other c behind.ne']
      exact nothing j behind

/-- A message of the queue is freed. -/
theorem Core.free {i : Nat} (core : Core count c) (member : i ∈ c.send_queue) : Core count (free_send_msg_head c i) := by
  have nodup : c.send_queue.Nodup := core.sorted.imp (fun less => less.ne)
  have stays : ∀ j, j ∈ c.send_queue.erase i ↔ j ≠ i ∧ j ∈ c.send_queue := fun j => nodup.mem_erase_iff
  refine ⟨core.sorted.sublist List.erase_sublist,?_,?_,core.bounded,?_,core.later,core.written⟩
  · intro j queued
    exact core.inside j ((stays j).mp queued).2
  · intro j inside
    unfold free_send_msg_head
    dsimp only
    by_cases same : j = i
    · rw [same,Function.update_self,core.freed i (core.inside i member),if_pos member,if_neg]
      rw [stays]
      exact fun queued => queued.1 rfl
    · rw [Function.update_of_ne same,core.freed j inside]
      simp only [stays,ne_eq,same,not_false_eq_true,true_and]
  · intro j queued
    exact core.fresh j ((stays j).mp queued).2

theorem ahead_congr {left left' : Nat → Nat} {queue : List Nat} (same : ∀ j ∈ queue, left' j = left j) (i : Nat) :
    ahead left' queue i = ahead left queue i := by
  induction queue with
  | nil => rfl
  | cons j next ih =>
    rw [ahead,ahead,same j List.mem_cons_self,ih (fun k later => same k (List.mem_cons_of_mem _ later))]

theorem ahead_le {left : Nat → Nat} {queue : List Nat} {i : Nat} (member : i ∈ queue) :
    ahead left queue i + left i ≤ (queue.map left).sum := by
  induction queue with
  | nil => cases member
  | cons j next ih =>
    rw [ahead,List.map_cons,List.sum_cons]
    by_cases same : j = i
    · rw [if_pos same,same]
      omega
    · have later := ih ((List.mem_cons.mp member).resolve_left (Ne.symm same))
      rw [if_neg same]
      omega

/-- What going through the queue with `n` bytes of room leaves. -/
structure Drained (count : Nat) (c : Conn α) (n : Nat) (result : Nat × Conn α) : Prop where
  core : Core count result.2
  room : result.1 = n - (c.send_queue.map (remain_msg_len c)).sum
  base : ∀ i, (result.2.heads i).msg_base = (c.heads i).msg_base
  frame : ∀ i, i ∉ c.send_queue → result.2.heads i = c.heads i
  stays : ∀ i, i ∈ result.2.send_queue ↔ i ∈ c.send_queue ∧ (n ≤ ahead (remain_msg_len c) c.send_queue i ∨
    n < ahead (remain_msg_len c) c.send_queue i + remain_msg_len c i)
  offset : ∀ i ∈ result.2.send_queue,
    (result.2.heads i).offset = (c.heads i).offset + (n - ahead (remain_msg_len c) c.send_queue i)
  leaves : ∀ i ∈ c.send_queue, i ∉ result.2.send_queue →
    (result.2.heads i).offset = (result.2.heads i).msg_base.length

/-- Without room nothing happens. -/
theorem Drained.nothing (core : Core count c) : Drained count c 0 (0,c) where
  core := core
  room := (Nat.zero_sub _).symm
  base := fun _ => rfl
  frame := fun _ _ => rfl
  stays := fun _ => ⟨fun member => ⟨member,.inl (Nat.zero_le _)⟩,And.left⟩
  offset := fun _ _ => by rw [Nat.zero_sub,Nat.add_zero]
  leaves := fun _ member gone => absurd member gone

/-- The room ends within the first message. -/
theorem Drained.part {i n : Nat} {next : List Nat} (core : Core count c) (first : c.send_queue = i :: next)
    (short : n < remain_msg_len c i) : Drained count c n (0,write_part c i n) := by
  have before : ∀ j ∈ next, remain_msg_len c i ≤ ahead (remain_msg_len c) c.send_queue j := by
    intro j later
    have sorted := core.sorted
    rw [first] at sorted ⊢
    have less := List.rel_of_pairwise_cons sorted later
    rw [ahead,if_neg less.ne]
    exact Nat.le_add_right ..
  refine ⟨core.write_part first short.le,?_,?_,?_,?_,?_,fun _ member gone => absurd member gone⟩
  · rw [first,List.map_cons,List.sum_cons]
    omega
  · intro j
    by_cases same : j = i
    · rw [same,write_part_self]
    · rw [write_part_other c same]
  · intro j gone
    have other : j ≠ i := by
      rintro rfl
      exact gone (by rw [first]; exact List.mem_cons_self)
    exact write_part_other c other n
  · intro j
    refine ⟨fun member => ⟨member,?_⟩,And.left⟩
    have queued : j ∈ i :: next := by rw [← first]; exact member
    rcases List.mem_cons.mp queued with rfl | later
    · exact .inr (by omega)
    · have le := before j later
      exact .inl (by omega)
  · intro j member
    have queued : j ∈ i :: next := by rw [← first]; exact member
    rcases List.mem_cons.mp queued with rfl | later
    · rw [first,ahead,if_pos rfl,write_part_self,Nat.sub_zero]
    · have le := before j later
      have other : j ≠ i := by
        have sorted := core.sorted
        rw [first] at sorted
        exact (List.rel_of_pairwise_cons sorted later).ne'
      rw [write_part_other c other]
      omega

/-- The first message is written to its end and freed, and the rest of the queue is gone through with the rest of the
    room. -/
theorem Drained.whole {i n : Nat} {next : List Nat} {result : Nat × Conn α} (core : Core count c)
    (first : c.send_queue = i :: next) (some : 0 < n) (fits : remain_msg_len c i ≤ n)
    (rest : (free_send_msg_head (write_part c i (remain_msg_len c i)) i).send_queue = next →
      Core count (free_send_msg_head (write_part c i (remain_msg_len c i)) i) →
      Drained count (free_send_msg_head (write_part c i (remain_msg_len c i)) i) (n - remain_msg_len c i) result) :
    Drained count c n result := by
  set freed := free_send_msg_head (write_part c i (remain_msg_len c i)) i with freed_eq
  have member : i ∈ c.send_queue := by rw [first]; exact List.mem_cons_self
  have queue : freed.send_queue = next := by
    have same : freed.send_queue = c.send_queue.erase i := rfl
    rw [same,first,List.erase_cons_head]
  have sorted := core.sorted
  rw [first] at sorted
  have others : ∀ j ∈ next, j ≠ i := fun j later => (List.rel_of_pairwise_cons sorted later).ne'
  have away : i ∉ next := fun here => others i here rfl
  have head : freed.heads i = { c.heads i with offset := (c.heads i).offset + remain_msg_len c i } :=
    write_part_self c i _
  have same : ∀ j, j ≠ i → freed.heads j = c.heads j := fun j other => write_part_other c other _
  have left : ∀ j, j ≠ i → remain_msg_len freed j = remain_msg_len c j := by
    intro j other
    unfold remain_msg_len
    rw [same j other]
  have before : ∀ j, j ≠ i → ahead (remain_msg_len c) c.send_queue j =
      remain_msg_len c i + ahead (remain_msg_len freed) next j := by
    intro j other
    rw [first,ahead,if_neg other.symm,ahead_congr (fun k later => left k (others k later))]
  have drained := rest queue ((core.write_part first le_rfl).free member)
  have gone : i ∉ result.2.send_queue := by
    intro here
    have old := ((drained.stays i).mp here).1
    rw [queue] at old
    exact away old
  have split : ∀ j, j ∈ c.send_queue ↔ j = i ∨ j ∈ next := by
    intro j
    rw [first]
    exact List.mem_cons
  refine ⟨drained.core,?_,?_,?_,?_,?_,?_⟩
  · rw [drained.room,queue,first,List.map_cons,List.sum_cons,
      List.map_congr_left (fun j later => left j (others j later))]
    omega
  · intro j
    rw [drained.base j]
    by_cases here : j = i
    · rw [here,head]
    · rw [same j here]
  · intro j absent
    rw [split,not_or] at absent
    rw [drained.frame j (by rw [queue]; exact absent.2),same j absent.1]
  · intro j
    by_cases here : j = i
    · rw [here,first,ahead,if_pos rfl]
      exact iff_of_false gone (fun wrong => by have room := wrong.2; omega)
    · rw [drained.stays j,queue,split,before j here,left j here,or_iff_right here]
      refine and_congr_right (fun _ => ?_)
      omega
  · intro j stays
    have here : j ≠ i := fun wrong => gone (wrong ▸ stays)
    rw [drained.offset j stays,same j here,before j here,queue]
    omega
  · intro j queued absent
    by_cases here : j = i
    · rw [here,drained.frame i (by rw [queue]; exact away)]
      have bound := core.bounded i
      rw [head]
      dsimp only
      unfold remain_msg_len
      omega
    · exact drained.leaves j (by rw [queue]; exact ((split j).mp queued).resolve_left here) absent

theorem write_more_spec (queue : List Nat) : ∀ {n : Nat} {c : Conn α}, c.send_queue = queue → Core count c →
    Drained count c n (write_more_msg_to_tcp_queue queue n c) := by
  induction queue with
  | nil =>
    intro n c empty core
    refine ⟨core,?_,fun _ => rfl,fun _ _ => rfl,?_,?_,?_⟩
    · rw [empty]
      rfl
    · simp [write_more_msg_to_tcp_queue,empty]
    · intro i member
      rw [write_more_msg_to_tcp_queue,empty] at member
      cases member
    · intro i member
      rw [empty] at member
      cases member
  | cons i next ih =>
    intro n c first core
    rw [write_more_msg_to_tcp_queue]
    by_cases none : n = 0
    · rw [if_pos none,none]
      exact Drained.nothing core
    rw [if_neg none]
    dsimp only
    have bound := core.bounded i
    by_cases short : n < remain_msg_len c i
    · have send_len : (if n > remain_msg_len c i then remain_msg_len c i else n) = n := if_neg (by omega)
      have inside : ((write_part c i n).heads i).offset < ((write_part c i n).heads i).msg_base.length := by
        unfold remain_msg_len at short
        rw [write_part_self]
        dsimp only
        omega
      rw [send_len,if_pos inside,Nat.sub_self]
      exact Drained.part core first short
    · have send_len : (if n > remain_msg_len c i then remain_msg_len c i else n) = remain_msg_len c i := by
        split
        · rfl
        · omega
      have full : ((write_part c i (remain_msg_len c i)).heads i).offset = (c.heads i).msg_base.length := by
        rw [write_part_self]
        dsimp only
        unfold remain_msg_len
        omega
      have base : ((write_part c i (remain_msg_len c i)).heads i).msg_base = (c.heads i).msg_base := by
        rw [write_part_self]
      rw [send_len,full,base,if_neg (Nat.lt_irrefl _)]
      exact Drained.whole core first (by omega) (by omega) (fun queued core => ih queued core)

end Proofs

/-! ### The calls -/

section Runs
variable {α : Type} {s : System α}

/-- What a call has to do with its message: as long as it has not returned, a message that left the queue was written to
    its end, and an answer tells whether that is so and, where the call is not going to wait, how far it was written. -/
def Fits (c : Conn α) (block : Bool) (i : Nat) : Phase → Prop
  | .requested | .waits => i ∉ c.send_queue → (c.heads i).offset = (c.heads i).msg_base.length
  | .answered ret =>
    (i ∉ c.send_queue → (c.heads i).offset = (c.heads i).msg_base.length) ∧
      (ret = (c.heads i).msg_base.length → i ∉ c.send_queue) ∧
      (block = false → (i ∉ c.send_queue → ret = (c.heads i).msg_base.length) ∧
        (i ∈ c.send_queue → ret = (c.heads i).offset))
  | .returned ret => i ∉ c.send_queue ∧ ret = (c.heads i).offset

structure Inv (s : System α) : Prop where
  core : Core s.count s.conn
  fits : ∀ i, Fits s.conn (s.block i) i (s.phase i)

theorem Inv.sound (inv : Inv s) : Sound s := by
  refine ⟨?_,?_,inv.core.written⟩
  · intro i inside
    rw [inv.core.freed i inside]
    by_cases member : i ∈ s.conn.send_queue
    · rw [if_pos member]
      exact ⟨Nat.zero_le _,iff_of_true member rfl⟩
    · rw [if_neg member]
      exact ⟨le_rfl,iff_of_false member (by decide)⟩
  · intro i inside ret here
    have fits := inv.fits i
    rw [here] at fits
    obtain ⟨away,same⟩ := fits
    rw [inv.core.freed i inside,if_neg away]
    exact ⟨rfl,same,same ▸ inv.core.bounded i⟩

/-- One call moves on. -/
theorem fits_update {c : Conn α} {i : Nat} {phase : Phase} (others : ∀ j, j ≠ i → Fits c (s.block j) j (s.phase j))
    (own : Fits c (s.block i) i phase) (j : Nat) : Fits c (s.block j) j (Function.update s.phase i phase j) := by
  by_cases same : j = i
  · rw [same,Function.update_self]
    exact own
  · rw [Function.update_of_ne same]
    exact others j same

/-- A drain that ends ahead of the messages which calls are going to free. -/
theorem drain_fits (inv : Inv s) {sndbuf : BitVec 16} (quiet : s.Quiet sndbuf.toNat)
    (drained : Drained s.count s.conn sndbuf.toNat (s.drain sndbuf)) (i : Nat) :
    Fits (s.drain sndbuf).2 (s.block i) i (s.phase i) := by
  have old : i ∈ (s.drain sndbuf).2.send_queue → i ∈ s.conn.send_queue := fun stays => ((drained.stays i).mp stays).1
  have fits := inv.fits i
  have written : (i ∉ s.conn.send_queue → (s.conn.heads i).offset = (s.conn.heads i).msg_base.length) →
      i ∉ (s.drain sndbuf).2.send_queue →
      ((s.drain sndbuf).2.heads i).offset = ((s.drain sndbuf).2.heads i).msg_base.length := by
    intro before away
    by_cases member : i ∈ s.conn.send_queue
    · exact drained.leaves i member away
    · rw [drained.frame i member]
      exact before member
  cases phase : s.phase i with
  | requested =>
    rw [phase] at fits
    exact written fits
  | waits =>
    rw [phase] at fits
    exact written fits
  | answered ret =>
    rw [phase] at fits
    obtain ⟨before,full,rest⟩ := fits
    refine ⟨written before,?_,?_⟩
    · rw [drained.base i]
      exact fun same stays => full same (old stays)
    · intro free
      obtain ⟨gone,queued⟩ := rest free
      -- the call is going to free its message, which is behind the end of the room
      have room : i ∈ s.conn.send_queue → sndbuf.toNat ≤ ahead (remain_msg_len s.conn) s.conn.send_queue i :=
        fun member => quiet i member (by unfold System.leaving; rw [phase,free]; rfl)
      rw [drained.base i]
      refine ⟨fun away => gone (fun member => away ((drained.stays i).mpr ⟨member,.inl (room member)⟩)),?_⟩
      intro stays
      rw [drained.offset i stays,Nat.sub_eq_zero_of_le (room (old stays))]
      exact queued (old stays)
  | returned ret =>
    rw [phase] at fits
    obtain ⟨away,same⟩ := fits
    refine ⟨fun stays => away (old stays),?_⟩
    rw [drained.frame i away]
    exact same

theorem drain_spec (inv : Inv s) (sndbuf : BitVec 16) : Drained s.count s.conn sndbuf.toNat (s.drain sndbuf) :=
  write_more_spec _ rfl inv.core

theorem tcp_send_fn_inv (inv : Inv s) {sndbuf : BitVec 16} (quiet : s.Quiet sndbuf.toNat) :
    Inv (step s (.tcp_send_fn sndbuf)) :=
  ⟨(drain_spec inv sndbuf).core,drain_fits inv quiet (drain_spec inv sndbuf)⟩

/-- The answer to a request. -/
theorem do_send_inv (inv : Inv s) {i : Nat} {sndbuf : BitVec 16} (requested : s.phase i = .requested)
    (careful : Careful s (.do_send i sndbuf)) : Inv (step s (.do_send i sndbuf)) := by
  obtain ⟨quiet,leaves,stays⟩ := careful requested
  have drained := drain_spec inv sndbuf
  have fits := drain_fits inv quiet drained
  have ret : sndbuf.toNat - (s.drain sndbuf).1 = min sndbuf.toNat s.unsent := by
    rw [drained.room]
    unfold System.unsent
    omega
  have left : s.Leaves sndbuf.toNat i ↔ i ∉ (s.drain sndbuf).2.send_queue := by
    rw [drained.stays i]
    unfold System.Leaves System.ahead
    constructor
    · rintro fits ⟨member,short⟩
      have room := fits member
      omega
    · intro away member
      obtain ⟨some,fits⟩ := not_or.mp (fun short => away ⟨member,short⟩)
      omega
  have own := fits i
  rw [requested] at own
  rw [step,requested]
  refine ⟨drained.core,fits_update (fun j _ => fits j) ⟨own,?_,?_⟩⟩
  · rw [ret,drained.base i,← left]
    intro full
    by_contra remains
    exact (stays remains).1 full
  · intro free
    rw [ret,drained.base i]
    refine ⟨fun away => leaves (left.mpr away) free,?_⟩
    intro member
    obtain ⟨_,unwritten⟩ := stays (fun gone => left.mp gone member)
    obtain ⟨zero,place⟩ := unwritten free
    obtain ⟨queued,room⟩ := (drained.stays i).mp member
    have bound : ahead (remain_msg_len s.conn) s.conn.send_queue i + remain_msg_len s.conn i ≤ s.unsent :=
      ahead_le queued
    rw [drained.offset i member,zero]
    unfold System.ahead at place
    omega

/-- A call takes its answer up. -/
theorem resume_inv (inv : Inv s) (i : Nat) : Inv (step s (.resume i)) := by
  cases phase : s.phase i with
  | requested => rw [step,phase]; exact inv
  | waits => rw [step,phase]; exact inv
  | returned ret => rw [step,phase]; exact inv
  | answered ret =>
    have fits := inv.fits i
    rw [phase] at fits
    obtain ⟨before,full,rest⟩ := fits
    rw [step,phase]
    dsimp only
    by_cases same : ret = (s.conn.heads i).msg_base.length
    · rw [if_neg (fun differs => differs.1 same),if_neg (fun differs => differs same)]
      exact ⟨inv.core,fits_update (fun j _ => inv.fits j) ⟨full same,same.trans (before (full same)).symm⟩⟩
    by_cases block : s.block i = true
    · rw [if_pos ⟨same,block⟩]
      exact ⟨inv.core,fits_update (fun j _ => inv.fits j) before⟩
    -- the message is still queued, and the answer is as far as it was written
    rw [if_neg (fun waits => block waits.2),if_pos same]
    obtain ⟨gone,queued⟩ := rest (Bool.eq_false_iff.mpr block)
    have member : i ∈ s.conn.send_queue := by
      by_contra away
      exact same (gone away)
    have nodup : s.conn.send_queue.Nodup := inv.core.sorted.imp (fun less => less.ne)
    have stays : ∀ j, j ∈ s.conn.send_queue.erase i ↔ j ≠ i ∧ j ∈ s.conn.send_queue := fun j => nodup.mem_erase_iff
    refine ⟨inv.core.free member,fits_update ?_ ⟨fun wrong => ((stays i).mp wrong).1 rfl,queued member⟩⟩
    intro j other
    have kept : j ∈ s.conn.send_queue.erase i ↔ j ∈ s.conn.send_queue := by
      rw [stays,and_iff_right other]
    have old := inv.fits j
    unfold Fits free_send_msg_head at *
    dsimp only
    rw [kept]
    exact old

/-- A call that waits finds the queue empty. -/
theorem wake_inv (inv : Inv s) (i : Nat) : Inv (step s (.wake i)) := by
  cases phase : s.phase i with
  | requested => rw [step,phase]; exact inv
  | answered ret => rw [step,phase]; exact inv
  | returned ret => rw [step,phase]; exact inv
  | waits =>
    have fits := inv.fits i
    rw [phase] at fits
    rw [step,phase]
    dsimp only
    split
    · next empty =>
      have away : i ∉ s.conn.send_queue := by
        rw [empty]
        exact List.not_mem_nil
      exact ⟨inv.core,fits_update (fun j _ => inv.fits j) ⟨away,(fits away).symm⟩⟩
    · exact inv

/-- A message is queued behind the others. -/
theorem grd_send_inv (inv : Inv s) (buff : List α) (block : Bool) : Inv (step s (.grd_send buff block true)) := by
  have core := inv.core
  have absent : s.count ∉ s.conn.send_queue := fun member => Nat.lt_irrefl _ (core.inside _ member)
  have queued : ∀ j, j ∈ s.conn.send_queue ++ [s.count] ↔ j ∈ s.conn.send_queue ∨ j = s.count := by
    intro j
    rw [List.mem_append,List.mem_singleton]
  rw [step,if_pos rfl]
  refine ⟨⟨?_,?_,?_,?_,?_,?_,?_⟩,?_⟩
  · refine List.pairwise_append.mpr ⟨core.sorted,List.pairwise_singleton ..,?_⟩
    intro i member j last
    rw [List.mem_singleton.mp last]
    exact core.inside i member
  · intro i member
    rcases (queued i).mp member with old | rfl
    · exact (core.inside i old).trans (Nat.lt_succ_self _)
    · exact Nat.lt_succ_self _
  · intro i inside
    dsimp only
    by_cases same : i = s.count
    · rw [same,Function.update_self,if_pos ((queued _).mpr (.inr rfl))]
    · have below : i < s.count := Nat.lt_of_le_of_ne (Nat.lt_succ_iff.mp inside) same
      rw [Function.update_of_ne same,core.freed i below]
      simp only [queued,same,or_false]
  · intro i
    dsimp only
    by_cases same : i = s.count
    · rw [same,Function.update_self]
      exact Nat.zero_le _
    · rw [Function.update_of_ne same]
      exact core.bounded i
  · intro i member j behind
    dsimp only
    by_cases same : j = s.count
    · rw [same,Function.update_self]
    · rw [Function.update_of_ne same]
      rcases (queued i).mp member with old | rfl
      · exact core.fresh i old j behind
      · exact core.later j behind.le
  · intro j outside
    dsimp only at outside ⊢
    rw [Function.update_of_ne (by omega)]
    exact core.later j (by omega)
  · dsimp only
    rw [List.range_succ,List.flatMap_append,List.flatMap_singleton,Function.update_self,List.take_zero,List.append_nil,
      core.written]
    refine flatMap_range_congr (fun i inside => ?_)
    rw [Function.update_of_ne inside.ne]
  · intro i
    dsimp only
    by_cases same : i = s.count
    · rw [same,Function.update_self,Function.update_self]
      exact fun away => absurd ((queued _).mpr (.inr rfl)) away
    · rw [Function.update_of_ne same,Function.update_of_ne same]
      have old := inv.fits i
      unfold Fits at *
      dsimp only
      rw [queued,or_iff_left same,Function.update_of_ne same]
      exact old

theorem step_inv (inv : Inv s) {op : Op α} (careful : Careful s op) : Inv (step s op) := by
  cases op with
  | grd_send buff block memory =>
    cases memory with
    | true => exact grd_send_inv inv buff block
    | false => exact inv
  | do_send i sndbuf =>
    by_cases requested : s.phase i = .requested
    · exact do_send_inv inv requested careful
    · have stepped : step s (.do_send i sndbuf) = s := by
        rw [step]
        split
        · next here => exact absurd here requested
        · rfl
      rw [stepped]
      exact inv
  | tcp_send_fn sndbuf => exact tcp_send_fn_inv inv careful
  | resume i => exact resume_inv inv i
  | wake i => exact wake_inv inv i

theorem start_inv : Inv (start : System α) where
  core :=
    { sorted := List.Pairwise.nil
      inside := fun _ wrong => by cases wrong
      freed := fun i wrong => absurd wrong (Nat.not_lt_zero i)
      bounded := fun _ => le_rfl
      fresh := fun _ wrong => by cases wrong
      later := fun _ _ => rfl
      written := rfl }
  fits := fun _ => ⟨List.not_mem_nil,rfl⟩

theorem run_inv (run : CarefulRun s) : Inv s := by
  induction run with
  | start => exact start_inv
  | step _ op careful ih => exact step_inv ih careful

end Runs

end GridOS.TcpSend
