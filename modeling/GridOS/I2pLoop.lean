import GridOS.I2pRuns

/-!
The loop over the live handles, `i2p_loop`. It runs as often as the table has live handles, keeps a position in the
bitmap of the node it is at and hands that position to the action. A position says which handle of its node is meant;
the action wants to know which handle of the table.
-/
namespace GridOS.I2p
open GridOS.Bits

/-- The rounds of `i2p_loop` that are left, at the node `i2pt` with `rest` behind it: the handles that `action` is
    called with, and the number of rounds that were begun and not broken off. -/
def loop_rounds : Nat → Node → List Node → Nat → List Nat × Nat
  | 0, _, _, _ => ([],0)
  | rounds+1, i2pt, rest, offset =>
    let offset := cl_find_next_bit i2pt.arr_bitmap.bitmap i2pt.arr_bitmap.mask_count offset
    if offset = i2pt.arr_bitmap.mask_count then
      match rest with
      | [] => ([],0)
      | i2pt :: rest =>
        let offset := cl_find_next_bit i2pt.arr_bitmap.bitmap i2pt.arr_bitmap.mask_count 0
        let r := loop_rounds rounds i2pt rest (offset + 1)
        (offset :: r.1,r.2 + 1)
    else
      let r := loop_rounds rounds i2pt rest (offset + 1)
      (offset :: r.1,r.2 + 1)

/-- The calls of `action` in their order, and the result. -/
def i2p_loop (t : Table) : Option (List Nat × Nat) :=
  match t.nodes with
  | [] => if t.used_index = 0 then some ([],0) else none
  | i2pt :: rest => some (loop_rounds t.used_index i2pt rest 0)

/-- The loop calls the action once for each live handle, in increasing order, and returns how many there are. -/
def Visits (t : Table) (m : Nat → Option Nat) : Prop :=
  ∃ calls ret, i2p_loop t = some (calls,ret) ∧ calls.Pairwise (· < ·) ∧ (∀ h, h ∈ calls ↔ (m h).isSome) ∧
    ret = calls.length

/-! ### The positions in one node -/

/-- The live positions of a node from `offset` on. -/
def live_from (n : Node) (offset : Nat) : List Nat :=
  (List.range' offset (MAX_COUNT_PER_ARRAY - offset)).filter (fun i => test_bit i n.arr_bitmap.bitmap)

theorem mem_live_from {n : Node} {offset i : Nat} :
    i ∈ live_from n offset ↔ offset ≤ i ∧ i < MAX_COUNT_PER_ARRAY ∧ test_bit i n.arr_bitmap.bitmap = true := by
  rw [live_from,List.mem_filter,List.mem_range'_1]
  constructor
  · rintro ⟨⟨low,high⟩,set⟩
    exact ⟨low,by omega,set⟩
  · rintro ⟨low,high,set⟩
    exact ⟨⟨low,by omega⟩,set⟩

theorem live_from_increasing (n : Node) (offset : Nat) : (live_from n offset).Pairwise (· < ·) :=
  List.Pairwise.filter _ List.pairwise_lt_range'

/-- Nothing is live before the position that the search finds. -/
theorem live_from_skip {n : Node} {offset r : Nat} (low : offset ≤ r) (bound : r ≤ MAX_COUNT_PER_ARRAY)
    (clear : ∀ i, offset ≤ i → i < r → test_bit i n.arr_bitmap.bitmap = false) : live_from n offset = live_from n r := by
  have parts : List.range' offset (MAX_COUNT_PER_ARRAY - offset) =
      List.range' offset (r - offset) ++ List.range' r (MAX_COUNT_PER_ARRAY - r) := by
    have split := List.range'_append_1 (s := offset) (m := r - offset) (n := MAX_COUNT_PER_ARRAY - r)
    rw [Nat.add_sub_cancel' low] at split
    rw [split]
    congr 1
    omega
  have before : (List.range' offset (r - offset)).filter (fun i => test_bit i n.arr_bitmap.bitmap) = [] := by
    rw [List.filter_eq_nil_iff]
    intro i member
    rw [List.mem_range'_1] at member
    rw [clear i member.1 (by omega)]
    exact Bool.false_ne_true
  rw [live_from,parts,List.filter_append,before,List.nil_append,live_from]

/-- The search stops at the first live position, or at the end of the node when none is left. -/
theorem live_from_found {n : Node} (sound : n.Sound) (offset : Nat) :
    (cl_find_next_bit n.arr_bitmap.bitmap n.arr_bitmap.mask_count offset = MAX_COUNT_PER_ARRAY ∧ live_from n offset = []) ∨
    (cl_find_next_bit n.arr_bitmap.bitmap n.arr_bitmap.mask_count offset < MAX_COUNT_PER_ARRAY ∧
      live_from n offset = cl_find_next_bit n.arr_bitmap.bitmap n.arr_bitmap.mask_count offset ::
        live_from n (cl_find_next_bit n.arr_bitmap.bitmap n.arr_bitmap.mask_count offset + 1)) := by
  have next := cl_find_next_bit_spec n.arr_bitmap.bitmap n.arr_bitmap.mask_count offset
  generalize cl_find_next_bit n.arr_bitmap.bitmap n.arr_bitmap.mask_count offset = r at *
  rw [sound.mask] at next
  rcases next.bound.lt_or_eq with less | last
  · obtain ⟨low,set⟩ := next.set less
    have first : List.range' r (MAX_COUNT_PER_ARRAY - r) = r :: List.range' (r+1) (MAX_COUNT_PER_ARRAY - (r+1)) := by
      rw [← Nat.succ_pred_eq_of_pos (Nat.sub_pos_of_lt less),List.range'_succ]
      rfl
    refine .inr ⟨less,?_⟩
    rw [live_from_skip low less.le next.clear,live_from,first,
      List.filter_cons_of_pos (p := fun i => test_bit i n.arr_bitmap.bitmap) set]
    rfl
  · refine .inl ⟨last,List.eq_nil_iff_forall_not_mem.mpr ?_⟩
    intro i member
    obtain ⟨low,high,set⟩ := mem_live_from.mp member
    rw [next.clear i low (by omega)] at set
    cases set

theorem live_from_count {n : Node} (sound : n.Sound) : (live_from n 0).length = n.count := by
  have distinct : (live_from n 0).Nodup := (live_from_increasing n 0).imp Nat.ne_of_lt
  rw [sound_count sound,← List.toFinset_card_of_nodup distinct]
  refine congrArg Finset.card (Finset.ext ?_)
  intro i
  rw [List.mem_toFinset,mem_live_from,Finset.mem_filter,Finset.mem_range]
  exact and_iff_right (Nat.zero_le i)

/-! ### The rounds -/

/-- One round at a node with a live position ahead. -/
theorem loop_round_live {n : Node} (rest : List Node) (rounds : Nat) {offset r : Nat} {more : List Nat} (sound : n.Sound)
    (ahead : live_from n offset = r :: more) : more = live_from n (r+1) ∧
      loop_rounds (rounds+1) n rest offset =
        (r :: (loop_rounds rounds n rest (r+1)).1,(loop_rounds rounds n rest (r+1)).2 + 1) := by
  rcases live_from_found sound offset with ⟨_,none⟩ | ⟨less,found⟩
  · rw [ahead] at none
    cases none
  · rw [ahead] at found
    obtain ⟨same,tail⟩ := List.cons.inj found
    rw [← same] at less tail
    refine ⟨tail,?_⟩
    rw [sound.mask] at same
    rw [loop_rounds.eq_def]
    dsimp only
    rw [sound.mask,← same,if_neg less.ne]

/-- As many rounds as live positions stay within the node. -/
theorem loop_rounds_within {n : Node} (sound : n.Sound) (rest : List Node) {rounds offset : Nat}
    (enough : (live_from n offset).length = rounds) : loop_rounds rounds n rest offset = (live_from n offset,rounds) := by
  induction rounds generalizing offset with
  | zero =>
    rw [List.eq_nil_of_length_eq_zero enough]
    rfl
  | succ rounds ih =>
    obtain ⟨r,more,ahead⟩ := List.exists_cons_of_length_eq_add_one enough
    obtain ⟨tail,round⟩ := loop_round_live rest rounds sound ahead
    rw [ahead,List.length_cons,tail] at enough
    rw [round,ih (Nat.succ.inj enough),ahead,tail]

/-- With more rounds than live positions the next node is entered, and the action is called with a position of it. -/
theorem loop_rounds_beyond {n : Node} (sound : n.Sound) (n' : Node) (rest : List Node) {rounds offset : Nat}
    (more : (live_from n offset).length < rounds) : ∃ later, (loop_rounds rounds n (n' :: rest) offset).1 =
      live_from n offset ++ cl_find_next_bit n'.arr_bitmap.bitmap n'.arr_bitmap.mask_count 0 :: later := by
  induction rounds generalizing offset with
  | zero => exact absurd more (Nat.not_lt_zero _)
  | succ rounds ih =>
    cases ahead : live_from n offset with
    | nil =>
      rcases live_from_found sound offset with ⟨last,_⟩ | ⟨_,found⟩
      · refine ⟨(loop_rounds rounds n' rest (cl_find_next_bit n'.arr_bitmap.bitmap n'.arr_bitmap.mask_count 0 + 1)).1,?_⟩
        rw [loop_rounds,last,sound.mask]
        dsimp only
        rw [if_pos rfl]
        rfl
      · rw [ahead] at found
        cases found
    | cons r tail =>
      obtain ⟨same,round⟩ := loop_round_live (n' :: rest) rounds sound ahead
      rw [ahead,List.length_cons,same] at more
      obtain ⟨later,calls⟩ := ih (Nat.lt_of_succ_lt_succ more)
      exact ⟨later,by rw [round,calls,same]; rfl⟩

/-! ### The table -/

/-- The live handles are those of the first node and those behind it. -/
theorem used_split {t : Table} {m : Nat → Option Nat} {n : Node} {rest : List Node} (valid : Valid t m)
    (nodes : t.nodes = n :: rest) : t.used_index = (live_from n 0).length +
      Nat.count (fun h => (lookup rest h).isSome) (MAX_COUNT_PER_ARRAY * rest.length) := by
  have sound := valid.sound
  rw [nodes] at sound
  rw [valid.used,nodes,List.map_cons,List.sum_cons,live_from_count (sound n (by simp)),
    counts_live (fun n' member => sound n' (by simp [member]))]

theorem visits_within {t : Table} {m : Nat → Option Nat} (valid : Valid t m)
    (low : ∀ h, (m h).isSome → h < MAX_COUNT_PER_ARRAY) : Visits t m := by
  cases nodes : t.nodes with
  | nil => exact absurd nodes valid.nonempty
  | cons n rest =>
    have sound : n.Sound := valid.sound n (by simp [nodes])
    have none_behind : Nat.count (fun h => (lookup rest h).isSome) (MAX_COUNT_PER_ARRAY * rest.length) = 0 := by
      rw [Nat.count_iff_forall_not]
      intro h _ live
      have here := low (MAX_COUNT_PER_ARRAY + h) (by rw [valid.map,nodes,lookup_later]; exact live)
      omega
    have used := used_split valid nodes
    rw [none_behind,Nat.add_zero] at used
    refine ⟨live_from n 0,t.used_index,?_,live_from_increasing n 0,?_,used⟩
    · rw [i2p_loop,nodes]
      dsimp only
      rw [loop_rounds_within sound rest used.symm]
    · intro h
      rw [mem_live_from]
      constructor
      · rintro ⟨_,inside,set⟩
        rw [valid.map,nodes,lookup_here rest inside,if_pos set]
        rfl
      · intro live
        have inside := low h live
        refine ⟨Nat.zero_le h,inside,?_⟩
        rw [valid.map,nodes,lookup_here rest inside] at live
        by_contra clear
        rw [if_neg clear] at live
        cases live

/-- The first position of another node is taken for a handle, and that handle is not the one that comes next. -/
theorem visits_beyond {t : Table} {m : Nat → Option Nat} (valid : Valid t m) {h : Nat} (live : (m h).isSome)
    (beyond : MAX_COUNT_PER_ARRAY ≤ h) : ¬Visits t m := by
  rintro ⟨calls,ret,done,increasing,handles,_⟩
  have inside := valid_beyond valid live
  have map := valid.map
  cases nodes : t.nodes with
  | nil => exact absurd nodes valid.nonempty
  | cons n rest =>
    cases rest with
    | nil =>
      rw [nodes,List.length_singleton,Nat.mul_one] at inside
      omega
    | cons n' rest =>
      have sound : n.Sound := valid.sound n (by simp [nodes])
      have sound' : n'.Sound := valid.sound n' (by simp [nodes])
      obtain ⟨j,rfl⟩ : ∃ j, h = MAX_COUNT_PER_ARRAY + j := ⟨h - MAX_COUNT_PER_ARRAY,by omega⟩
      have more : (live_from n 0).length < t.used_index := by
        have behind : (lookup (n' :: rest) j).isSome := by rwa [map,nodes,lookup_later] at live
        have some_behind : 0 < Nat.count (fun h => (lookup (n' :: rest) h).isSome) (MAX_COUNT_PER_ARRAY * (n' :: rest).length) := by
          rw [nodes,List.length_cons,Nat.mul_succ] at inside
          exact Nat.pos_of_ne_zero (fun zero => Nat.count_iff_forall_not.mp zero j (by omega) behind)
        rw [used_split valid nodes]
        omega
      obtain ⟨later,start⟩ := loop_rounds_beyond sound n' rest more
      rw [i2p_loop,nodes] at done
      rw [congrArg Prod.fst (Option.some.inj done)] at start
      dsimp only at start
      subst start
      have called := (handles _).mp (List.mem_append_right _ (List.mem_cons_self ..))
      rw [map,nodes] at called
      rcases live_from_found sound' 0 with ⟨last,none⟩ | ⟨less,_⟩
      · -- an empty node: the handle behind its end is the first of it
        rw [last,← Nat.add_zero MAX_COUNT_PER_ARRAY,lookup_later,lookup_here rest (by decide)] at called
        have clear : ¬test_bit 0 n'.arr_bitmap.bitmap = true := by
          intro set
          have member := mem_live_from.mpr ⟨le_refl 0,by decide,set⟩
          rw [none] at member
          cases member
        rw [if_neg clear] at called
        cases called
      · -- a live position of it: the same position of the first node would be live, and was passed
        rw [lookup_here _ less] at called
        have set : test_bit (cl_find_next_bit n'.arr_bitmap.bitmap n'.arr_bitmap.mask_count 0) n.arr_bitmap.bitmap = true := by
          by_contra clear
          rw [if_neg clear] at called
          cases called
        have before := (List.pairwise_append.mp increasing).2.2 _ (mem_live_from.mpr ⟨Nat.zero_le _,less,set⟩) _
          (List.mem_cons_self ..)
        exact lt_irrefl _ before

/-- For every table that a run reaches, the loop visits the live handles if and only if all of them are of the first
    node. -/
theorem loop_visits_iff {t : Table} {m : Nat → Option Nat} (run : Run t m) :
    Visits t m ↔ ∀ h, (m h).isSome → h < MAX_COUNT_PER_ARRAY := by
  have valid := run_valid run
  constructor
  · intro visits h live
    by_contra beyond
    exact visits_beyond valid live (Nat.le_of_not_lt beyond) visits
  · exact visits_within valid

/-! ### A process with 1025 handles -/

/-- With the handles 0 to 1024 live, the action is called with 0 for the last of them. -/
theorem loop_misses : ∃ t, Run t (first_handles 1025) ∧ ¬Visits t (first_handles 1025) := by
  obtain ⟨t,run,addrs,used⟩ := first_handles_run (le_refl MAX_COUNT_PER_ARRAY)
  have answers : Answers t.nodes (some 65536) := by
    intro addr same
    cases same
    refine ⟨by decide,?_⟩
    intro n member
    have placed : n.addr ∈ t.nodes.map (·.addr) := List.mem_map_of_mem member
    rw [addrs,List.mem_singleton] at placed
    rw [placed]
    exact .inl (by decide)
  obtain ⟨h,t',done,outcome⟩ := alloc_valid 77 (some 65536) (run_valid run) answers
  rw [if_neg (by rintro ⟨_,none⟩; cases none)] at outcome
  obtain ⟨served,free,lowest,_⟩ := outcome
  have next := Run.alloc run answers done
  rw [if_neg served,first_handles_next free lowest,first_handles_succ] at next
  refine ⟨t',next,visits_beyond (run_valid next) (h := 1024) ?_ (by decide)⟩
  rfl

/-- In the table with two handles the loop visits both. -/
theorem loop_visits_first : ∃ t, Run t (first_handles 2) ∧ Visits t (first_handles 2) := by
  obtain ⟨t,run,_⟩ := first_handles_run (show 2 ≤ MAX_COUNT_PER_ARRAY by decide)
  refine ⟨t,run,(loop_visits_iff run).mpr (fun h live => ?_)⟩
  unfold first_handles at live
  split at live
  · next few => exact lt_trans few (by decide)
  · cases live

end GridOS.I2p
