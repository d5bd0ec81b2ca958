import GridOS.Sched

/-!
Runs of the scheduler. Every thread that a run queue holds is there once, in the queue
of its priority and in the running state, so the number of queued threads is that of
their addresses and no counter wraps.
-/
namespace GridOS.Sched
open GridOS.Words GridOS.Bits

section Words

@[simp] theorem base_set_base (state stat : BitVec 32) : base (set_base state stat) = base stat := by
  rw [base,set_base,base]
  ext i
  simp only [BitVec.getElem_and,BitVec.getElem_or,BitVec.getElem_not]
  cases state[i] <;> cases stat[i] <;> cases KT_STATE_MASK[i] <;> rfl

theorem mask_set {mask : BitVec 32} {p : Nat} (inside : p < KT_PRIORITY_COUNT) (q : Nat) :
    (mask ||| BitVec.twoPow 32 p).getLsbD q = (decide (q = p) || mask.getLsbD q) := by
  have position : p < 32 := inside
  rw [BitVec.getLsbD_or,BitVec.getLsbD_twoPow]
  by_cases same : q = p
  · simp [same,position]
  · simp [same,Ne.symm same]

theorem mask_clear {mask : BitVec 32} {p q : Nat} (inside : q < KT_PRIORITY_COUNT) :
    (mask &&& ~~~BitVec.twoPow 32 p).getLsbD q = (!decide (q = p) && mask.getLsbD q) := by
  have position : q < 32 := inside
  rw [BitVec.getLsbD_and,BitVec.getLsbD_not,BitVec.getLsbD_twoPow]
  by_cases same : q = p
  · simp [same]
  · simp [same,Ne.symm same,position]

/-- The lowest set bit of a word that has one. -/
theorem ffs_spec {word : BitVec 32} (set : word ≠ 0) :
    ffs word < KT_PRIORITY_COUNT ∧ word.getLsbD (ffs word) = true ∧ ∀ i < ffs word, word.getLsbD i = false := by
  have gap : ~~~word ≠ BitVec.allOnes 32 := by
    intro full
    apply set
    rw [← BitVec.not_not (b := word),full]
    rfl
  obtain ⟨inside,clear,before⟩ := ffz_spec gap
  refine ⟨inside,?_,?_⟩
  · have position : ffz (~~~word) < 32 := inside
    rw [BitVec.getLsbD_not,decide_eq_true position,Bool.true_and,Bool.not_eq_false'] at clear
    exact clear
  · intro i less
    have position : i < 32 := Nat.lt_trans less inside
    have unset := before i less
    rw [BitVec.getLsbD_not] at unset
    simpa [position] using unset

end Words

/-! ### Queues -/

section Queues
variable {n : Nat} {queue : Nat → List Nat}

/-- Threads that are queued once each are no more than there are addresses. -/
theorem total_lt {m : Nat} (positive : 0 < m) (nodup : ∀ p < n, (queue p).Nodup)
    (apart : ∀ p < n, ∀ q < n, ∀ t, t ∈ queue p → t ∈ queue q → p = q)
    (inside : ∀ p < n, ∀ t ∈ queue p, 0 < t ∧ t < m) : ∑ p ∈ Finset.range n, (queue p).length < m := by
  have sizes : ∀ p ∈ Finset.range n, (queue p).length = (queue p).toFinset.card := by
    intro p member
    rw [List.toFinset_card_of_nodup (nodup p (Finset.mem_range.mp member))]
  have disjoint : ∀ p ∈ Finset.range n, ∀ q ∈ Finset.range n, p ≠ q →
      Disjoint (queue p).toFinset (queue q).toFinset := by
    intro p inP q inQ differ
    rw [Finset.disjoint_left]
    intro t left right
    exact differ (apart p (Finset.mem_range.mp inP) q (Finset.mem_range.mp inQ) t (List.mem_toFinset.mp left)
      (List.mem_toFinset.mp right))
  have bounded : (Finset.range n).biUnion (fun p => (queue p).toFinset) ⊆ Finset.Ioo 0 m := by
    intro t member
    obtain ⟨p,inP,queued⟩ := Finset.mem_biUnion.mp member
    exact Finset.mem_Ioo.mpr (inside p (Finset.mem_range.mp inP) t (List.mem_toFinset.mp queued))
  calc ∑ p ∈ Finset.range n, (queue p).length
      = ∑ p ∈ Finset.range n, (queue p).toFinset.card := Finset.sum_congr rfl sizes
    _ = ((Finset.range n).biUnion (fun p => (queue p).toFinset)).card := (Finset.card_biUnion disjoint).symm
    _ ≤ (Finset.Ioo 0 m).card := Finset.card_le_card bounded
    _ < m := by rw [Nat.card_Ioo]; omega

theorem sum_update {f : Nat → Nat} {p v : Nat} (inside : p < n) :
    ∑ q ∈ Finset.range n, Function.update f p v q + f p = ∑ q ∈ Finset.range n, f q + v := by
  have member := Finset.mem_range.mpr inside
  rw [Finset.sum_update_of_mem member,← Finset.sum_sdiff (Finset.singleton_subset_iff.mpr member),Finset.sum_singleton]
  omega

theorem mem_rotate {t : Nat} (queue : List Nat) : t ∈ list_rotate_left queue ↔ t ∈ queue := by
  cases queue with
  | nil => rfl
  | cons first rest => simp [list_rotate_left,or_comm]

theorem nodup_rotate {queue : List Nat} (nodup : queue.Nodup) : (list_rotate_left queue).Nodup := by
  cases queue with
  | nil => exact nodup
  | cons first rest => exact (List.perm_append_singleton first rest).nodup_iff.mpr nodup

theorem length_rotate (queue : List Nat) : (list_rotate_left queue).length = queue.length := by
  cases queue with
  | nil => rfl
  | cons first rest => simp [list_rotate_left]

end Queues

/-- The queues hold running threads of their priorities, no thread twice, and the summaries
    agree with the queues. -/
structure Shape (s : System) : Prop where
  priority_level : ∀ t, (s.threads t).priority_level < KT_PRIORITY_COUNT
  nodup : ∀ p < KT_PRIORITY_COUNT, (s.cpu.run_queue p).Nodup
  level : ∀ p < KT_PRIORITY_COUNT, ∀ t ∈ s.cpu.run_queue p, p = (s.threads t).priority_level
  placed : ∀ p < KT_PRIORITY_COUNT, ∀ t ∈ s.cpu.run_queue p, 0 < t ∧ t < modulus
  state : ∀ p < KT_PRIORITY_COUNT, ∀ t ∈ s.cpu.run_queue p, base (s.threads t).state = KT_STATE_RUNNING
  run_count : ∀ p < KT_PRIORITY_COUNT, s.cpu.run_count p = (s.cpu.run_queue p).length
  running_count : s.cpu.running_count = ∑ p ∈ Finset.range KT_PRIORITY_COUNT, (s.cpu.run_queue p).length
  run_mask : ∀ p < KT_PRIORITY_COUNT, s.cpu.run_mask.getLsbD p = true ↔ s.cpu.run_queue p ≠ []

/-- Besides, a running thread that is not a driver's is queued. -/
structure Inv (s : System) : Prop extends Shape s where
  queued : ∀ t, (s.threads t).desc_of_driver = false → base (s.threads t).state = KT_STATE_RUNNING →
    t ∈ s.cpu.run_queue (s.threads t).priority_level

section Steps
variable {s : System}

theorem list_empty_iff {cpu : kc_cpu} {who : Nat} :
    list_empty cpu who = true ↔ ∀ p < KT_PRIORITY_COUNT, who ∉ cpu.run_queue p := by
  simp [list_empty]

theorem linked_iff {cpu : kc_cpu} {who : Nat} :
    list_empty cpu who = false ↔ ∃ p < KT_PRIORITY_COUNT, who ∈ cpu.run_queue p := by
  rw [← Bool.not_eq_true,list_empty_iff]
  push Not
  rfl

theorem Shape.total_lt (inv : Shape s) : ∑ p ∈ Finset.range KT_PRIORITY_COUNT, (s.cpu.run_queue p).length < modulus := by
  refine Sched.total_lt (by decide) inv.nodup ?_ inv.placed
  intro p inP q inQ t left right
  rw [inv.level p inP t left,inv.level q inQ t right]

theorem select_spec (inv : Shape s) {p : Nat} (inside : p < KT_PRIORITY_COUNT) (busy : s.cpu.run_queue p ≠ [])
    (lowest : ∀ q < p, s.cpu.run_queue q = []) :
    ∃ next, select_in_queue s.cpu = some (next,{ s.cpu with
        run_queue := Function.update s.cpu.run_queue p (list_rotate_left (s.cpu.run_queue p)) }) ∧
      next ∈ s.cpu.run_queue p := by
  have bit := (inv.run_mask p inside).mpr busy
  have set : s.cpu.run_mask ≠ 0 := by
    intro zero
    rw [zero] at bit
    exact absurd bit (by simp)
  obtain ⟨below,found,before⟩ := ffs_spec set
  have level : ffs s.cpu.run_mask = p := by
    rcases Nat.lt_trichotomy (ffs s.cpu.run_mask) p with less | same | more
    · exact absurd (lowest _ less) ((inv.run_mask _ below).mp found)
    · exact same
    · rw [before p more] at bit
      exact absurd bit (by decide)
  obtain ⟨next,head,member⟩ : ∃ next, (list_rotate_left (s.cpu.run_queue p)).head? = some next ∧
      next ∈ s.cpu.run_queue p := by
    match queue : s.cpu.run_queue p with
    | [] => exact absurd queue busy
    | [first] => exact ⟨first,rfl,by simp⟩
    | first :: second :: rest => exact ⟨second,rfl,by simp⟩
  refine ⟨next,?_,member⟩
  rw [select_in_queue,if_neg set]
  dsimp only
  rw [level,head]
  rfl

theorem Inv.queued_all (inv : Inv s) : Queued s := by
  constructor
  · intro t other running
    have member := inv.queued t other running
    refine ⟨List.count_eq_one_of_mem (inv.nodup _ (inv.priority_level t)) member,?_⟩
    intro p inside differ here
    exact differ (inv.level p inside t here)
  · intro t _ resting p inside here
    exact resting (inv.state p inside t here)
  · exact inv.run_count
  · rw [inv.running_count]
    exact Finset.sum_congr rfl (fun p member => (inv.run_count p (Finset.mem_range.mp member)).symm)
  · exact inv.run_mask
  · intro p inside busy lowest
    obtain ⟨next,selected,member⟩ := select_spec inv.toShape inside busy lowest
    exact ⟨next,_,selected,member⟩

theorem started_inv (started : Started s) : Inv s := by
  have empty : ∀ p < KT_PRIORITY_COUNT, ∀ t, t ∉ s.cpu.run_queue p := by
    intro p _ t
    rw [started.run_queue]
    exact List.not_mem_nil
  refine ⟨⟨started.priority_level,?_,?_,?_,?_,?_,?_,?_⟩,?_⟩
  · intro p _
    rw [started.run_queue]
    exact List.nodup_nil
  · exact fun p inside t member => absurd member (empty p inside t)
  · exact fun p inside t member => absurd member (empty p inside t)
  · exact fun p inside t member => absurd member (empty p inside t)
  · intro p _
    rw [started.run_count,started.run_queue]
    rfl
  · rw [started.running_count]
    simp [started.run_queue]
  · intro p _
    simp [started.run_mask,started.run_queue]
  · intro t _ running
    exact absurd running (started.state t)

/-- A thread changes its state: it stays running while it is queued. -/
theorem Shape.set_thread {who : Nat} {t : ko_thread} (shape : Shape s)
    (same : t.priority_level = (s.threads who).priority_level)
    (stays : ∀ p < KT_PRIORITY_COUNT, who ∈ s.cpu.run_queue p → base t.state = KT_STATE_RUNNING) :
    Shape (set_thread s who t) := by
  have level : ∀ i, ((Sched.set_thread s who t).threads i).priority_level = (s.threads i).priority_level := by
    intro i
    by_cases here : i = who
    · simp [Sched.set_thread,here,same]
    · simp [Sched.set_thread,here]
  refine ⟨?_,shape.nodup,?_,shape.placed,?_,shape.run_count,shape.running_count,shape.run_mask⟩
  · intro i
    rw [level]
    exact shape.priority_level i
  · intro p inside i member
    rw [level]
    exact shape.level p inside i member
  · intro p inside i member
    show base (Function.update s.threads who t i).state = KT_STATE_RUNNING
    by_cases here : i = who
    · rw [here] at member ⊢
      rw [Function.update_self]
      exact stays p inside member
    · rw [Function.update_of_ne here]
      exact shape.state p inside i member

theorem Inv.set_thread {who : Nat} {t : ko_thread} (inv : Inv s)
    (same : t.priority_level = (s.threads who).priority_level)
    (driver : t.desc_of_driver = (s.threads who).desc_of_driver)
    (stays : ∀ p < KT_PRIORITY_COUNT, who ∈ s.cpu.run_queue p → base t.state = KT_STATE_RUNNING)
    (ran : t.desc_of_driver = false → base t.state = KT_STATE_RUNNING → base (s.threads who).state = KT_STATE_RUNNING) :
    Inv (set_thread s who t) := by
  refine ⟨inv.toShape.set_thread same stays,?_⟩
  intro i
  show (Function.update s.threads who t i).desc_of_driver = false →
    base (Function.update s.threads who t i).state = KT_STATE_RUNNING →
    i ∈ s.cpu.run_queue (Function.update s.threads who t i).priority_level
  by_cases here : i = who
  · rw [here,Function.update_self,same]
    intro other running
    exact inv.queued who (driver ▸ other) (ran other running)
  · rw [Function.update_of_ne here]
    exact inv.queued i

/-! ### Leaving a queue and joining one -/

@[simp] theorem dequeue_run_queue (cpu : kc_cpu) (who level p : Nat) :
    (dequeue cpu who level).run_queue p = (cpu.run_queue p).erase who := by
  simp only [dequeue]
  split <;> rfl

@[simp] theorem dequeue_run_count (cpu : kc_cpu) (who level : Nat) :
    (dequeue cpu who level).run_count = Function.update cpu.run_count level (sub (cpu.run_count level) 1) := by
  simp only [dequeue]
  split <;> rfl

@[simp] theorem dequeue_running_count (cpu : kc_cpu) (who level : Nat) :
    (dequeue cpu who level).running_count = sub cpu.running_count 1 := by
  simp only [dequeue]
  split <;> rfl

theorem dequeue_run_mask (cpu : kc_cpu) (who level : Nat) :
    (dequeue cpu who level).run_mask = if sub (cpu.run_count level) 1 = 0 then
      cpu.run_mask &&& ~~~BitVec.twoPow 32 level else cpu.run_mask := by
  simp only [dequeue,list_del_init,Function.update_self]
  split <;> rfl

theorem enqueue_run_queue (cpu : kc_cpu) (who level : Nat) :
    (enqueue cpu who level).run_queue level = cpu.run_queue level ++ [who] := Function.update_self ..

theorem enqueue_run_queue_other (cpu : kc_cpu) (who : Nat) {level p : Nat} (differ : p ≠ level) :
    (enqueue cpu who level).run_queue p = cpu.run_queue p := Function.update_of_ne differ ..

theorem length_le_total (queue : Nat → List Nat) {p : Nat} (inside : p < KT_PRIORITY_COUNT) :
    (queue p).length ≤ ∑ p ∈ Finset.range KT_PRIORITY_COUNT, (queue p).length :=
  Finset.single_le_sum (f := fun p => (queue p).length) (fun _ _ => Nat.zero_le _) (Finset.mem_range.mpr inside)

theorem shape_dequeue {who : Nat} (shape : Shape s)
    (linked : who ∈ s.cpu.run_queue (s.threads who).priority_level) :
    Shape { s with cpu := dequeue s.cpu who (s.threads who).priority_level } := by
  have inside := shape.priority_level who
  generalize same : (s.threads who).priority_level = level at linked inside
  have size := List.length_erase_of_mem linked
  have positive := List.length_pos_of_mem linked
  have elsewhere : ∀ p < KT_PRIORITY_COUNT, p ≠ level → (s.cpu.run_queue p).erase who = s.cpu.run_queue p := by
    intro p below differ
    refine List.erase_of_not_mem ?_
    intro here
    exact differ ((shape.level p below who here).trans same)
  have counted := shape.run_count level inside
  have exact_count : sub (s.cpu.run_count level) 1 = ((s.cpu.run_queue level).erase who).length := by
    rw [counted,sub_exact positive (Nat.lt_of_le_of_lt (length_le_total _ inside) shape.total_lt),size]
  refine ⟨shape.priority_level,?_,?_,?_,?_,?_,?_,?_⟩
  · intro p below
    rw [dequeue_run_queue]
    exact (shape.nodup p below).erase who
  · intro p below t member
    rw [dequeue_run_queue] at member
    exact shape.level p below t (List.mem_of_mem_erase member)
  · intro p below t member
    rw [dequeue_run_queue] at member
    exact shape.placed p below t (List.mem_of_mem_erase member)
  · intro p below t member
    rw [dequeue_run_queue] at member
    exact shape.state p below t (List.mem_of_mem_erase member)
  · intro p below
    rw [dequeue_run_queue,dequeue_run_count]
    by_cases here : p = level
    · rw [here,Function.update_self,exact_count]
    · rw [Function.update_of_ne here,elsewhere p below here]
      exact shape.run_count p below
  · simp only [dequeue_run_queue,dequeue_running_count]
    have sums : ∑ p ∈ Finset.range KT_PRIORITY_COUNT, ((s.cpu.run_queue p).erase who).length =
        ∑ p ∈ Finset.range KT_PRIORITY_COUNT, Function.update (fun p => (s.cpu.run_queue p).length) level
          ((s.cpu.run_queue level).length - 1) p := by
      refine Finset.sum_congr rfl ?_
      intro p member
      by_cases here : p = level
      · rw [here,Function.update_self,size]
      · rw [Function.update_of_ne here,elsewhere p (Finset.mem_range.mp member) here]
    have moved := sum_update (f := fun p => (s.cpu.run_queue p).length) (v := (s.cpu.run_queue level).length - 1) inside
    have least := length_le_total s.cpu.run_queue inside
    rw [shape.running_count,sub_exact (by omega) shape.total_lt,sums]
    omega
  · intro p below
    rw [dequeue_run_mask,exact_count,dequeue_run_queue]
    by_cases here : p = level
    · rw [here]
      by_cases last : ((s.cpu.run_queue level).erase who).length = 0
      · rw [if_pos last,mask_clear inside,List.length_eq_zero_iff.mp last]
        simp
      · rw [if_neg last,shape.run_mask level inside]
        have more : (s.cpu.run_queue level).erase who ≠ [] := fun none => last (by rw [none]; rfl)
        exact iff_of_true (List.ne_nil_of_mem linked) more
    · rw [elsewhere p below here,← shape.run_mask p below]
      split
      · rw [mask_clear below]
        simp [here]
      · rfl

theorem shape_enqueue {who : Nat} (shape : Shape s) (object : 0 < who ∧ who < modulus)
    (running : base (s.threads who).state = KT_STATE_RUNNING) (empty : list_empty s.cpu who = true) :
    Shape { s with cpu := enqueue s.cpu who (s.threads who).priority_level } := by
  have inside := shape.priority_level who
  have unlinked := list_empty_iff.mp empty
  generalize same : (s.threads who).priority_level = level at inside
  have cases_mem : ∀ p < KT_PRIORITY_COUNT, ∀ t, t ∈ (enqueue s.cpu who level).run_queue p →
      t ∈ s.cpu.run_queue p ∨ (p = level ∧ t = who) := by
    intro p below t member
    by_cases here : p = level
    · rw [here,enqueue_run_queue,List.mem_append,List.mem_singleton] at member
      rcases member with old | new
      · exact .inl (here ▸ old)
      · exact .inr ⟨here,new⟩
    · rw [enqueue_run_queue_other _ _ here] at member
      exact .inl member
  have nodup : ∀ p < KT_PRIORITY_COUNT, ((enqueue s.cpu who level).run_queue p).Nodup := by
    intro p below
    by_cases here : p = level
    · rw [here,enqueue_run_queue]
      refine (shape.nodup level inside).append (List.nodup_singleton who) ?_
      simpa using unlinked level inside
    · rw [enqueue_run_queue_other _ _ here]
      exact shape.nodup p below
  have levels : ∀ p < KT_PRIORITY_COUNT, ∀ t ∈ (enqueue s.cpu who level).run_queue p,
      p = (s.threads t).priority_level := by
    intro p below t member
    rcases cases_mem p below t member with old | ⟨rfl,rfl⟩
    · exact shape.level p below t old
    · exact same.symm
  have placed : ∀ p < KT_PRIORITY_COUNT, ∀ t ∈ (enqueue s.cpu who level).run_queue p, 0 < t ∧ t < modulus := by
    intro p below t member
    rcases cases_mem p below t member with old | ⟨rfl,rfl⟩
    · exact shape.placed p below t old
    · exact object
  have bound : ∑ p ∈ Finset.range KT_PRIORITY_COUNT, ((enqueue s.cpu who level).run_queue p).length < modulus := by
    refine Sched.total_lt (by decide) nodup ?_ placed
    intro p inP q inQ t left right
    rw [levels p inP t left,levels q inQ t right]
  have sums : ∑ p ∈ Finset.range KT_PRIORITY_COUNT, ((enqueue s.cpu who level).run_queue p).length =
      ∑ p ∈ Finset.range KT_PRIORITY_COUNT, (s.cpu.run_queue p).length + 1 := by
    have moved := sum_update (f := fun p => (s.cpu.run_queue p).length) (v := (s.cpu.run_queue level).length + 1) inside
    have same_sum : ∑ p ∈ Finset.range KT_PRIORITY_COUNT, ((enqueue s.cpu who level).run_queue p).length =
        ∑ p ∈ Finset.range KT_PRIORITY_COUNT, Function.update (fun p => (s.cpu.run_queue p).length) level
          ((s.cpu.run_queue level).length + 1) p := by
      refine Finset.sum_congr rfl ?_
      intro p _
      by_cases here : p = level
      · rw [here,enqueue_run_queue,Function.update_self,List.length_append,List.length_singleton]
      · rw [enqueue_run_queue_other _ _ here,Function.update_of_ne here]
    rw [same_sum]
    omega
  have least := length_le_total s.cpu.run_queue inside
  refine ⟨shape.priority_level,nodup,levels,placed,?_,?_,?_,?_⟩
  · intro p below t member
    rcases cases_mem p below t member with old | ⟨_,rfl⟩
    · exact shape.state p below t old
    · exact running
  · intro p below
    show Function.update s.cpu.run_count level (add (s.cpu.run_count level) 1) p = _
    by_cases here : p = level
    · rw [here,Function.update_self,enqueue_run_queue,List.length_append,List.length_singleton,
        shape.run_count level inside,add_exact (by omega)]
    · rw [Function.update_of_ne here,enqueue_run_queue_other _ _ here]
      exact shape.run_count p below
  · show add s.cpu.running_count 1 = _
    rw [sums,shape.running_count,add_exact (by omega)]
  · intro p below
    show (s.cpu.run_mask ||| BitVec.twoPow 32 level).getLsbD p = true ↔ _
    rw [mask_set inside]
    by_cases here : p = level
    · rw [here,enqueue_run_queue]
      simp
    · rw [enqueue_run_queue_other _ _ here,← shape.run_mask p below]
      simp [here]

/-! ### The calls -/

/-- Only a driver's thread may take the base state of a running thread to its sleep. -/
theorem resting_of_kind {t : ko_thread} {stat : BitVec 32}
    (kind : t.desc_of_driver = true ∨ base stat ≠ KT_STATE_RUNNING) (other : t.desc_of_driver = false) :
    base stat ≠ KT_STATE_RUNNING := by
  rcases kind with driver | resting
  · rw [other] at driver
    cases driver
  · exact resting

theorem sleep_inv {stat : BitVec 32} (inv : Inv s) (tame : Tame s (.sleep stat)) : Inv (kt_sleep s stat).2 := by
  have inside := inv.priority_level s.cpu.cur
  simp only [kt_sleep]
  by_cases running : base (s.threads s.cpu.cur).state = KT_STATE_RUNNING
  · rw [if_pos running]
    by_cases pending : has_flag stat KT_STATE_ADD_FORCE_BY_SYSTEM = false ∧ (s.threads s.cpu.cur).wakeup_count ≠ 0
    · rw [if_pos pending]
      exact inv.set_thread rfl rfl (fun _ _ _ => running) (fun _ _ => running)
    · rw [if_neg pending]
      obtain ⟨kind,in_queue⟩ := tame.resolve_left (fun all => pending all.2)
      obtain ⟨p,below,member⟩ := linked_iff.mp (in_queue running)
      have linked : s.cpu.cur ∈ s.cpu.run_queue (s.threads s.cpu.cur).priority_level :=
        inv.level p below _ member ▸ member
      have gone : ∀ q < KT_PRIORITY_COUNT,
          s.cpu.cur ∉ (dequeue s.cpu s.cpu.cur (s.threads s.cpu.cur).priority_level).run_queue q := by
        intro q inQ
        rw [dequeue_run_queue]
        exact (inv.nodup q inQ).not_mem_erase
      refine ⟨(shape_dequeue inv.toShape linked).set_thread rfl (fun q inQ here => absurd here (gone q inQ)),?_⟩
      intro t
      show (Function.update s.threads s.cpu.cur _ t).desc_of_driver = false →
        base (Function.update s.threads s.cpu.cur _ t).state = KT_STATE_RUNNING →
        t ∈ (dequeue s.cpu s.cpu.cur _).run_queue (Function.update s.threads s.cpu.cur _ t).priority_level
      by_cases here : t = s.cpu.cur
      · rw [here,Function.update_self]
        intro other still
        rw [base_set_base] at still
        exact absurd still (resting_of_kind kind other)
      · rw [Function.update_of_ne here,dequeue_run_queue]
        intro other still
        exact (List.mem_erase_of_ne here).mpr (inv.queued t other still)
  · rw [if_neg running]
    have kind := (tame.resolve_left (fun all => running all.1)).1
    refine inv.set_thread rfl rfl (fun p below here => absurd (inv.state p below _ here) running) ?_
    intro other still
    rw [base_set_base] at still
    exact absurd still (resting_of_kind kind other)

/-- What `kt_wakeup` can do: it refuses by the flag of the system, queues a resting thread, or counts the wakeup. -/
theorem wakeup_cases {s' : System} {who : Nat} (done : kt_wakeup s who = some s') :
    s' = s ∨
    (base (s.threads who).state ≠ KT_STATE_RUNNING ∧ list_empty s.cpu who = true ∧
      s' = set_thread { s with cpu := enqueue s.cpu who (s.threads who).priority_level } who
        { s.threads who with state := set_base (s.threads who).state KT_STATE_RUNNING }) ∨
    (base (s.threads who).state = KT_STATE_RUNNING ∧
      s' = set_thread s who { s.threads who with wakeup_count := add (s.threads who).wakeup_count 1 }) := by
  simp only [kt_wakeup] at done
  split at done
  · rename_i resting
    split at done
    · exact .inl (Option.some.inj done).symm
    split at done
    · cases done
    split at done
    · cases done
    · rename_i empty
      rw [Bool.not_eq_false] at empty
      exact .inr (.inl ⟨resting,empty,(Option.some.inj done).symm⟩)
  · rename_i running
    rw [ne_eq,not_not] at running
    exact .inr (.inr ⟨running,(Option.some.inj done).symm⟩)

theorem wakeup_driver_cases {s' : System} {who : Nat} (done : kt_wakeup_driver s who = some s') :
    (s.threads who).desc_of_driver = true ∧ list_empty s.cpu who = true ∧
      s' = set_thread { s with cpu.driver_thread := some who } who
        { s.threads who with state := set_base (s.threads who).state KT_STATE_RUNNING } := by
  simp only [kt_wakeup_driver] at done
  split at done
  · cases done
  split at done
  · cases done
  · rename_i driver empty
    rw [Bool.not_eq_false] at driver empty
    exact ⟨driver,empty,(Option.some.inj done).symm⟩

theorem wakeup_inv {s' : System} {who : Nat} (inv : Inv s) (object : 0 < who ∧ who < modulus)
    (done : kt_wakeup s who = some s') : Inv s' := by
  obtain rfl | ⟨_,empty,rfl⟩ | ⟨counted,rfl⟩ := wakeup_cases done
  · exact inv
  · have unlinked := list_empty_iff.mp empty
    -- first the state, then the queue
    generalize made : { s.threads who with state := set_base (s.threads who).state KT_STATE_RUNNING } = t
    have level : t.priority_level = (s.threads who).priority_level := by rw [← made]
    have running : base t.state = KT_STATE_RUNNING := by
      rw [← made,base_set_base]
      rfl
    have woken : Shape (set_thread s who t) :=
      inv.toShape.set_thread level (fun p below here => absurd here (unlinked p below))
    have updated : (set_thread s who t).threads who = t := Function.update_self ..
    have queued := shape_enqueue woken object (by rw [updated]; exact running) empty
    rw [updated,level] at queued
    refine ⟨queued,?_⟩
    intro i
    show (Function.update s.threads who t i).desc_of_driver = false →
      base (Function.update s.threads who t i).state = KT_STATE_RUNNING →
      i ∈ (enqueue s.cpu who (s.threads who).priority_level).run_queue (Function.update s.threads who t i).priority_level
    by_cases here : i = who
    · rw [here,Function.update_self,level,enqueue_run_queue]
      simp
    · rw [Function.update_of_ne here]
      intro other i_running
      have member := inv.queued i other i_running
      by_cases together : (s.threads i).priority_level = (s.threads who).priority_level
      · rw [together] at member ⊢
        rw [enqueue_run_queue]
        exact List.mem_append_left _ member
      · rw [enqueue_run_queue_other _ _ together]
        exact member
  · exact inv.set_thread rfl rfl (fun _ _ _ => counted) (fun _ _ => counted)

theorem wakeup_driver_inv {s' : System} {who : Nat} (inv : Inv s) (done : kt_wakeup_driver s who = some s') : Inv s' := by
  obtain ⟨driver,empty,rfl⟩ := wakeup_driver_cases done
  have unlinked := list_empty_iff.mp empty
  have before : Inv { s with cpu.driver_thread := some who } := ⟨⟨inv.priority_level,inv.nodup,inv.level,inv.placed,
    inv.state,inv.run_count,inv.running_count,inv.run_mask⟩,inv.queued⟩
  refine before.set_thread rfl rfl (fun p below here => absurd here (unlinked p below)) ?_
  intro other
  rw [show (s.threads who).desc_of_driver = false from other] at driver
  exact absurd driver (by decide)

theorem schedule_inv {s' : System} (inv : Inv s) (done : schedule s = some s') : Inv s' := by
  rw [schedule] at done
  obtain ⟨r,selected,rfl⟩ := Option.map_eq_some_iff.mp done
  have set : s.cpu.run_mask ≠ 0 := by
    intro zero
    rw [select_in_queue,if_pos zero] at selected
    cases selected
  obtain ⟨below,found,before⟩ := ffs_spec set
  generalize same : ffs s.cpu.run_mask = level at below found before
  have busy := (inv.run_mask level below).mp found
  have lowest : ∀ q < level, s.cpu.run_queue q = [] := by
    intro q less
    by_contra some_thread
    have bit := (inv.run_mask q (Nat.lt_trans less below)).mpr some_thread
    rw [before q less] at bit
    cases bit
  obtain ⟨next,again,_⟩ := select_spec inv.toShape below busy lowest
  rw [selected] at again
  obtain rfl := Option.some.inj again
  have members : ∀ p t, t ∈ Function.update s.cpu.run_queue level (list_rotate_left (s.cpu.run_queue level)) p ↔
      t ∈ s.cpu.run_queue p := by
    intro p t
    by_cases here : p = level
    · rw [here,Function.update_self,mem_rotate]
    · rw [Function.update_of_ne here]
  have lengths : ∀ p, (Function.update s.cpu.run_queue level (list_rotate_left (s.cpu.run_queue level)) p).length =
      (s.cpu.run_queue p).length := by
    intro p
    by_cases here : p = level
    · rw [here,Function.update_self,length_rotate]
    · rw [Function.update_of_ne here]
  refine ⟨⟨inv.priority_level,?_,?_,?_,?_,?_,?_,?_⟩,?_⟩
  · intro p inside
    show (Function.update s.cpu.run_queue level _ p).Nodup
    by_cases here : p = level
    · rw [here,Function.update_self]
      exact nodup_rotate (inv.nodup level below)
    · rw [Function.update_of_ne here]
      exact inv.nodup p inside
  · exact fun p inside t member => inv.level p inside t ((members p t).mp member)
  · exact fun p inside t member => inv.placed p inside t ((members p t).mp member)
  · exact fun p inside t member => inv.state p inside t ((members p t).mp member)
  · intro p inside
    show s.cpu.run_count p = (Function.update s.cpu.run_queue level _ p).length
    rw [lengths,inv.run_count p inside]
  · show s.cpu.running_count = ∑ p ∈ _, (Function.update s.cpu.run_queue level _ p).length
    simp only [lengths]
    exact inv.running_count
  · intro p inside
    show _ ↔ Function.update s.cpu.run_queue level _ p ≠ []
    rw [inv.run_mask p inside,ne_eq,ne_eq,← List.length_eq_zero_iff,← List.length_eq_zero_iff,lengths]
  · intro t other running
    exact (members _ t).mpr (inv.queued t other running)

theorem schedule_driver_inv (inv : Inv s) : Inv (kt_schedule_driver s) := by
  rw [kt_schedule_driver]
  split
  · exact inv
  · exact ⟨⟨inv.priority_level,inv.nodup,inv.level,inv.placed,inv.state,inv.run_count,inv.running_count,inv.run_mask⟩,
      inv.queued⟩

theorem act_inv {s' : System} {act : Act} (inv : Inv s) (permitted : Permitted act) (tame : Tame s act)
    (done : step s act = some s') : Inv s' := by
  cases act with
  | sleep stat =>
    obtain rfl := Option.some.inj done
    exact sleep_inv inv tame
  | wakeup who => exact wakeup_inv inv permitted done
  | wakeup_driver who => exact wakeup_driver_inv inv done
  | select => exact schedule_inv inv done
  | schedule_driver =>
    obtain rfl := Option.some.inj done
    exact schedule_driver_inv inv

theorem tame_run_inv {start : System} (started : Started start) (run : TameRun start s) : Inv s := by
  induction run with
  | start => exact started_inv started
  | act _ permitted tame done inv => exact act_inv inv permitted tame done

/-- In every state that tame steps reach, the queues and their summaries agree and the selector
    takes a thread of the lowest level that has one. -/
theorem tame_run_queued {start s : System} (started : Started start) (run : TameRun start s) : Queued s :=
  (tame_run_inv started run).queued_all

end Steps

/-- An empty CPU; thread 2 is a driver's, and the others have the normal priority. -/
def boot : System where
  cpu := { cur := 0, run_queue := fun _ => [], run_count := fun _ => 0, driver_thread := none, run_mask := 0,
           running_count := 0 }
  threads := fun t => { desc_of_driver := t == 2, state := 0, priority_level := 16, wakeup_count := 0 }

theorem boot_started : Started boot :=
  ⟨fun _ => rfl,fun _ => rfl,rfl,rfl,fun _ => (by decide : base 0 ≠ KT_STATE_RUNNING),
    fun _ => (by decide : 16 < KT_PRIORITY_COUNT)⟩

/-- Two threads are woken, one is selected and sleeps: the other is left. -/
theorem tame_run_queued_one_left : ∃ s, TameRun boot s ∧ s.cpu.run_queue 16 = [1] ∧ Queued s := by
  have object : ∀ who, 0 < who ∧ who < 4 → Permitted (.wakeup who) := by
    intro who small
    refine ⟨small.1,?_⟩
    rw [modulus]
    omega
  have run₁ : TameRun boot _ := .act .start (object 1 (by decide)) trivial rfl
  have run₂ : TameRun boot _ := .act run₁ (object 3 (by decide)) trivial rfl
  have run₃ : TameRun boot _ := .act run₂ (show Permitted .select from trivial) trivial rfl
  have run₄ : TameRun boot _ := .act run₃ (show Permitted (.sleep KT_STATE_WAITING_SYNC) from trivial)
    (.inr ⟨.inr (by decide),fun _ => by decide⟩) rfl
  exact ⟨_,run₄,rfl,tame_run_queued boot_started run₄⟩

/-- A driver's thread that is woken by `kt_wakeup_driver` and sleeps takes thread 1 out of the
    count and the level out of the mask; the next selection panics. -/
theorem driver_sleep_hides_level : Started boot ∧ (∀ act ∈ [.wakeup 1,.select,.wakeup_driver 2,.schedule_driver,
      .sleep KT_STATE_WAITING_SYNC], Permitted act) ∧
    ∃ s, List.foldlM step boot [.wakeup 1,.select,.wakeup_driver 2,.schedule_driver,.sleep KT_STATE_WAITING_SYNC] = some s ∧
      s.cpu.run_queue 16 = [1] ∧ s.cpu.run_count 16 = 0 ∧ s.cpu.run_mask = 0 ∧ schedule s = none ∧ ¬Queued s := by
  refine ⟨boot_started,?_,_,rfl,rfl,rfl,rfl,rfl,?_⟩
  · simp [Permitted,modulus]
  · intro queued
    exact absurd (queued.run_count 16 (by decide)) (by decide)

end GridOS.Sched
