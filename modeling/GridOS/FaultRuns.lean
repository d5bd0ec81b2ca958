import GridOS.Fault

/-!
Runs of threads that fault on the same address. The first one whose update of the table comes through
maps the page and gets `true`; for every other one the entry is not empty any more, which each refill
handler takes for a failure.
-/
namespace GridOS.Fault
open GridOS.Words GridOS.Walk

/-- The entry is there. -/
def Valid (s : State) (p va : Nat) : Prop := KE_PAGE_INVALID_PTE (km_pte_read s p va) = false

/-- The file has a buffer for the address, and it is mapped in the system. -/
structure Buffered (b : Backing) (address : Nat) (s : State) : Prop where
  found : prepare_dbd b address ≠ 0
  room : prepare_dbd b address + PAGE_SIZE < modulus
  valid : Valid s SYSTEM (prepare_dbd b address)

/-- Nothing that the section needs can fail: there is a frame for a private page, the access is permitted, and
    the source of a shared page is mapped or can be restored from its file. No file or share section is one of the
    system process, and a share has two processes: the two ticket locks that `exp.c` takes with `kp_get_mem`, which are
    left out here, are those of different processes. -/
def Ready (f : Access) (s : State) : Prop :=
  match f.sec with
  | .priv _ | .stack _ => (∃ page rest, s.free = page :: rest ∧ page ≠ 0) ∧ ∀ i, f.code i &&& PAGE_FAULT_P = 0
  | .file b => Buffered b f.address s ∧ ∀ i, f.code i &&& PAGE_FAULT_W = 0 ∨ b.prot &&& KM_PROT_WRITE ≠ 0
  | .share sh => sh.source_address f.address + PAGE_SIZE < modulus ∧
      ¬(f.process = sh.src_process ∧ f.address / PAGE_SIZE = sh.source_address f.address / PAGE_SIZE) ∧
      (Valid s sh.src_process (sh.source_address f.address) ∨
        km_pte_read s sh.src_process (sh.source_address f.address) = 0 ∧
          Buffered sh.src (sh.source_address f.address) s ∧ km_arch_get_flags sh.src.prot % 2 = 1)

/-- The threads below `n` fault on an address that is not mapped. -/
structure Faulting (f : Access) (n : Nat) (s : State) : Prop where
  threads : ∀ i, s.pc i = if i < n then .fault else .done false
  missing : km_pte_read s f.process f.address = 0
  ready : Ready f s

/-- The entries of `s'` are those of `s` but for the page of the fault and those that `also` names. -/
def SameBut (f : Access) (also : Nat → Nat → Prop) (s s' : State) : Prop :=
  ∀ p q, ¬(p = f.process ∧ q = f.address / PAGE_SIZE) → ¬also p q → s'.pte p q = s.pte p q

/-- One frame is mapped at the address: a new one for a private page, which is mapped nowhere else, or the one of the
    source, and then none was allocated. -/
def OneFrame (f : Access) (s s' : State) : Prop :=
  match f.sec with
  | .priv prot | .stack prot => ∃ page, s.free = page :: s'.free ∧
      km_pte_read s' f.process f.address = page ||| km_arch_get_flags prot ∧ SameBut f (fun _ _ => False) s s'
  | .file b => s'.free = s.free ∧ SameBut f (fun _ _ => False) s s' ∧ km_pte_read s' f.process f.address =
      shared_pte (km_pte_read s SYSTEM (prepare_dbd b f.address)) b.prot
  | .share sh => s'.free = s.free ∧
      SameBut f (fun p q => p = sh.src_process ∧ q = sh.source_address f.address / PAGE_SIZE) s s' ∧
      Valid s' sh.src_process (sh.source_address f.address) ∧ km_pte_read s' f.process f.address =
        shared_pte (km_pte_read s' sh.src_process (sh.source_address f.address)) sh.prot

/-! ### Entries -/

theorem valid_iff (pte : Nat) : KE_PAGE_INVALID_PTE pte = false ↔ pte % 2 = 1 := by
  rw [KE_PAGE_INVALID_PTE,PAGE_FLAG_VALID,Nat.and_one_is_mod]
  simp only [Bool.or_eq_false_iff,beq_eq_false_iff_ne]
  omega

theorem shared_pte_ne (pte prot : Nat) : shared_pte pte prot ≠ 0 := by
  rw [shared_pte,Ne,Nat.or_eq_zero_iff]
  intro both
  exact absurd both.2 (by decide)

theorem shared_pte_valid {prot : Nat} (pte : Nat) (readable : km_arch_get_flags prot % 2 = 1) :
    KE_PAGE_INVALID_PTE (shared_pte pte prot) = false := by
  rw [valid_iff,shared_pte,Nat.or_mod_two_eq_one,Nat.or_mod_two_eq_one]
  exact .inl (.inr readable)

section Tables
variable {s : State} {p va what : Nat}

theorem pte_write_empty (empty : km_pte_read s p va = 0) : km_pte_write s p va what =
    { s with pte := Function.update s.pte p (Function.update (s.pte p) (va / PAGE_SIZE) what) } := by
  rw [km_pte_write,if_neg (by simp [empty])]

theorem read_write (empty : km_pte_read s p va = 0) : km_pte_read (km_pte_write s p va what) p va = what := by
  rw [pte_write_empty empty]
  simp [km_pte_read]

theorem pte_write_other {p' q' : Nat} (other : ¬(p' = p ∧ q' = va / PAGE_SIZE)) :
    (km_pte_write s p va what).pte p' q' = s.pte p' q' := by
  rw [km_pte_write]
  split
  · rfl
  · by_cases same : p' = p
    · subst same
      have differ : q' ≠ va / PAGE_SIZE := fun equal => other ⟨rfl,equal⟩
      simp [Function.update_of_ne differ]
    · simp [Function.update_of_ne same]

@[simp] theorem pte_write_free : (km_pte_write s p va what).free = s.free := by
  rw [km_pte_write]
  split <;> rfl

@[simp] theorem pte_write_pc : (km_pte_write s p va what).pc = s.pc := by
  rw [km_pte_write]
  split <;> rfl

@[simp] theorem move_pte (i : Nat) (pc : Pc) : (move i pc s).pte = s.pte := rfl

@[simp] theorem move_free (i : Nat) (pc : Pc) : (move i pc s).free = s.free := rfl

@[simp] theorem read_move (i : Nat) (pc : Pc) : km_pte_read (move i pc s) p va = km_pte_read s p va := rfl

theorem move_pc (i j : Nat) (pc : Pc) : (move i pc s).pc j = if j = i then pc else s.pc j := Function.update_apply ..

end Tables

/-! ### A page that is mapped -/

theorem share_mapped {s : State} {dst dst_addr : Nat} (mapped : km_pte_read s dst dst_addr ≠ 0) (src src_addr prot : Nat) :
    km_page_share dst dst_addr src src_addr prot s = (.err,s) := by
  rw [km_page_share,if_pos mapped]

theorem share_unmapped {s : State} {dst dst_addr src src_addr : Nat} (empty : km_pte_read s dst dst_addr = 0)
    (room : src_addr + PAGE_SIZE < modulus) (prot : Nat) : km_page_share dst dst_addr src src_addr prot s =
      if KE_PAGE_INVALID_PTE (km_pte_read s src src_addr) then (.src_invalid,s)
      else (.ok,km_pte_write s dst dst_addr (shared_pte (km_pte_read s src src_addr) prot)) := by
  rw [km_page_share,if_neg (by simp [empty]),add_exact room,if_pos (Nat.lt_add_of_pos_right (by decide))]

theorem step_done {f : Access} {i : Nat} {s : State} {ret : Bool} (done : s.pc i = .done ret) : step f i s = s := by
  rw [step,done]
  cases f.sec <;> rfl

theorem valid_ne {s : State} {p va : Nat} (valid : Valid s p va) : km_pte_read s p va ≠ 0 := by
  intro empty
  rw [Valid,empty] at valid
  cases valid

theorem move_self (i : Nat) (s : State) : move i (s.pc i) s = s := by
  rw [move,Function.update_eq_self]

/-- When the page and the source are mapped, a step only moves its thread, and not to success. -/
theorem step_mapped {f : Access} {i : Nat} {s : State} (mapped : km_pte_read s f.process f.address ≠ 0)
    (source : ∀ sh, f.sec = .share sh → km_pte_read s sh.src_process (sh.source_address f.address) ≠ 0) :
    ∃ pc, step f i s = move i pc s ∧ (pc = .done true → s.pc i = .done true) := by
  have stays : step f i s = s → ∃ pc, step f i s = move i pc s ∧ (pc = .done true → s.pc i = .done true) :=
    fun same => ⟨s.pc i,by rw [same,move_self],id⟩
  have refused : ∀ prot, ∃ pc, refill_private f prot i s = move i pc s ∧ (pc = .done true → s.pc i = .done true) := by
    intro prot
    refine ⟨.done false,?_,by simp⟩
    rw [refill_private]
    split
    · rfl
    · rw [km_page_create,if_pos mapped]
  have restored : ∀ b address next, (∀ db_addr, next db_addr ≠ .done true) → ∃ pc,
      restore_file b address i next s = move i pc s ∧ pc ≠ .done true := by
    intro b address next other
    refine ⟨_,rfl,?_⟩
    split
    · simp
    · exact other _
  cases kind : f.sec with
  | priv prot =>
    cases pc : s.pc i with
    | fault => simpa [step,kind,pc] using refused prot
    | _ => exact pc ▸ stays (by simp [step,kind,pc])
  | stack prot =>
    cases pc : s.pc i with
    | fault => simpa [step,kind,pc] using refused prot
    | _ => exact pc ▸ stays (by simp [step,kind,pc])
  | file b =>
    cases pc : s.pc i with
    | fault =>
      rw [step,kind,pc]
      dsimp only
      rw [refill_file]
      split
      · exact ⟨.done false,rfl,by simp⟩
      · obtain ⟨next,same,other⟩ := restored b f.address .mapping (by simp)
        exact ⟨next,same,fun now => absurd now other⟩
    | mapping db_addr => exact ⟨.done false,by simp [step,kind,pc,share_mapped mapped],by simp⟩
    | _ => exact pc ▸ stays (by simp [step,kind,pc])
  | share sh =>
    cases pc : s.pc i with
    | fault => exact ⟨.sharing,by simp [step,kind,pc],by simp⟩
    | sharing => exact ⟨.done false,by simp [step,kind,pc,ks_restore_share,share_mapped mapped],by simp⟩
    | restoring =>
      obtain ⟨next,same,other⟩ := restored sh.src (sh.source_address f.address) .remapping (by simp)
      exact ⟨next,by simpa [step,kind,pc] using same,fun now => absurd now other⟩
    | remapping db_addr => exact ⟨.done false,by simp [step,kind,pc,share_mapped (source sh kind)],by simp⟩
    | _ => exact pc ▸ stays (by simp [step,kind,pc])

/-- The page is mapped, and one thread has mapped it. -/
structure Settled (f : Access) (n : Nat) (s₀ s : State) : Prop where
  mapped : km_pte_read s f.process f.address ≠ 0
  frame : OneFrame f s₀ s
  winner : ∃ w < n, ∀ i, s.pc i = .done true ↔ i = w

theorem one_frame_move {f : Access} {s₀ s : State} (i : Nat) (pc : Pc) (frame : OneFrame f s₀ s) :
    OneFrame f s₀ (move i pc s) := by
  rw [OneFrame] at frame ⊢
  cases kind : f.sec with
  | priv prot => rw [kind] at frame; exact frame
  | stack prot => rw [kind] at frame; exact frame
  | file b => rw [kind] at frame; exact frame
  | share sh => rw [kind] at frame; exact frame

theorem settled_step {f : Access} {n : Nat} {s₀ s : State} (settled : Settled f n s₀ s) (i : Nat) :
    Settled f n s₀ (step f i s) := by
  have source : ∀ sh, f.sec = .share sh → km_pte_read s sh.src_process (sh.source_address f.address) ≠ 0 := by
    intro sh kind
    have frame := settled.frame
    rw [OneFrame,kind] at frame
    exact valid_ne frame.2.2.1
  obtain ⟨pc,moved,success⟩ := step_mapped (i := i) settled.mapped source
  rw [moved]
  obtain ⟨w,below,winner⟩ := settled.winner
  refine ⟨settled.mapped,one_frame_move i pc settled.frame,w,below,fun j => ?_⟩
  rw [move_pc]
  by_cases same : j = i
  · subst same
    rw [if_pos rfl]
    constructor
    · intro now
      exact (winner j).mp (success now)
    · -- the winner has no step left
      intro won
      have done := (winner j).mpr won
      rw [step_done done] at moved
      have here := congrArg (fun s => s.pc j) moved
      simp only [move_pc,if_pos] at here
      rw [← here,done]
  · rw [if_neg same]
    exact winner j

/-! ### Before the page is mapped -/

/-- No thread has come to its update of the table. -/
structure PrivateOpen (n : Nat) (s₀ s : State) : Prop where
  pte : s.pte = s₀.pte
  free : s.free = s₀.free
  threads : ∀ i, s.pc i = if i < n then .fault else .done false

structure FileOpen (f : Access) (b : Backing) (n : Nat) (s₀ s : State) : Prop where
  pte : s.pte = s₀.pte
  free : s.free = s₀.free
  active : ∀ i < n, s.pc i = .fault ∨ s.pc i = .mapping (prepare_dbd b f.address)
  threads : ∀ i, n ≤ i → s.pc i = .done false

/-- Once the source is mapped, the thread that has mapped it is back at `share_again`, unless all others are still
    at their faults; who gives up has found the source mapped. -/
structure ShareOpen (f : Access) (sh : Share) (n : Nat) (s₀ s : State) : Prop where
  free : s.free = s₀.free
  same : SameBut f (fun p q => p = sh.src_process ∧ q = sh.source_address f.address / PAGE_SIZE) s₀ s
  missing : km_pte_read s f.process f.address = 0
  source : Valid s sh.src_process (sh.source_address f.address) ∨
    km_pte_read s sh.src_process (sh.source_address f.address) = 0 ∧
      Buffered sh.src (sh.source_address f.address) s ∧ km_arch_get_flags sh.src.prot % 2 = 1
  active : ∀ i < n, s.pc i = .fault ∨ s.pc i = .sharing ∨ s.pc i = .restoring ∨
    s.pc i = .remapping (prepare_dbd sh.src (sh.source_address f.address)) ∨ s.pc i = .done false
  threads : ∀ i, n ≤ i → s.pc i = .done false
  unrestored : ∀ i < n, s.pc i = .done false → Valid s sh.src_process (sh.source_address f.address)
  back : Valid s sh.src_process (sh.source_address f.address) →
    (∃ i < n, s.pc i = .sharing) ∨ ∀ i < n, s.pc i = .fault

/-- The page is not mapped. -/
def Open (f : Access) (n : Nat) (s₀ s : State) : Prop :=
  match f.sec with
  | .priv _ | .stack _ => PrivateOpen n s₀ s
  | .file b => FileOpen f b n s₀ s
  | .share sh => ShareOpen f sh n s₀ s

/-- The thread that maps the page is the winner. -/
theorem winner_of_move {s : State} {n i : Nat} (below : i < n) (none : ∀ j, s.pc j ≠ .done true) :
    ∃ w < n, ∀ j, (move i (.done true) s).pc j = .done true ↔ j = w := by
  refine ⟨i,below,fun j => ?_⟩
  rw [move_pc]
  by_cases same : j = i
  · simp [same]
  · simp [same,none j]

section Kinds
variable {f : Access} {n i : Nat} {s₀ s : State}

theorem private_step (prot : Nat) (faulting : Faulting f n s₀)
    (kind : f.sec = .priv prot ∨ f.sec = .stack prot) (opened : PrivateOpen n s₀ s) (below : i < n) :
    Settled f n s₀ (refill_private f prot i s) := by
  have ready : (∃ page rest, s₀.free = page :: rest ∧ page ≠ 0) ∧ ∀ i, f.code i &&& PAGE_FAULT_P = 0 := by
    have ready := faulting.ready
    rcases kind with kind | kind
    · rw [Ready,kind] at ready; exact ready
    · rw [Ready,kind] at ready; exact ready
  obtain ⟨⟨page,rest,free,some_page⟩,code⟩ := ready
  have empty : km_pte_read s f.process f.address = 0 := by
    rw [km_pte_read,opened.pte]
    exact faulting.missing
  have alloc : km_page_alloc s = (page,{ s with free := rest }) := by
    rw [km_page_alloc,opened.free,free]
  have created : km_page_create f.process f.address prot s =
      (true,km_pte_write { s with free := rest } f.process f.address (page ||| km_arch_get_flags prot)) := by
    rw [km_page_create,if_neg (by simp [empty]),alloc]
    exact if_neg some_page
  have result : refill_private f prot i s = move i (.done true)
      (km_pte_write { s with free := rest } f.process f.address (page ||| km_arch_get_flags prot)) := by
    rw [refill_private,if_neg (by simp [code i]),created]
  have mapped : km_pte_read (refill_private f prot i s) f.process f.address = page ||| km_arch_get_flags prot := by
    rw [result,read_move]
    exact read_write empty
  have same : SameBut f (fun _ _ => False) s₀ (refill_private f prot i s) := by
    intro p q other _
    rw [result,move_pte,pte_write_other other,opened.pte]
  have frame : ∃ page, s₀.free = page :: (refill_private f prot i s).free ∧
      km_pte_read (refill_private f prot i s) f.process f.address = page ||| km_arch_get_flags prot ∧
      SameBut f (fun _ _ => False) s₀ (refill_private f prot i s) :=
    ⟨page,by rw [result,move_free,pte_write_free,free],mapped,same⟩
  constructor
  · rw [mapped,Ne,Nat.or_eq_zero_iff]
    exact fun both => some_page both.1
  · rcases kind with kind | kind
    · rw [OneFrame,kind]; exact frame
    · rw [OneFrame,kind]; exact frame
  · rw [result]
    refine winner_of_move below (fun j => ?_)
    rw [pte_write_pc]
    change s.pc j ≠ _
    rw [opened.threads]
    split <;> simp

theorem file_step {b : Backing} (faulting : Faulting f n s₀) (kind : f.sec = .file b) (opened : FileOpen f b n s₀ s)
    (below : i < n) : FileOpen f b n s₀ (step f i s) ∨ Settled f n s₀ (step f i s) := by
  have ready := faulting.ready
  rw [Ready,kind] at ready
  obtain ⟨⟨found,room,valid⟩,permitted⟩ := ready
  rcases opened.active i below with pc | pc
  · left
    have allowed : ¬(f.code i &&& PAGE_FAULT_W ≠ 0 ∧ b.prot &&& KM_PROT_WRITE = 0) := by
      rintro ⟨write,read_only⟩
      rcases permitted i with read | writable
      · exact write read
      · exact writable read_only
    have moved : step f i s = move i (.mapping (prepare_dbd b f.address)) s := by
      simp [step,kind,pc,refill_file,allowed,restore_file,found]
    rw [moved]
    refine ⟨opened.pte,opened.free,fun j inside => ?_,fun j outside => ?_⟩
    · rw [move_pc]
      split
      · exact .inr rfl
      · exact opened.active j inside
    · rw [move_pc,if_neg (by omega)]
      exact opened.threads j outside
  · right
    have empty : km_pte_read s f.process f.address = 0 := by
      rw [km_pte_read,opened.pte]
      exact faulting.missing
    have source : ∀ p va, km_pte_read s p va = km_pte_read s₀ p va := by
      intro p va
      rw [km_pte_read,opened.pte,km_pte_read]
    have shared : km_page_share f.process f.address SYSTEM (prepare_dbd b f.address) b.prot s =
        (.ok,km_pte_write s f.process f.address (shared_pte (km_pte_read s₀ SYSTEM (prepare_dbd b f.address)) b.prot)) := by
      rw [share_unmapped empty room,source,if_neg (by rw [Valid] at valid; simp [valid])]
    have result : step f i s = move i (.done true) (km_pte_write s f.process f.address
        (shared_pte (km_pte_read s₀ SYSTEM (prepare_dbd b f.address)) b.prot)) := by
      simp [step,kind,pc,shared]
    have mapped : km_pte_read (step f i s) f.process f.address =
        shared_pte (km_pte_read s₀ SYSTEM (prepare_dbd b f.address)) b.prot := by
      rw [result,read_move]
      exact read_write empty
    constructor
    · rw [mapped]
      exact shared_pte_ne _ _
    · rw [OneFrame,kind]
      refine ⟨by rw [result,move_free,pte_write_free,opened.free],?_,mapped⟩
      intro p q other _
      rw [result,move_pte,pte_write_other other,opened.pte]
    · rw [result]
      refine winner_of_move below (fun j => ?_)
      rw [pte_write_pc]
      by_cases inside : j < n
      · rcases opened.active j inside with pc | pc
        · simp [pc]
        · simp [pc]
      · simp [opened.threads j (by omega)]

/-- A thread that stays active, or gives up with the source mapped, while another one is at `share_again`. -/
theorem share_open_move {sh : Share} {pc : Pc} (opened : ShareOpen f sh n s₀ s) (below : i < n)
    (active : pc = .fault ∨ pc = .sharing ∨ pc = .restoring ∨
      pc = .remapping (prepare_dbd sh.src (sh.source_address f.address)) ∨ pc = .done false)
    (unrestored : pc = .done false → Valid s sh.src_process (sh.source_address f.address))
    (back : Valid s sh.src_process (sh.source_address f.address) → pc = .sharing ∨ ∃ j < n, j ≠ i ∧ s.pc j = .sharing) :
    ShareOpen f sh n s₀ (move i pc s) := by
  refine ⟨opened.free,opened.same,opened.missing,?_,?_,?_,?_,?_⟩
  · rcases opened.source with valid | ⟨empty,buffered,readable⟩
    · exact .inl valid
    · exact .inr ⟨empty,⟨buffered.found,buffered.room,buffered.valid⟩,readable⟩
  · intro j inside
    rw [move_pc]
    split
    · exact active
    · exact opened.active j inside
  · intro j outside
    rw [move_pc,if_neg (by omega)]
    exact opened.threads j outside
  · intro j inside
    rw [move_pc]
    split
    · exact unrestored
    · exact opened.unrestored j inside
  · intro valid
    left
    rcases back valid with here | ⟨j,inside,other,there⟩
    · exact ⟨i,below,by rw [move_pc,if_pos rfl,here]⟩
    · exact ⟨j,inside,by rw [move_pc,if_neg other,there]⟩

/-- The source is mapped: so is the page then. -/
theorem share_maps {sh : Share} (kind : f.sec = .share sh) (room : sh.source_address f.address + PAGE_SIZE < modulus)
    (distinct : ¬(f.process = sh.src_process ∧ f.address / PAGE_SIZE = sh.source_address f.address / PAGE_SIZE))
    (opened : ShareOpen f sh n s₀ s) (below : i < n) (pc : s.pc i = .sharing)
    (valid : Valid s sh.src_process (sh.source_address f.address)) : Settled f n s₀ (step f i s) := by
  generalize entry : shared_pte (km_pte_read s sh.src_process (sh.source_address f.address)) sh.prot = what
  have shared : km_page_share f.process f.address sh.src_process (sh.source_address f.address) sh.prot s =
      (.ok,km_pte_write s f.process f.address what) := by
    rw [share_unmapped opened.missing room,if_neg (by rw [Valid] at valid; simp [valid]),entry]
  have result : step f i s = move i (.done true) (km_pte_write s f.process f.address what) := by
    simp [step,kind,pc,ks_restore_share,shared]
  have source : km_pte_read (step f i s) sh.src_process (sh.source_address f.address) =
      km_pte_read s sh.src_process (sh.source_address f.address) := by
    rw [result,read_move]
    exact pte_write_other (fun same => distinct ⟨same.1.symm,same.2.symm⟩)
  have mapped : km_pte_read (step f i s) f.process f.address = what := by
    rw [result,read_move]
    exact read_write opened.missing
  constructor
  · rw [mapped,← entry]
    exact shared_pte_ne _ _
  · rw [OneFrame,kind]
    refine ⟨by rw [result,move_free,pte_write_free,opened.free],?_,by rw [Valid,source]; exact valid,by rw [mapped,source,entry]⟩
    intro p q other apart
    rw [result,move_pte,pte_write_other other]
    exact opened.same p q other apart
  · rw [result]
    refine winner_of_move below (fun j => ?_)
    rw [pte_write_pc]
    by_cases inside : j < n
    · rcases opened.active j inside with pc | pc | pc | pc | pc
      all_goals simp [pc]
    · simp [opened.threads j (by omega)]

/-- The source is mapped from its file. -/
theorem remap_result {sh : Share} (kind : f.sec = .share sh)
    (pc : s.pc i = .remapping (prepare_dbd sh.src (sh.source_address f.address)))
    (empty : km_pte_read s sh.src_process (sh.source_address f.address) = 0)
    (buffered : Buffered sh.src (sh.source_address f.address) s) (readable : km_arch_get_flags sh.src.prot % 2 = 1) :
    (∃ what, step f i s = move i .sharing (km_pte_write s sh.src_process (sh.source_address f.address) what)) ∧
      Valid (step f i s) sh.src_process (sh.source_address f.address) := by
  generalize entry : shared_pte (km_pte_read s SYSTEM (prepare_dbd sh.src (sh.source_address f.address))) sh.src.prot = what
  have shared : km_page_share sh.src_process (sh.source_address f.address) SYSTEM
      (prepare_dbd sh.src (sh.source_address f.address)) sh.src.prot s =
        (.ok,km_pte_write s sh.src_process (sh.source_address f.address) what) := by
    have valid := buffered.valid
    rw [Valid] at valid
    rw [share_unmapped empty buffered.room,if_neg (by simp [valid]),entry]
  have result : step f i s = move i .sharing (km_pte_write s sh.src_process (sh.source_address f.address) what) := by
    simp [step,kind,pc,shared]
  refine ⟨⟨what,result⟩,?_⟩
  rw [Valid,result,read_move,read_write empty,← entry]
  exact shared_pte_valid _ readable

theorem share_remaps {sh : Share} (kind : f.sec = .share sh)
    (distinct : ¬(f.process = sh.src_process ∧ f.address / PAGE_SIZE = sh.source_address f.address / PAGE_SIZE))
    (opened : ShareOpen f sh n s₀ s) (below : i < n)
    (pc : s.pc i = .remapping (prepare_dbd sh.src (sh.source_address f.address)))
    (empty : km_pte_read s sh.src_process (sh.source_address f.address) = 0)
    (buffered : Buffered sh.src (sh.source_address f.address) s) (readable : km_arch_get_flags sh.src.prot % 2 = 1) :
    ShareOpen f sh n s₀ (step f i s) := by
  obtain ⟨⟨what,result⟩,source⟩ := remap_result kind pc empty buffered readable
  have threads : ∀ j, (step f i s).pc j = if j = i then .sharing else s.pc j := by
    intro j
    rw [result,move_pc,pte_write_pc]
  refine ⟨by rw [result,move_free,pte_write_free,opened.free],?_,?_,.inl source,?_,?_,fun _ _ _ => source,?_⟩
  · intro p q other apart
    rw [result,move_pte,pte_write_other apart]
    exact opened.same p q other apart
  · rw [result,read_move]
    exact (pte_write_other distinct).trans opened.missing
  · intro j inside
    rw [threads]
    split
    · exact .inr (.inl rfl)
    · exact opened.active j inside
  · intro j outside
    rw [threads,if_neg (by omega)]
    exact opened.threads j outside
  · intro _
    exact .inl ⟨i,below,by rw [threads,if_pos rfl]⟩

theorem share_step {sh : Share} (faulting : Faulting f n s₀) (kind : f.sec = .share sh) (opened : ShareOpen f sh n s₀ s)
    (below : i < n) : ShareOpen f sh n s₀ (step f i s) ∨ Settled f n s₀ (step f i s) := by
  have ready := faulting.ready
  rw [Ready,kind] at ready
  obtain ⟨room,distinct,_⟩ := ready
  -- a thread on its way to the source is not the one that has mapped it
  have another : s.pc i ≠ .fault → s.pc i ≠ .sharing → Valid s sh.src_process (sh.source_address f.address) →
      ∃ j < n, j ≠ i ∧ s.pc j = .sharing := by
    intro started elsewhere valid
    rcases opened.back valid with ⟨j,inside,there⟩ | all
    · refine ⟨j,inside,?_,there⟩
      rintro rfl
      exact elsewhere there
    · exact absurd (all i below) started
  have invalid : km_pte_read s sh.src_process (sh.source_address f.address) = 0 →
      ¬Valid s sh.src_process (sh.source_address f.address) := fun empty valid => valid_ne valid empty
  rcases opened.active i below with pc | pc | pc | pc | pc
  · left
    have moved : step f i s = move i .sharing s := by simp [step,kind,pc]
    rw [moved]
    exact share_open_move opened below (.inr (.inl rfl)) (by simp) (fun _ => .inl rfl)
  · rcases opened.source with valid | ⟨empty,_,_⟩
    · right
      exact share_maps kind room distinct opened below pc valid
    · left
      have moved : step f i s = move i .restoring s := by
        have shared : km_page_share f.process f.address sh.src_process (sh.source_address f.address) sh.prot s =
            (.src_invalid,s) := by
          rw [share_unmapped opened.missing room,empty]
          rfl
        simp [step,kind,pc,ks_restore_share,shared]
      rw [moved]
      exact share_open_move opened below (.inr (.inr (.inl rfl))) (by simp) (fun valid => absurd valid (invalid empty))
  · left
    have moved : step f i s = move i (if prepare_dbd sh.src (sh.source_address f.address) = 0 then .done false
        else .remapping (prepare_dbd sh.src (sh.source_address f.address))) s := by
      simp [step,kind,pc,restore_file]
    have others := another (by simp [pc]) (by simp [pc])
    rw [moved]
    by_cases none : prepare_dbd sh.src (sh.source_address f.address) = 0
    · rw [if_pos none]
      refine share_open_move opened below (by simp) (fun _ => ?_) (fun valid => .inr (others valid))
      rcases opened.source with valid | ⟨_,buffered,_⟩
      · exact valid
      · exact absurd none buffered.found
    · rw [if_neg none]
      exact share_open_move opened below (by simp) (by simp) (fun valid => .inr (others valid))
  · left
    have others := another (by simp [pc]) (by simp [pc])
    rcases opened.source with valid | ⟨empty,buffered,readable⟩
    · have moved : step f i s = move i (.done false) s := by
        simp [step,kind,pc,share_mapped (valid_ne valid)]
      rw [moved]
      exact share_open_move opened below (by simp) (fun _ => valid) (fun valid => .inr (others valid))
    · exact share_remaps kind distinct opened below pc empty buffered readable
  · left
    rw [step_done pc]
    exact opened

/-! ### Runs -/

theorem open_outside (opened : Open f n s₀ s) (outside : n ≤ i) : s.pc i = .done false := by
  rw [Open] at opened
  cases kind : f.sec with
  | priv prot => rw [kind] at opened; rw [opened.threads i,if_neg (by omega)]
  | stack prot => rw [kind] at opened; rw [opened.threads i,if_neg (by omega)]
  | file b => rw [kind] at opened; exact opened.threads i outside
  | share sh => rw [kind] at opened; exact opened.threads i outside

/-- A private page and one of the stack are mapped by the same refill. -/
theorem private_open_step (prot : Nat) (faulting : Faulting f n s₀)
    (kind : f.sec = .priv prot ∨ f.sec = .stack prot) (opened : PrivateOpen n s₀ s) (below : i < n) :
    Settled f n s₀ (step f i s) := by
  have pc := opened.threads i
  rw [if_pos below] at pc
  have result : step f i s = refill_private f prot i s := by
    rcases kind with kind | kind
    · simp [step,kind,pc]
    · simp [step,kind,pc]
  rw [result]
  exact private_step prot faulting kind opened below

theorem open_step (faulting : Faulting f n s₀) (opened : Open f n s₀ s) :
    Open f n s₀ (step f i s) ∨ Settled f n s₀ (step f i s) := by
  by_cases below : i < n
  · rw [Open] at opened
    cases kind : f.sec with
    | priv prot =>
      rw [kind] at opened
      exact .inr (private_open_step prot faulting (.inl kind) opened below)
    | stack prot =>
      rw [kind] at opened
      exact .inr (private_open_step prot faulting (.inr kind) opened below)
    | file b =>
      rw [kind] at opened
      rw [Open,kind]
      exact file_step faulting kind opened below
    | share sh =>
      rw [kind] at opened
      rw [Open,kind]
      exact share_step faulting kind opened below
  · rw [step_done (open_outside opened (not_lt.mp below))]
    exact .inl opened

theorem faulting_open (faulting : Faulting f n s) : Open f n s s := by
  have threads := faulting.threads
  have ready := faulting.ready
  rw [Ready] at ready
  rw [Open]
  cases kind : f.sec with
  | priv prot => exact ⟨rfl,rfl,threads⟩
  | stack prot => exact ⟨rfl,rfl,threads⟩
  | file b =>
    refine ⟨rfl,rfl,fun i below => .inl ?_,fun i outside => ?_⟩
    · rw [threads,if_pos below]
    · rw [threads,if_neg (by omega)]
  | share sh =>
    rw [kind] at ready
    have all : ∀ i < n, s.pc i = .fault := fun i below => by rw [threads,if_pos below]
    refine ⟨rfl,fun _ _ _ _ => rfl,faulting.missing,ready.2.2,fun i below => .inl (all i below),fun i outside => ?_,
      fun i below gone => ?_,fun _ => .inr all⟩
    · rw [threads,if_neg (by omega)]
    · rw [all i below] at gone
      cases gone

/-- An entry that is not empty stays. -/
theorem pte_write_keeps {p va what p' q' : Nat} (mapped : s.pte p' q' ≠ 0) :
    (km_pte_write s p va what).pte p' q' = s.pte p' q' := by
  by_cases same : p' = p ∧ q' = va / PAGE_SIZE
  · obtain ⟨rfl,rfl⟩ := same
    have there : km_pte_read s p' va ≠ 0 := mapped
    rw [km_pte_write,if_pos there]
  · exact pte_write_other same

/-- What the creation and the share of a page do to the entries and the threads: one entry is written, if any. -/
def Writes (s s' : State) : Prop :=
  ∃ t : State, t.pte = s.pte ∧ t.pc = s.pc ∧ (s' = t ∨ ∃ p va what, s' = km_pte_write t p va what)

theorem share_writes {dst dst_addr src src_addr prot : Nat} : Writes s (km_page_share dst dst_addr src src_addr prot s).2 := by
  refine ⟨s,rfl,rfl,?_⟩
  rw [km_page_share]
  split
  · exact .inl rfl
  · split
    · split
      · exact .inl rfl
      · exact .inr ⟨_,_,_,rfl⟩
    · exact .inl rfl

theorem create_writes {p address prot : Nat} : Writes s (km_page_create p address prot s).2 := by
  rw [km_page_create]
  split
  · exact ⟨s,rfl,rfl,.inl rfl⟩
  · have alloc : (km_page_alloc s).2.pte = s.pte ∧ (km_page_alloc s).2.pc = s.pc := by
      rw [km_page_alloc]
      split <;> exact ⟨rfl,rfl⟩
    refine ⟨(km_page_alloc s).2,alloc.1,alloc.2,?_⟩
    dsimp only
    split
    · exact .inl rfl
    · exact .inr ⟨_,_,_,rfl⟩

theorem Writes.pc {s s' : State} (writes : Writes s s') : s'.pc = s.pc := by
  obtain ⟨t,_,pc,rfl | ⟨p,va,what,rfl⟩⟩ := writes
  · exact pc
  · rw [pte_write_pc,pc]

theorem Writes.keeps {s s' : State} (writes : Writes s s') (p q : Nat) (mapped : s.pte p q ≠ 0) : s'.pte p q = s.pte p q := by
  obtain ⟨t,pte,_,rfl | ⟨p',va,what,rfl⟩⟩ := writes
  · rw [pte]
  · rw [pte_write_keeps (by rw [pte]; exact mapped),pte]

/-- A step moves its own thread, and keeps the entries that are not empty. -/
theorem step_frame (f : Access) (i : Nat) (s : State) : ∃ pc s', step f i s = move i pc s' ∧ s'.pc = s.pc ∧
    ∀ p q, s.pte p q ≠ 0 → s'.pte p q = s.pte p q := by
  have stays : ∃ pc s', s = move i pc s' ∧ s'.pc = s.pc ∧ ∀ p q, s.pte p q ≠ 0 → s'.pte p q = s.pte p q :=
    ⟨s.pc i,s,(move_self i s).symm,rfl,fun _ _ _ => rfl⟩
  have refill : ∀ prot, ∃ pc s', refill_private f prot i s = move i pc s' ∧ s'.pc = s.pc ∧
      ∀ p q, s.pte p q ≠ 0 → s'.pte p q = s.pte p q := by
    intro prot
    rw [refill_private]
    split
    · exact ⟨_,_,rfl,rfl,fun _ _ _ => rfl⟩
    · exact ⟨_,_,rfl,create_writes.pc,create_writes.keeps⟩
  rw [step]
  split
  · exact refill _
  · exact refill _
  · rw [refill_file]
    split
    · exact ⟨_,_,rfl,rfl,fun _ _ _ => rfl⟩
    · exact ⟨_,_,rfl,rfl,fun _ _ _ => rfl⟩
  · exact ⟨_,_,rfl,share_writes.pc,share_writes.keeps⟩
  · exact ⟨_,_,rfl,rfl,fun _ _ _ => rfl⟩
  · rw [ks_restore_share]
    split
    all_goals exact ⟨_,_,rfl,share_writes.pc,share_writes.keeps⟩
  · exact ⟨_,_,rfl,rfl,fun _ _ _ => rfl⟩
  · exact ⟨_,_,rfl,share_writes.pc,share_writes.keeps⟩
  · exact stays

/-! ### Every thread comes to its end -/

/-- The source of a share section is mapped. -/
def sourceValid (f : Access) (s : State) : Bool :=
  match f.sec with
  | .share sh => !KE_PAGE_INVALID_PTE (km_pte_read s sh.src_process (sh.source_address f.address))
  | _ => true

/-- The steps that are left, at most: a thread that has restored the source does not come back to it. -/
def rank (f : Access) (s : State) : Pc → Nat
  | .fault => 6
  | .sharing => if sourceValid f s then 1 else 5
  | .restoring => 3
  | .remapping _ => 2
  | .mapping _ => 1
  | .done _ => 0

/-- The places that the handler of the section has. -/
def Shape (f : Access) : Pc → Prop
  | .fault => True
  | .done _ => True
  | .mapping _ => ∃ b, f.sec = .file b
  | .remapping db_addr => ∃ sh, f.sec = .share sh ∧ db_addr = prepare_dbd sh.src (sh.source_address f.address)
  | _ => ∃ sh, f.sec = .share sh

theorem restore_pc (b : Backing) (address : Nat) (next : Nat → Pc) : (restore_file b address i next s).pc i =
    if prepare_dbd b address = 0 then .done false else next (prepare_dbd b address) := by
  rw [restore_file,move_pc,if_pos rfl]

theorem share_src_invalid {dst dst_addr src src_addr prot : Nat}
    (invalid : (km_page_share dst dst_addr src src_addr prot s).1 = .src_invalid) :
    KE_PAGE_INVALID_PTE (km_pte_read s src src_addr) = true := by
  rw [km_page_share] at invalid
  split at invalid
  · cases invalid
  · split at invalid
    · split at invalid
      · next missing => exact missing
      · cases invalid
    · cases invalid

/-- Every step of a thread that is not done brings it nearer to its end. -/
theorem step_rank (shape : Shape f (s.pc i)) (active : ∀ ret, s.pc i ≠ .done ret)
    (source : ∀ sh, f.sec = .share sh → Valid s sh.src_process (sh.source_address f.address) ∨
      km_pte_read s sh.src_process (sh.source_address f.address) = 0 ∧
        Buffered sh.src (sh.source_address f.address) s ∧ km_arch_get_flags sh.src.prot % 2 = 1) :
    Shape f ((step f i s).pc i) ∧ rank f (step f i s) ((step f i s).pc i) < rank f s (s.pc i) := by
  have refill : ∀ prot, ∃ ret, (refill_private f prot i s).pc i = .done ret := by
    intro prot
    rw [refill_private]
    split
    · exact ⟨_,by rw [move_pc,if_pos rfl]⟩
    · exact ⟨_,by rw [move_pc,if_pos rfl]⟩
  cases pc : s.pc i with
  | done ret => exact absurd pc (active ret)
  | fault =>
    cases kind : f.sec with
    | priv prot =>
      obtain ⟨ret,finished⟩ := refill prot
      simp [step,kind,pc,finished,Shape,rank]
    | stack prot =>
      obtain ⟨ret,finished⟩ := refill prot
      simp [step,kind,pc,finished,Shape,rank]
    | file b =>
      have result : step f i s = refill_file f b i s := by simp [step,kind,pc]
      rw [result,refill_file]
      split
      · simp [move_pc,Shape,rank]
      · rw [restore_pc]
        split
        · simp [Shape,rank]
        · simp [Shape,rank,kind]
    | share sh =>
      have result : step f i s = move i .sharing s := by simp [step,kind,pc]
      rw [result,move_pc,if_pos rfl]
      refine ⟨⟨sh,kind⟩,?_⟩
      rw [rank,rank]
      split <;> omega
  | mapping db_addr =>
    rw [pc] at shape
    obtain ⟨b,kind⟩ := shape
    simp [step,kind,pc,move_pc,Shape,rank]
  | sharing =>
    rw [pc] at shape
    obtain ⟨sh,kind⟩ := shape
    have positive : 0 < rank f s .sharing := by
      rw [rank]
      split <;> omega
    have result : step f i s = ks_restore_share f sh i s := by simp [step,kind,pc]
    rw [result,ks_restore_share]
    split
    · simpa [move_pc,Shape,rank] using positive
    · simpa [move_pc,Shape,rank] using positive
    · next invalid =>
      have missing := share_src_invalid invalid
      simp [move_pc,Shape,rank,kind,sourceValid,missing]
  | restoring =>
    rw [pc] at shape
    obtain ⟨sh,kind⟩ := shape
    have result : step f i s = restore_file sh.src (sh.source_address f.address) i .remapping s := by simp [step,kind,pc]
    rw [result,restore_pc]
    split
    · simp [Shape,rank]
    · simp [Shape,rank,kind]
  | remapping db_addr =>
    rw [pc] at shape
    obtain ⟨sh,kind,rfl⟩ := shape
    rcases source sh kind with valid | ⟨empty,buffered,readable⟩
    · have result : step f i s = move i (.done false) s := by simp [step,kind,pc,share_mapped (valid_ne valid)]
      simp [result,move_pc,Shape,rank]
    · obtain ⟨⟨what,result⟩,valid⟩ := remap_result kind pc empty buffered readable
      have there : sourceValid f (step f i s) = true := by
        rw [Valid] at valid
        simp [sourceValid,kind,valid]
      have now : (step f i s).pc i = .sharing := by rw [result,move_pc,if_pos rfl]
      rw [now]
      simp [Shape,rank,kind,there]

/-- What holds between the steps. -/
structure Going (f : Access) (n : Nat) (s₀ s : State) : Prop where
  phase : Open f n s₀ s ∨ Settled f n s₀ s
  shape : ∀ i, Shape f (s.pc i)

theorem going_start (faulting : Faulting f n s) : Going f n s s := by
  refine ⟨.inl (faulting_open faulting),fun i => ?_⟩
  rw [faulting.threads]
  split
  · trivial
  · trivial

theorem going_source (going : Going f n s₀ s) (sh : Share) (kind : f.sec = .share sh) :
    Valid s sh.src_process (sh.source_address f.address) ∨
      km_pte_read s sh.src_process (sh.source_address f.address) = 0 ∧
        Buffered sh.src (sh.source_address f.address) s ∧ km_arch_get_flags sh.src.prot % 2 = 1 := by
  rcases going.phase with opened | settled
  · rw [Open,kind] at opened
    exact opened.source
  · have frame := settled.frame
    rw [OneFrame,kind] at frame
    exact .inl frame.2.2.1

theorem going_step (faulting : Faulting f n s₀) (going : Going f n s₀ s) (i : Nat) : Going f n s₀ (step f i s) := by
  constructor
  · rcases going.phase with opened | settled
    · exact open_step faulting opened
    · exact .inr (settled_step settled i)
  · intro j
    by_cases same : j = i
    · subst same
      by_cases active : ∀ ret, s.pc j ≠ .done ret
      · exact (step_rank (going.shape j) active (going_source going)).1
      · simp only [not_forall,not_not] at active
        obtain ⟨ret,done⟩ := active
        rw [step_done done]
        exact going.shape j
    · obtain ⟨pc,s',result,threads,_⟩ := step_frame f i s
      rw [result,move_pc,if_neg same,threads]
      exact going.shape j

/-- The steps of a thread do not bring another one back. -/
theorem rank_other {j : Nat} (other : j ≠ i) : rank f (step f i s) ((step f i s).pc j) ≤ rank f s (s.pc j) := by
  obtain ⟨pc,s',result,threads,keeps⟩ := step_frame f i s
  have same : (step f i s).pc j = s.pc j := by rw [result,move_pc,if_neg other,threads]
  have valid : sourceValid f s = true → sourceValid f (step f i s) = true := by
    intro before
    rw [sourceValid] at before ⊢
    cases kind : f.sec with
    | share sh =>
      rw [kind] at before
      simp only [Bool.not_eq_eq_eq_not,Bool.not_true] at before ⊢
      rw [km_pte_read,result,move_pte,keeps _ _ (valid_ne before)]
      exact before
    | _ => rfl
  rw [same]
  cases s.pc j with
  | sharing =>
    rw [rank,rank]
    split
    · split <;> omega
    · split
      · next before now => exact absurd (valid now) before
      · omega
  | _ => exact Nat.le_refl _

theorem run_going (faulting : Faulting f n s₀) (going : Going f n s₀ s) (schedule : List Nat) :
    Going f n s₀ (run f schedule s) ∧ ∀ j, rank f (run f schedule s) ((run f schedule s).pc j) ≤
      rank f s (s.pc j) - schedule.count j := by
  induction schedule generalizing s with
  | nil => exact ⟨going,fun j => by simp [run]⟩
  | cons i schedule ih =>
    obtain ⟨going',left⟩ := ih (going_step faulting going i)
    refine ⟨going',fun j => ?_⟩
    have rest : rank f (run f (i :: schedule) s) ((run f (i :: schedule) s).pc j) ≤
        rank f (step f i s) ((step f i s).pc j) - schedule.count j := left j
    by_cases same : j = i
    · subst same
      rw [List.count_cons_self]
      by_cases active : ∀ ret, s.pc j ≠ .done ret
      · have nearer := (step_rank (going.shape j) active (going_source going)).2
        omega
      · simp only [not_forall,not_not] at active
        obtain ⟨ret,done⟩ := active
        have none : rank f s (s.pc j) = 0 := by rw [done,rank]
        rw [step_done done] at rest
        omega
    · rw [List.count_cons_of_ne (Ne.symm same)]
      have := rank_other (f := f) (s := s) same
      omega

theorem rank_le (f : Access) (s : State) (pc : Pc) : rank f s pc ≤ 6 := by
  cases pc with
  | sharing =>
    rw [rank]
    split <;> omega
  | _ => simp [rank]

theorem done_of_rank {pc : Pc} (zero : rank f s pc = 0) : ∃ ret, pc = .done ret := by
  cases pc with
  | done ret => exact ⟨ret,rfl⟩
  | sharing =>
    rw [rank] at zero
    split at zero <;> cases zero
  | _ => cases zero

/-- Not all threads are done while the page is not mapped. -/
theorem open_active (opened : Open f n s₀ s) (some_thread : 0 < n) : ∃ i < n, ∀ ret, s.pc i ≠ .done ret := by
  rw [Open] at opened
  cases kind : f.sec with
  | priv prot =>
    rw [kind] at opened
    exact ⟨0,some_thread,by simp [opened.threads,some_thread]⟩
  | stack prot =>
    rw [kind] at opened
    exact ⟨0,some_thread,by simp [opened.threads,some_thread]⟩
  | file b =>
    rw [kind] at opened
    refine ⟨0,some_thread,?_⟩
    rcases opened.active 0 some_thread with pc | pc
    · simp [pc]
    · simp [pc]
  | share sh =>
    rw [kind] at opened
    rcases opened.active 0 some_thread with pc | pc | pc | pc | pc
    · exact ⟨0,some_thread,by simp [pc]⟩
    · exact ⟨0,some_thread,by simp [pc]⟩
    · exact ⟨0,some_thread,by simp [pc]⟩
    · exact ⟨0,some_thread,by simp [pc]⟩
    · rcases opened.back (opened.unrestored 0 some_thread pc) with ⟨i,below,sharing⟩ | all
      · exact ⟨i,below,by simp [sharing]⟩
      · rw [all 0 some_thread] at pc
        cases pc

/-- However the threads run, one frame is mapped, by one thread that gets `true`, and all others get `false`. So all
    get `true` exactly when there is only one. -/
theorem concurrent_faults (faulting : Faulting f n s) (some_thread : 0 < n) (schedule : List Nat)
    (long : ∀ i < n, 6 ≤ schedule.count i) :
    ((∀ i < n, (run f schedule s).pc i = .done true) ∧ OneFrame f s (run f schedule s) ↔ n = 1) ∧
      OneFrame f s (run f schedule s) ∧ ∃ w < n, ∀ i < n, (run f schedule s).pc i = .done (decide (i = w)) := by
  obtain ⟨going,left⟩ := run_going faulting (going_start faulting) schedule
  have finished : ∀ i < n, ∃ ret, (run f schedule s).pc i = .done ret := by
    intro i below
    have enough := long i below
    have bound := rank_le f s (s.pc i)
    have := left i
    exact done_of_rank (f := f) (s := run f schedule s) (by omega)
  have settled : Settled f n s (run f schedule s) := by
    rcases going.phase with opened | settled
    · obtain ⟨i,below,active⟩ := open_active opened some_thread
      obtain ⟨ret,done⟩ := finished i below
      exact absurd done (active ret)
    · exact settled
  obtain ⟨w,inside,winner⟩ := settled.winner
  have results : ∀ i < n, (run f schedule s).pc i = .done (decide (i = w)) := by
    intro i below
    obtain ⟨ret,done⟩ := finished i below
    rw [done]
    cases ret with
    | true => simp [(winner i).mp done]
    | false =>
      have lost : i ≠ w := by
        rintro rfl
        rw [(winner i).mpr rfl] at done
        cases done
      simp [lost]
  refine ⟨?_,settled.frame,w,inside,results⟩
  constructor
  · rintro ⟨all,_⟩
    by_contra several
    have first := (winner 0).mp (all 0 some_thread)
    have second := (winner 1).mp (all 1 (by omega))
    omega
  · rintro rfl
    refine ⟨fun i below => ?_,settled.frame⟩
    rw [results i below]
    have : i = w := by omega
    simp [this]

end Kinds

/-- A write to a private page that is not there. -/
def private_access : Access := ⟨.priv (KM_PROT_READ ||| KM_PROT_WRITE),1,0x400000,fun _ => PAGE_FAULT_W⟩

/-- The threads below `n` at their faults, and two free frames. -/
def faulted (n : Nat) : State := ⟨fun _ _ => 0,[0x100000,0x101000],fun i => if i < n then .fault else .done false⟩

theorem faulted_faulting (n : Nat) : Faulting private_access n (faulted n) :=
  ⟨fun _ => rfl,rfl,⟨⟨0x100000,[0x101000],rfl,by decide⟩,by simp [private_access,PAGE_FAULT_W,PAGE_FAULT_P]⟩⟩

/-- A single thread. -/
theorem concurrent_faults_alone : (run private_access (List.replicate 6 0) (faulted 1)).pc 0 = .done true :=
  ((concurrent_faults (faulted_faulting 1) (by decide) (List.replicate 6 0) (by decide)).1.mpr rfl).1 0 (by decide)

/-- Of two threads that fault on the same page the second one gets `false`, although the page is there. -/
theorem second_fault_fails : Faulting private_access 2 (faulted 2) ∧
    (run private_access [0,1] (faulted 2)).pc 0 = .done true ∧ (run private_access [0,1] (faulted 2)).pc 1 = .done false ∧
    km_pte_read (run private_access [0,1] (faulted 2)) 1 0x400000 = 0x100007 :=
  ⟨faulted_faulting 2,by decide +kernel,by decide +kernel,by decide +kernel⟩

end GridOS.Fault
