import GridOS.IrqLine
import Mathlib.Tactic

/-!
Runs of interrupt lines. What a step does to a line is seen in its descriptor and its bit of the mask
registers, and no other line notices.
-/
namespace GridOS.IrqLine
open GridOS.Words

/-! ### The mask registers -/

section Registers
variable {pic : Pic} {irq j : Nat}

/-- The registers are what the cached mask says. -/
structure Mirrored (pic : Pic) : Prop where
  master : pic.master_imr = pic.cached_master_mask
  slave : pic.slave_imr = pic.cached_slave_mask

theorem slave_iff (inside : irq < 16) : irq &&& 8 ≠ 0 ↔ 8 ≤ irq := by
  have all : ∀ i : Fin 16, i.val &&& 8 ≠ 0 ↔ 8 ≤ i.val := by decide
  exact all ⟨irq,inside⟩

theorem blocked_eq (mirrored : Mirrored pic) (inside : j < 16) : pic.blocked j = pic.cached_irq_mask.getLsbD j := by
  rw [Pic.blocked,mirrored.master,mirrored.slave,Pic.cached_master_mask,Pic.cached_slave_mask]
  split
  · next low => rw [BitVec.getLsbD_extractLsb',decide_eq_true low,Nat.zero_add,Bool.true_and]
  · next high =>
    have small : j - 8 < 8 := by omega
    rw [BitVec.getLsbD_extractLsb',decide_eq_true small,Bool.true_and,show 8 + (j - 8) = j by omega]

/-- A write of the register with the line, when the cached mask has changed at the line only. -/
theorem write_imr_mirrored (mirrored : Mirrored pic) (inside : irq < 16) {mask : BitVec 32}
    (others : ∀ i, i ≠ irq → mask.getLsbD i = pic.cached_irq_mask.getLsbD i) :
    Mirrored (write_imr irq { pic with cached_irq_mask := mask }) ∧
      (write_imr irq { pic with cached_irq_mask := mask }).cached_irq_mask = mask := by
  rw [write_imr]
  split
  · next slave =>
    have high := (slave_iff inside).mp slave
    refine ⟨⟨?_,rfl⟩,rfl⟩
    rw [mirrored.master,Pic.cached_master_mask,Pic.cached_master_mask]
    apply BitVec.eq_of_getLsbD_eq
    intro i small
    rw [BitVec.getLsbD_extractLsb',BitVec.getLsbD_extractLsb',others (0 + i) (by omega)]
  · next master =>
    have low : irq < 8 := by
      by_contra high
      exact master ((slave_iff inside).mpr (by omega))
    refine ⟨⟨rfl,?_⟩,rfl⟩
    rw [mirrored.slave,Pic.cached_slave_mask,Pic.cached_slave_mask]
    apply BitVec.eq_of_getLsbD_eq
    intro i _
    rw [BitVec.getLsbD_extractLsb',BitVec.getLsbD_extractLsb',others (8 + i) (by omega)]

theorem set_bit (mask : BitVec 32) (inside : irq < 16) (i : Nat) :
    (mask ||| BitVec.twoPow 32 irq).getLsbD i = (decide (i = irq) || mask.getLsbD i) := by
  rw [BitVec.getLsbD_or,BitVec.getLsbD_twoPow]
  by_cases here : i = irq
  · have small : irq < 32 := by omega
    simp [here,small]
  · simp [here,Ne.symm here]

theorem clear_bit (mask : BitVec 32) (i : Nat) :
    (mask &&& ~~~BitVec.twoPow 32 irq).getLsbD i = (!decide (i = irq) && mask.getLsbD i) := by
  rw [BitVec.getLsbD_and,BitVec.getLsbD_not,BitVec.getLsbD_twoPow]
  by_cases here : i = irq
  · by_cases small : irq < 32
    · simp [here,small]
    · simp [here,BitVec.getLsbD_of_ge mask irq (by omega)]
  · by_cases small : i < 32
    · simp [here,Ne.symm here,small]
    · simp [BitVec.getLsbD_of_ge mask i (by omega)]

/-- A register write that makes the bit of one line `b`. -/
structure Sets (irq : Nat) (b : Bool) (pic pic' : Pic) : Prop where
  mirrored : Mirrored pic'
  here : pic'.blocked irq = b
  other : ∀ j < 16, j ≠ irq → pic'.blocked j = pic.blocked j

theorem sets_of_mask (mirrored : Mirrored pic) (inside : irq < 16) {mask : BitVec 32} {b : Bool} (here : mask.getLsbD irq = b)
    (others : ∀ i, i ≠ irq → mask.getLsbD i = pic.cached_irq_mask.getLsbD i) :
    Sets irq b pic (write_imr irq { pic with cached_irq_mask := mask }) := by
  obtain ⟨mirrored',same⟩ := write_imr_mirrored mirrored inside others
  refine ⟨mirrored',?_,?_⟩
  · rw [blocked_eq mirrored' inside,same,here]
  · intro j below differ
    rw [blocked_eq mirrored' below,blocked_eq mirrored below,same,others j differ]

theorem mask_sets (mirrored : Mirrored pic) (inside : irq < 16) : Sets irq true pic (mask_8259A_irq irq pic) :=
  sets_of_mask mirrored inside (by rw [set_bit _ inside]; simp) fun i differ => by rw [set_bit _ inside]; simp [differ]

theorem unmask_sets (mirrored : Mirrored pic) (inside : irq < 16) : Sets irq false pic (unmask_8259A_irq irq pic) :=
  sets_of_mask mirrored inside (by rw [clear_bit]; simp) fun i differ => by rw [clear_bit]; simp [differ]

theorem mask_and_ack_sets (mirrored : Mirrored pic) (inside : irq < 16) : Sets irq true pic (mask_and_ack_8259A irq pic) := by
  rw [mask_and_ack_8259A]
  split
  · next spurious =>
    refine sets_of_mask mirrored inside ?_ fun _ _ => rfl
    by_contra clear
    apply spurious
    apply BitVec.eq_of_getLsbD_eq
    intro i _
    rw [BitVec.getLsbD_and,BitVec.getLsbD_twoPow]
    by_cases here : irq = i
    · rw [← here,Bool.eq_false_of_not_eq_true clear]
      simp
    · simp [here]
  · exact mask_sets mirrored inside

end Registers

/-! ### One line -/

/-- What ties the descriptor, the register bit and the handlers of a line, after at most `n` disablings. -/
structure Line (n : Nat) (desc : irq_desc) (blocked : Bool) (running : Nat) : Prop where
  nested : desc.depth ≤ n + 1
  depth : desc.disabled = true ↔ desc.depth ≠ 0
  quiet : desc.disabled = true → blocked = true
  flag : desc.disabled = false → desc.masked = blocked
  live : desc.disabled = false → desc.action ≠ [] → running = 0 → desc.masked = false
  flow : desc.inprogress = true → running ≠ 0
  agree : desc.action.Pairwise fun old new => compatible old new = true

structure Inv (n : Nat) (s : System) : Prop where
  mirrored : Mirrored s.pic
  line : ∀ irq < 16, Line n (s.desc irq) (s.pic.blocked irq) (s.running irq)

/-- A step of one line. -/
structure Only (irq : Nat) (s s' : System) : Prop where
  mirrored : Mirrored s'.pic
  blocked : ∀ j < 16, j ≠ irq → s'.pic.blocked j = s.pic.blocked j
  desc : ∀ j, j ≠ irq → s'.desc j = s.desc j
  running : ∀ j, j ≠ irq → s'.running j = s.running j

section Steps
variable {s s' s'' : System} {irq n : Nat} {desc : irq_desc}

theorem Only.trans (first : Only irq s s') (second : Only irq s' s'') : Only irq s s'' :=
  ⟨second.mirrored,fun j below differ => (second.blocked j below differ).trans (first.blocked j below differ),
    fun j differ => (second.desc j differ).trans (first.desc j differ),
    fun j differ => (second.running j differ).trans (first.running j differ)⟩

theorem Only.refl (mirrored : Mirrored s.pic) : Only irq s s := ⟨mirrored,fun _ _ _ => rfl,fun _ _ => rfl,fun _ _ => rfl⟩

theorem only_set_desc (mirrored : Mirrored s.pic) : Only irq s (set_desc irq desc s) :=
  ⟨mirrored,fun _ _ _ => rfl,fun _ differ => Function.update_of_ne differ ..,fun _ _ => rfl⟩

theorem only_pic {b : Bool} {pic : Pic} (sets : Sets irq b s.pic pic) : Only irq s { s with pic } :=
  ⟨sets.mirrored,sets.other,fun _ _ => rfl,fun _ _ => rfl⟩

theorem only_running (mirrored : Mirrored s.pic) (n : Nat) : Only irq s { s with running := Function.update s.running irq n } :=
  ⟨mirrored,fun _ _ _ => rfl,fun _ _ => rfl,fun _ differ => Function.update_of_ne differ ..⟩

@[simp] theorem set_desc_self : (set_desc irq desc s).desc irq = desc := Function.update_self ..
@[simp] theorem set_desc_pic : (set_desc irq desc s).pic = s.pic := rfl
@[simp] theorem set_desc_running : (set_desc irq desc s).running = s.running := rfl

/-- A line holds what it has to, and the others are as they were. -/
theorem Inv.step_line (inv : Inv n s) (only : Only irq s s')
    (line : Line n (s'.desc irq) (s'.pic.blocked irq) (s'.running irq)) : Inv n s' := by
  refine ⟨only.mirrored,?_⟩
  intro j below
  by_cases here : j = irq
  · rw [here]
    exact line
  · rw [only.blocked j below here,only.desc j here,only.running j here]
    exact inv.line j below

theorem Inv.mono {m : Nat} (inv : Inv n s) (more : n ≤ m) : Inv m s :=
  ⟨inv.mirrored,fun irq inside => { inv.line irq inside with nested := (inv.line irq inside).nested.trans (Nat.succ_le_succ more) }⟩

/-! ### What the parts do to a line -/

/-- From `s` to `s'` only the line changes; these are its descriptor, its register bit and its handlers. -/
structure Made (irq : Nat) (s s' : System) (desc : irq_desc) (blocked : Bool) (running : Nat) : Prop where
  only : Only irq s s'
  desc : s'.desc irq = desc
  blocked : s'.pic.blocked irq = blocked
  running : s'.running irq = running

section Parts
variable {b : Bool} {k : Nat} (made : Made irq s s' desc b k) (inside : irq < 16)
include made

theorem Made.inv (inv : Inv n s) (line : Line n desc b k) : Inv n s' := by
  refine inv.step_line made.only ?_
  rw [made.desc,made.blocked,made.running]
  exact line

theorem Made.put (desc' : irq_desc) : Made irq s (set_desc irq desc' s') desc' b k :=
  ⟨made.only.trans (only_set_desc made.only.mirrored),set_desc_self,made.blocked,made.running⟩

theorem Made.update (f : irq_desc → irq_desc) : Made irq s (set_desc irq (f (s'.desc irq)) s') (f desc) b k :=
  made.desc ▸ made.put _

/-- The register and the descriptor are written together. -/
theorem Made.write {b' : Bool} {pic : Pic} (sets : Sets irq b' s'.pic pic) (f : irq_desc → irq_desc) :
    Made irq s (set_desc irq (f (s'.desc irq)) { s' with pic }) (f desc) b' k :=
  ⟨(made.only.trans (only_pic sets)).trans (only_set_desc sets.mirrored),by rw [set_desc_self,made.desc],sets.here,made.running⟩

theorem Made.running_to (m : Nat) : Made irq s { s' with running := Function.update s'.running irq m } desc b m :=
  ⟨made.only.trans (only_running made.only.mirrored m),made.desc,made.blocked,Function.update_self ..⟩

/-- A resend changes flags that say nothing about the line's state. -/
theorem Made.resend : ∃ pending replay, Made irq s (check_irq_resend irq s') { desc with pending, replay } b k := by
  rw [check_irq_resend]
  split
  · exact ⟨_,_,made⟩
  · split
    · exact ⟨_,_,made⟩
    · split
      · exact ⟨_,_,made.update fun desc => { desc with pending := false, replay := true }⟩
      · exact ⟨_,_,made⟩

include inside

theorem Made.enable : Made irq s (irq_enable irq s') { desc with disabled := false, masked := false } false k :=
  made.write (unmask_sets made.only.mirrored inside) fun desc => { desc with disabled := false, masked := false }

theorem Made.disable : Made irq s (irq_disable irq s') { desc with disabled := true, masked := true } true k :=
  made.write (mask_sets made.only.mirrored inside) fun desc => { desc with disabled := true, masked := true }

theorem Made.shutdown : Made irq s (irq_shutdown irq s') { desc with disabled := true, depth := 1, masked := true } true k :=
  made.write (mask_sets made.only.mirrored inside) fun desc => { desc with disabled := true, depth := 1, masked := true }

theorem Made.mask_ack : Made irq s (mask_ack_irq irq s') { desc with masked := true } true k :=
  made.write (mask_and_ack_sets made.only.mirrored inside) fun desc => { desc with masked := true }

theorem Made.startup : ∃ pending replay, Made irq s (irq_startup irq s')
    { desc with disabled := false, depth := 0, masked := false, pending, replay } false k :=
  ((made.update fun desc => { desc with disabled := false, depth := 0 }).enable inside).resend

end Parts

theorem Made.start (irq : Nat) (mirrored : Mirrored s.pic) : Made irq s s (s.desc irq) (s.pic.blocked irq) (s.running irq) :=
  ⟨.refl mirrored,rfl,rfl,rfl⟩

/-! ### The steps -/

theorem sub_one {n : Nat} (positive : n ≠ 0) (fits : n < modulus) : sub n 1 = n - 1 := sub_exact (by omega) fits

/-- An enabling takes one disabling back. -/
theorem enable_irq_inv (inv : Inv n s) (inside : irq < 16) (fits : n + 1 < modulus) : Inv n (enable_irq irq s) := by
  have line := inv.line irq inside
  have start := Made.start irq inv.mirrored
  rw [enable_irq]
  dsimp only
  by_cases none : (s.desc irq).depth = 0
  · rw [if_pos none]
    exact inv
  rw [if_neg none]
  have less : sub (s.desc irq).depth 1 = (s.desc irq).depth - 1 := sub_one none (Nat.lt_of_le_of_lt line.nested fits)
  have nested : sub (s.desc irq).depth 1 ≤ n + 1 := less ▸ (Nat.sub_le ..).trans line.nested
  by_cases last : (s.desc irq).depth = 1
  · rw [if_pos last]
    obtain ⟨pending,replay,made⟩ := (start.enable inside).resend
    refine (made.update fun desc => { desc with depth := sub desc.depth 1 }).inv inv ⟨nested,?_,?_,?_,?_,line.flow,line.agree⟩
    · show false = true ↔ sub (s.desc irq).depth 1 ≠ 0
      rw [last]
      decide
    · exact fun on => Bool.noConfusion on
    · exact fun _ => rfl
    · exact fun _ _ _ => rfl
  · rw [if_neg last]
    refine (start.update fun desc => { desc with depth := sub desc.depth 1 }).inv inv
      ⟨nested,?_,line.quiet,line.flag,line.live,line.flow,line.agree⟩
    show (s.desc irq).disabled = true ↔ sub (s.desc irq).depth 1 ≠ 0
    rw [line.depth,less]
    omega

/-- The first of several disablings stops the line. -/
theorem disable_irq_inv (inv : Inv n s) (inside : irq < 16) (fits : n + 2 < modulus) : Inv (n + 1) (disable_irq irq s) := by
  have line := inv.line irq inside
  have more : add (s.desc irq).depth 1 = (s.desc irq).depth + 1 :=
    add_exact (Nat.lt_of_le_of_lt (Nat.add_le_add_right line.nested 1) fits)
  have nested : add (s.desc irq).depth 1 ≤ n + 1 + 1 := more ▸ Nat.add_le_add_right line.nested 1
  have positive : add (s.desc irq).depth 1 ≠ 0 := more ▸ Nat.succ_ne_zero _
  have made := (Made.start irq inv.mirrored).update fun desc => { desc with depth := add (s.desc irq).depth 1 }
  have inv := inv.mono (Nat.le_succ n)
  rw [disable_irq]
  dsimp only
  split
  · exact (made.disable inside).inv inv ⟨nested,iff_of_true rfl positive,fun _ => rfl,fun on => Bool.noConfusion on,
      fun on => Bool.noConfusion on,line.flow,line.agree⟩
  · next again =>
    exact made.inv inv ⟨nested,iff_of_true (line.depth.mpr again) positive,line.quiet,line.flag,line.live,line.flow,line.agree⟩

/-- Sharing a line is agreeing on flags, so that who may share with the first may share with all. -/
theorem compatible_iff {old new : irqaction} : compatible old new = true ↔
    old.flags &&& new.flags &&& IRQF_SHARED ≠ 0 ∧ (old.flags ^^^ new.flags) &&& IRQF_TRIGGER_MASK = 0 ∧
      (old.flags ^^^ new.flags) &&& IRQF_ONESHOT = 0 ∧ old.flags &&& IRQF_PERCPU = new.flags &&& IRQF_PERCPU := by
  rw [compatible,Bool.and_eq_true,Bool.and_eq_true,Bool.and_eq_true,bne_iff_ne,beq_iff_eq,beq_iff_eq,beq_iff_eq,and_assoc,and_assoc]

/-- A single flag is in both when it is in one with the first and in the other with the first. -/
theorem both_shared {a b c : BitVec 32} (ab : a &&& b &&& IRQF_SHARED ≠ 0) (ac : a &&& c &&& IRQF_SHARED ≠ 0) :
    b &&& c &&& IRQF_SHARED ≠ 0 := by
  have flag (x : BitVec 32) : x &&& IRQF_SHARED ≠ 0 ↔ x.getLsbD 7 = true := by
    rw [show IRQF_SHARED = BitVec.twoPow 32 7 by rfl,BitVec.and_twoPow]
    have nonzero : BitVec.twoPow 32 7 ≠ 0#32 := by decide
    cases x.getLsbD 7 <;> simp [nonzero]
  rw [flag,BitVec.getLsbD_and,Bool.and_eq_true] at *
  exact ⟨ab.2,ac.2⟩

theorem same_mask {a b c mask : BitVec 32} (ab : (a ^^^ b) &&& mask = 0) (ac : (a ^^^ c) &&& mask = 0) : (b ^^^ c) &&& mask = 0 := by
  have agrees : ∀ x y : Bool, (x ^^ y) = false ↔ x = y := by decide
  apply BitVec.eq_of_getLsbD_eq
  intro i _
  have ab := congrArg (fun flags => flags.getLsbD i) ab
  have ac := congrArg (fun flags => flags.getLsbD i) ac
  simp only [BitVec.getLsbD_and,BitVec.getLsbD_xor,BitVec.ofNat_eq_ofNat,BitVec.getLsbD_zero,Bool.and_eq_false_iff,agrees] at ab ac ⊢
  obtain ab | off := ab
  · obtain ac | off := ac
    · exact .inl (ab.symm.trans ac)
    · exact .inr off
  · exact .inr off

theorem compatible_via {a b c : irqaction} (ab : compatible a b = true) (ac : compatible a c = true) : compatible b c = true := by
  obtain ⟨shared,trigger,oneshot,percpu⟩ := compatible_iff.mp ab
  obtain ⟨shared',trigger',oneshot',percpu'⟩ := compatible_iff.mp ac
  exact compatible_iff.mpr ⟨both_shared shared shared',same_mask trigger trigger',same_mask oneshot oneshot',percpu.symm.trans percpu'⟩

theorem agree_append {old new : irqaction} {others : List irqaction}
    (agree : (old :: others).Pairwise fun old new => compatible old new = true) (joins : compatible old new = true) :
    (old :: others ++ [new]).Pairwise fun old new => compatible old new = true := by
  rw [List.pairwise_append]
  refine ⟨agree,List.pairwise_singleton ..,?_⟩
  intro action among last same
  obtain rfl := List.mem_singleton.mp same
  obtain rfl | other := List.mem_cons.mp among
  · exact joins
  · exact compatible_via ((List.pairwise_cons.mp agree).1 action other) joins

/-- A request starts an idle line afresh and joins one in use. -/
theorem setup_inv (inv : Inv n s) (inside : irq < 16) (fits : n + 1 < modulus) {new : irqaction}
    (done : setup_irq irq new s = some s') : Inv n s' := by
  have line := inv.line irq inside
  have start := Made.start irq inv.mirrored
  rw [setup_irq] at done
  split at done
  · next none =>
    obtain rfl := Option.some.inj done
    obtain ⟨pending,replay,made⟩ :=
      (start.update fun desc => { desc with spurious_disabled := false, inprogress := false }).startup inside
    refine (made.update fun desc => { desc with action := [new] }).inv inv ⟨?_,?_,?_,?_,?_,?_,?_⟩ <;> simp
  · next old others actions =>
    split at done
    · cases done
    · next joins =>
      have agree := agree_append (actions ▸ line.agree) (Bool.eq_true_of_not_eq_false joins)
      have made := start.update fun desc => { desc with action := old :: others ++ [new] }
      have live : (s.desc irq).disabled = false → old :: others ++ [new] ≠ [] → s.running irq = 0 → (s.desc irq).masked = false :=
        fun on _ idle => line.live on (by rw [actions]; exact List.cons_ne_nil old others) idle
      dsimp only at done
      split at done
      · obtain rfl := Option.some.inj done
        have cleared := made.update fun desc => { desc with spurious_disabled := false }
        exact enable_irq_inv (cleared.inv inv ⟨line.nested,line.depth,line.quiet,line.flag,live,line.flow,agree⟩) inside fits
      · obtain rfl := Option.some.inj done
        exact made.inv inv ⟨line.nested,line.depth,line.quiet,line.flag,live,line.flow,agree⟩

/-- A failing request changes nothing. -/
theorem request_inv (inv : Inv n s) (inside : irq < 16) (fits : n + 1 < modulus) (flags : BitVec 32) (dev_id : Nat) (memory : Bool) :
    Inv n ((request_threaded_irq irq flags dev_id memory s).getD s) := by
  rw [request_threaded_irq]
  split
  · exact inv
  split
  · exact inv
  cases done : setup_irq irq ⟨dev_id,flags⟩ s with
  | none => exact inv
  | some s' => exact setup_inv inv inside fits done

/-- The last action to go takes the line with it. -/
theorem free_irq_inv (inv : Inv n s) (inside : irq < 16) (dev_id : Nat) : Inv n (free_irq irq dev_id s) := by
  have line := inv.line irq inside
  have made := (Made.start irq inv.mirrored).update fun desc =>
    { desc with action := desc.action.eraseP fun action => action.dev_id = dev_id }
  have agree := line.agree.sublist (List.eraseP_sublist (p := fun action => action.dev_id = dev_id))
  rw [free_irq]
  dsimp only
  split
  · exact inv
  · next found =>
    rw [set_desc_self]
    split
    · exact (made.shutdown inside).inv inv ⟨Nat.le_add_left ..,iff_of_true rfl one_ne_zero,fun _ => rfl,
        fun on => Bool.noConfusion on,fun on => Bool.noConfusion on,line.flow,agree⟩
    · have used : (s.desc irq).action ≠ [] := by
        intro none
        rw [none] at found
        exact found rfl
      exact made.inv inv ⟨line.nested,line.depth,line.quiet,line.flag,fun on _ => line.live on used,line.flow,agree⟩

/-- An interrupt masks its line till the handlers are through. -/
theorem handle_level_irq_inv (inv : Inv n s) (inside : irq < 16) : Inv n (handle_level_irq irq s) := by
  have line := inv.line irq inside
  have made := (Made.start irq inv.mirrored).mask_ack inside
  rw [handle_level_irq]
  dsimp only
  rw [made.desc,made.running]
  split
  · next busy =>
    exact made.inv inv ⟨line.nested,line.depth,fun _ => rfl,fun _ => rfl,fun _ _ idle => absurd idle (line.flow busy),line.flow,line.agree⟩
  split
  · next stopped =>
    refine (made.put _).inv inv ⟨line.nested,line.depth,fun _ => rfl,fun _ => rfl,?_,line.flow,line.agree⟩
    intro on used _
    obtain none | off := stopped
    · exact absurd none used
    · exact Bool.noConfusion (off.symm.trans on)
  · exact ((made.running_to (s.running irq + 1)).put _).inv inv ⟨line.nested,line.depth,fun _ => rfl,fun _ => rfl,
      fun _ _ idle => absurd idle (Nat.succ_ne_zero _),fun _ => Nat.succ_ne_zero _,line.agree⟩

/-- The end of the handlers opens the line again, if nobody disabled it meanwhile. -/
theorem handled_inv (inv : Inv n s) (inside : irq < 16) : Inv n (handled irq s) := by
  have line := inv.line irq inside
  have made := ((Made.start irq inv.mirrored).running_to (s.running irq - 1)).put { s.desc irq with inprogress := false }
  rw [handled]
  split
  · exact inv
  rw [cond_unmask_irq]
  dsimp only
  split
  · next closed =>
    rw [made.desc] at closed
    exact (made.write (unmask_sets made.only.mirrored inside) fun desc => { desc with masked := false }).inv inv
      ⟨line.nested,line.depth,fun off => Bool.noConfusion (closed.1.symm.trans off),fun _ => rfl,fun _ _ _ => rfl,
        fun busy => Bool.noConfusion busy,line.agree⟩
  · next open_or_off =>
    rw [made.desc] at open_or_off
    refine made.inv inv ⟨line.nested,line.depth,line.quiet,line.flag,?_,fun busy => Bool.noConfusion busy,line.agree⟩
    intro on _ _
    exact Bool.eq_false_of_not_eq_true fun masked => open_or_off ⟨on,masked⟩

end Steps

/-! ### Runs -/

def Act.disablings : Act → Nat
  | .disable _ => 1
  | _ => 0

theorem step_inv {n : Nat} {s : System} {act : Act} (inv : Inv n s) (inside : act.irq < 16)
    (fits : n + act.disablings + 1 < modulus) : Inv (n + act.disablings) (step s act) := by
  cases act with
  | request irq flags dev_id memory => exact request_inv inv inside fits flags dev_id memory
  | free irq dev_id => exact free_irq_inv inv inside dev_id
  | disable irq => exact disable_irq_inv inv inside fits
  | enable irq => exact enable_irq_inv inv inside fits
  | interrupt irq => exact handle_level_irq_inv inv inside
  | handled irq => exact handled_inv inv inside

theorem run_inv {acts : List Act} (inside : ∀ act ∈ acts, act.irq < 16) : ∀ {n : Nat} {s : System}, Inv n s →
    n + (acts.map Act.disablings).sum + 1 < modulus → Inv (n + (acts.map Act.disablings).sum) (run s acts) := by
  induction acts with
  | nil => exact fun inv _ => inv
  | cons act acts ih =>
    intro n s inv fits
    rw [List.map_cons,List.sum_cons,← Nat.add_assoc] at fits ⊢
    have stepped := step_inv inv (inside act List.mem_cons_self) (by omega)
    exact ih (fun act among => inside act (List.mem_cons_of_mem _ among)) stepped fits

theorem boot_inv : Inv 0 boot := by
  have blocked : ∀ i : Fin 16, boot.pic.blocked i = true := by decide
  refine ⟨⟨by decide,by decide⟩,?_⟩
  intro irq inside
  refine ⟨Nat.le_refl _,iff_of_true rfl one_ne_zero,fun _ => blocked ⟨irq,inside⟩,?_,?_,?_,List.Pairwise.nil⟩
  all_goals exact fun off => Bool.noConfusion off

/-- A disabled line is masked in the registers, and a line in use is open when it is enabled and no handler
    runs; the actions on a line agree on their flags. -/
theorem lines_masked {acts : List Act} (inside : ∀ act ∈ acts, act.irq < 16) (few : (acts.map Act.disablings).sum + 1 < modulus)
    {s : System} (reached : run boot acts = s) : Mirrored s.pic ∧ ∀ irq < 16,
      ((s.desc irq).disabled = true ↔ (s.desc irq).depth ≠ 0) ∧
      ((s.desc irq).depth ≠ 0 → s.pic.blocked irq = true) ∧
      ((s.desc irq).depth = 0 → (s.desc irq).action ≠ [] → s.running irq = 0 → s.pic.blocked irq = false) ∧
      (s.desc irq).action.Pairwise fun old new => compatible old new = true := by
  have inv := run_inv inside boot_inv (by rw [Nat.zero_add]; exact few)
  rw [reached] at inv
  refine ⟨inv.mirrored,?_⟩
  intro irq below
  have line := inv.line irq below
  refine ⟨line.depth,fun nested => line.quiet (line.depth.mpr nested),?_,line.agree⟩
  intro zero used idle
  have enabled : (s.desc irq).disabled = false := Bool.eq_false_of_not_eq_true fun off => line.depth.mp off zero
  rw [← line.flag enabled]
  exact line.live enabled used idle

theorem lines_masked_shared : (run boot [.request 11 0x80 1 true,.request 11 0x80 2 true,.interrupt 11,.disable 11,.handled 11]).pic.blocked 11 = true :=
  ((lines_masked (by decide) (by decide) rfl).2 11 (by decide)).2.1 (by decide)

/-! ### One handler at a time -/

/-- Nothing starts or ends on any line. -/
structure Still (s s' : System) : Prop where
  running : s'.running = s.running
  inprogress : ∀ irq, (s'.desc irq).inprogress = (s.desc irq).inprogress

section Handlers
variable {s s' : System} {irq : Nat}

theorem Still.refl : Still s s := ⟨rfl,fun _ => rfl⟩

theorem Still.put (still : Still s s') {desc : irq_desc} (same : desc.inprogress = (s'.desc irq).inprogress) :
    Still s (set_desc irq desc s') := by
  refine ⟨still.running,?_⟩
  intro j
  rw [← still.inprogress j]
  by_cases here : j = irq
  · rw [here,set_desc_self,same]
  · exact congrArg irq_desc.inprogress (Function.update_of_ne here ..)

theorem Still.pic (still : Still s s') (pic : Pic) : Still s { s' with pic } := ⟨still.running,still.inprogress⟩

theorem Still.resend (still : Still s s') : Still s (check_irq_resend irq s') := by
  rw [check_irq_resend]
  split
  · exact still
  split
  · exact still
  split
  · exact still.put rfl
  · exact still

theorem Still.enable (still : Still s s') : Still s (irq_enable irq s') := (still.pic _).put rfl

theorem still_enable_irq : Still s (enable_irq irq s) := by
  rw [enable_irq]
  dsimp only
  split
  · exact .refl
  split
  · exact (Still.refl.enable.resend).put rfl
  · exact Still.refl.put rfl

theorem still_disable_irq : Still s (disable_irq irq s) := by
  have counted : Still s (set_desc irq { s.desc irq with depth := add (s.desc irq).depth 1 } s) := Still.refl.put rfl
  rw [disable_irq]
  dsimp only
  split
  · exact (counted.pic _).put rfl
  · exact counted

theorem still_free_irq {dev_id : Nat} : Still s (free_irq irq dev_id s) := by
  have taken : Still s (set_desc irq { s.desc irq with action := (s.desc irq).action.eraseP fun action => action.dev_id = dev_id } s) :=
    Still.refl.put rfl
  rw [free_irq]
  dsimp only
  split
  · exact .refl
  split
  · exact (taken.pic _).put rfl
  · exact taken

theorem Still.startup (still : Still s s') : Still s (irq_startup irq s') := by
  have enabled : Still s (set_desc irq { s'.desc irq with disabled := false, depth := 0 } s') := still.put rfl
  exact enabled.enable.resend

theorem Still.enabling (first : Still s s') : Still s (enable_irq irq s') := by
  have second : Still s' (enable_irq irq s') := still_enable_irq
  exact ⟨second.running.trans first.running,fun j => (second.inprogress j).trans (first.inprogress j)⟩

/-- A request clears `inprogress`, which is clear already when no handler runs. -/
theorem still_setup {new : irqaction} (done : setup_irq irq new s = some s')
    (idle : (s.desc irq).action = [] → (s.desc irq).inprogress = false) : Still s s' := by
  rw [setup_irq] at done
  split at done
  · next none =>
    obtain rfl := Option.some.inj done
    have cleared : Still s (set_desc irq { s.desc irq with spurious_disabled := false, inprogress := false } s) :=
      Still.refl.put (idle none).symm
    exact cleared.startup.put rfl
  · next old others _ =>
    split at done
    · cases done
    have added : Still s (set_desc irq { s.desc irq with action := old :: others ++ [new] } s) := Still.refl.put rfl
    dsimp only at done
    split at done
    · obtain rfl := Option.some.inj done
      have cleared : Still s (set_desc irq { (set_desc irq { s.desc irq with action := old :: others ++ [new] } s).desc irq with
        spurious_disabled := false } (set_desc irq { s.desc irq with action := old :: others ++ [new] } s)) := added.put rfl
      exact cleared.enabling
    · obtain rfl := Option.some.inj done
      exact added

theorem still_request (flags : BitVec 32) (dev_id : Nat) (memory : Bool)
    (idle : (s.desc irq).action = [] → (s.desc irq).inprogress = false) :
    Still s ((request_threaded_irq irq flags dev_id memory s).getD s) := by
  rw [request_threaded_irq]
  split
  · exact .refl
  split
  · exact .refl
  cases done : setup_irq irq ⟨dev_id,flags⟩ s with
  | none => exact .refl
  | some s' => exact still_setup done idle

/-- At most one call runs the handlers of a line, and `inprogress` says so. -/
def Alone (s : System) : Prop := ∀ irq, s.running irq ≤ 1 ∧ ((s.desc irq).inprogress = true ↔ s.running irq = 1)

theorem Alone.still (alone : Alone s) (still : Still s s') : Alone s' := by
  intro j
  rw [still.running,still.inprogress]
  exact alone j

theorem Alone.idle (alone : Alone s) (zero : s.running irq = 0) : (s.desc irq).inprogress = false := by
  apply Bool.eq_false_of_not_eq_true
  intro busy
  have one := (alone irq).2.mp busy
  omega

/-- One line starts or ends its handlers. -/
theorem Alone.line (alone : Alone s) {desc : irq_desc} {k : Nat} (own : k ≤ 1 ∧ (desc.inprogress = true ↔ k = 1)) :
    Alone (set_desc irq desc { s with running := Function.update s.running irq k }) := by
  intro j
  by_cases here : j = irq
  · rw [here,set_desc_self,set_desc_running]
    simp only [Function.update_self]
    exact own
  · have other : (set_desc irq desc { s with running := Function.update s.running irq k }).desc j = s.desc j :=
      Function.update_of_ne here ..
    rw [other,set_desc_running]
    simp only [Function.update_of_ne here]
    exact alone j

theorem alone_interrupt (alone : Alone s) : Alone (handle_level_irq irq s) := by
  have masked : Still s (mask_ack_irq irq s) := (Still.refl.pic _).put rfl
  have alone := alone.still masked
  rw [handle_level_irq]
  dsimp only
  split
  · exact alone
  · next idle =>
    split
    · exact alone.still (Still.refl.put rfl)
    · have zero : (mask_ack_irq irq s).running irq = 0 := by
        have single := (alone irq).1
        have not_one : (mask_ack_irq irq s).running irq ≠ 1 := fun one => idle ((alone irq).2.mpr one)
        omega
      exact alone.line ⟨by omega,iff_of_true rfl (by omega)⟩

theorem alone_handled (alone : Alone s) : Alone (handled irq s) := by
  rw [handled]
  split
  · exact alone
  · next busy =>
    have single := (alone irq).1
    have ended : Alone (set_desc irq { s.desc irq with inprogress := false }
        { s with running := Function.update s.running irq (s.running irq - 1) }) :=
      alone.line ⟨by omega,iff_of_false Bool.false_ne_true (by omega)⟩
    rw [cond_unmask_irq]
    dsimp only
    split
    · exact ended.still ((Still.refl.pic _).put rfl)
    · exact ended

end Handlers

/-- No request comes for a freed line whose handlers still run. -/
def calm (s : System) : Act → Prop
  | .request irq _ _ _ => (s.desc irq).action = [] → s.running irq = 0
  | _ => True

def Calm : System → List Act → Prop
  | _,[] => True
  | s,act :: acts => calm s act ∧ Calm (step s act) acts

theorem step_alone {s : System} {act : Act} (alone : Alone s) (quiet : calm s act) : Alone (step s act) := by
  cases act with
  | request irq flags dev_id memory => exact alone.still (still_request flags dev_id memory fun none => alone.idle (quiet none))
  | free irq dev_id => exact alone.still still_free_irq
  | disable irq => exact alone.still still_disable_irq
  | enable irq => exact alone.still still_enable_irq
  | interrupt irq => exact alone_interrupt alone
  | handled irq => exact alone_handled alone

theorem run_alone {acts : List Act} : ∀ {s : System}, Alone s → Calm s acts → Alone (run s acts) := by
  induction acts with
  | nil => exact fun alone _ => alone
  | cons act acts ih => exact fun alone quiet => ih (step_alone alone quiet.1) quiet.2

/-- The handlers of a line run one call at a time when nobody requests a freed line before its handlers
    are through. -/
theorem one_at_a_time {acts : List Act} (quiet : Calm boot acts) (irq : Nat) :
    (run boot acts).running irq ≤ 1 ∧ (((run boot acts).desc irq).inprogress = true ↔ (run boot acts).running irq = 1) :=
  run_alone (fun _ => ⟨Nat.zero_le _,iff_of_false Bool.false_ne_true zero_ne_one⟩) quiet irq

theorem one_at_a_time_busy : (run boot [.request 11 0 1 true,.interrupt 11,.interrupt 11]).running 11 ≤ 1 :=
  have quiet : Calm boot [.request 11 0 1 true,.interrupt 11,.interrupt 11] := ⟨fun _ => rfl,trivial,trivial,trivial⟩
  (one_at_a_time quiet 11).1

/-- `free_irq` waits for nobody, so that else a second call comes in. -/
example : (run boot [.request 11 0 1 true,.interrupt 11,.free 11 1,.request 11 0 2 true,.interrupt 11]).running 11 = 2 := by
  decide

end GridOS.IrqLine
