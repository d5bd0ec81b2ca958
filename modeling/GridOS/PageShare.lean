import GridOS.PageMap

/-!
The sharing of one page, `km_page_share` of `source/kernel/memory/page.c`, between two address spaces that may be one.
The copy of the entry is a loop that moves both walks on, the one of the source before the entry is looked at and the
one of the destination behind the write.
-/
namespace GridOS.PageShare
open GridOS.Words GridOS.Walk GridOS.PageMap
open GridOS.Fault (km_arch_get_flags FRAME_MASK shared_pte ShareResult)

def PAGE_FLAG_MASK : Nat := 0x3ff

def km_pte_read_and_next (granted : Granted) (mem : Km) (ctx : km_walk_ctx) : Nat × Bool × Km × km_walk_ctx :=
  (km_pte_read mem ctx,km_pte_next granted mem ctx)

section
variable (granted : Nat → Granted) (dst src prot : Nat)

/-- The loop of `km_page_share`; `none` when it takes more rounds. -/
def share_loop (src_end : Nat) : Nat → Nat → (Nat → Km) → km_walk_ctx → km_walk_ctx → Option (ShareResult × (Nat → Km))
  | 0, _, _, _, _ => none
  | rounds+1, i, spaces, dst_ctx, src_ctx =>
    if i < src_end then
      let read := km_pte_read_and_next (granted src) (spaces src) src_ctx
      let spaces := Function.update spaces src read.2.2.1
      if read.2.1 = false then some (.err,spaces) else
      if KE_PAGE_INVALID_PTE read.1 then some (.src_invalid,spaces) else
      let written := km_pte_write_and_next (granted dst) (spaces dst) dst_ctx (shared_pte read.1 prot)
      let spaces := Function.update spaces dst written.2.1
      if written.1 = false then some (.err,spaces) else
      share_loop src_end rounds (add i PAGE_SIZE) spaces written.2.2 read.2.2.2
    else some (.ok,spaces)

/-- `granted` says for each space which of its tables there is memory for; the two contexts are what is on the stack. -/
def km_page_share (rounds : Nat) (spaces : Nat → Km) (dst_ctx src_ctx : km_walk_ctx) (dst_addr src_addr : Nat) :
    Option (ShareResult × (Nat → Km)) :=
  let src_end := add src_addr PAGE_SIZE
  let to_dst := km_walk_to (granted dst) (spaces dst) dst_ctx dst_addr
  let spaces := Function.update spaces dst to_dst.2.1
  if to_dst.1 = false then some (.err,spaces) else
  let to_src := km_walk_to (granted src) (spaces src) src_ctx src_addr
  let spaces := Function.update spaces src to_src.2.1
  if to_src.1 = false then some (.err,spaces) else
  if km_pte_read (spaces dst) to_dst.2.2 ≠ 0 then some (.err,spaces) else
  share_loop granted dst src prot src_end rounds src_addr spaces to_dst.2.2 to_src.2.2

end

/-- What `km_page_share` promises for the page `s` of the source and the page `d` of the destination. -/
structure Atomic (spaces : Nat → Km) (dst d src s prot : Nat) (result : ShareResult × (Nat → Km)) : Prop where
  frame : result.1 = .ok →
    KE_PAGE_PHY_FROM_PTE (entry (result.2 dst) d) = KE_PAGE_PHY_FROM_PTE (entry (spaces src) s)
  flags : result.1 = .ok → entry (result.2 dst) d &&& PAGE_FLAG_MASK = km_arch_get_flags prot ||| PAGE_FLAG_FROM_OTHER
  source : result.1 = .ok → entry (result.2 src) s = entry (spaces src) s
  undone : result.1 ≠ .ok → entry (result.2 dst) d = entry (spaces dst) d

/-- The destination is free and both pages can be reached, but the source is the last page of the address space, so
    that nothing is copied, or the page behind the destination cannot be reached, which is found out behind the write. -/
def Torn (granted : Nat → Granted) (spaces : Nat → Km) (dst d src s : Nat) : Prop :=
  Reach (granted dst) (spaces dst) d ∧ Reach (granted src) (spaces src) s ∧ entry (spaces dst) d = 0 ∧
    (s = 1048575 ∨ Reach (granted src) (spaces src) (behind s 1) ∧ KE_PAGE_INVALID_PTE (entry (spaces src) s) = false ∧
      ¬Reach (granted dst) (spaces dst) (behind d 1))

/-! ### The entries of all spaces -/

section
variable {granted : Nat → Granted} {spaces : Nat → Km} {dst src prot d s : Nat}

/-- A walk in one space keeps the entries of all, and does not change what can be reached. -/
structure Quiet (granted : Nat → Granted) (spaces after : Nat → Km) (found : Bool) : Prop where
  same : ∀ x r, entry (after x) r = entry (spaces x) r
  grown : ∀ x r, Present (spaces x) r → Present (after x) r
  onward : found = true → ∀ x r, Reach (granted x) (after x) r ↔ Reach (granted x) (spaces x) r

theorem walked_quiet {x q : Nat} {result : Bool × Km × km_walk_ctx} (walked : Walked (granted x) (spaces x) q result) :
    Quiet granted spaces (Function.update spaces x result.2.1) result.1 := by
  refine ⟨fun y r => ?_,fun y r => ?_,fun found y r => ?_⟩ <;> by_cases here : y = x
  · subst here
    rw [Function.update_self]
    exact walked.same r
  · rw [Function.update_of_ne here]
  · subst here
    rw [Function.update_self]
    exact walked.grown r
  · rw [Function.update_of_ne here]
    exact id
  · subst here
    rw [Function.update_self]
    exact walked.onward found r
  · rw [Function.update_of_ne here]

theorem Quiet.stands {after : Nat → Km} {found : Bool} (quiet : Quiet granted spaces after found) {x q : Nat} {ctx : km_walk_ctx}
    (at_q : At (spaces x) ctx q) : At (after x) ctx q :=
  ⟨at_q.address,at_q.entry,at_q.table,quiet.grown x q at_q.present⟩

/-- What comes of the loop that copies one entry, from its first round on. -/
inductive Copied (granted : Nat → Granted) (spaces : Nat → Km) (dst d src s prot : Nat) : ShareResult × (Nat → Km) → Prop
  | skipped {after : Nat → Km} (same : ∀ x r, entry (after x) r = entry (spaces x) r) (last : s = 1048575) :
      Copied granted spaces dst d src s prot (.ok,after)
  | lost {after : Nat → Km} (same : ∀ x r, entry (after x) r = entry (spaces x) r) (inner : s ≠ 1048575)
      (gone : ¬Reach (granted src) (spaces src) (behind s 1)) : Copied granted spaces dst d src s prot (.err,after)
  | invalid {after : Nat → Km} (same : ∀ x r, entry (after x) r = entry (spaces x) r) (inner : s ≠ 1048575)
      (none : KE_PAGE_INVALID_PTE (entry (spaces src) s) = true) : Copied granted spaces dst d src s prot (.src_invalid,after)
  | copied {after : Nat → Km} {result : ShareResult} (inner : s ≠ 1048575)
      (next : Reach (granted src) (spaces src) (behind s 1)) (valid : KE_PAGE_INVALID_PTE (entry (spaces src) s) = false)
      (reached : result = .ok ↔ Reach (granted dst) (spaces dst) (behind d 1))
      (wrote : ∀ x r, entry (after x) r = if x = dst ∧ r = d then shared_pte (entry (spaces src) s) prot else entry (spaces x) r) :
      Copied granted spaces dst d src s prot (result,after)

theorem share_loop_copied {dst_ctx src_ctx : km_walk_ctx} (at_d : At (spaces dst) dst_ctx d) (at_s : At (spaces src) src_ctx s)
    (fits_d : d < 1048576) (fits_s : s < 1048576) (free : entry (spaces dst) d = 0) (rounds : Nat) :
    ∃ result, share_loop granted dst src prot (add (s * 4096) PAGE_SIZE) (rounds + 2) (s * 4096) spaces dst_ctx src_ctx = some result ∧
      Copied granted spaces dst d src s prot result := by
  have stop : add (s * 4096) PAGE_SIZE = if s = 1048575 then 0 else (s + 1) * 4096 := by
    rw [add,PAGE_SIZE,modulus]
    split <;> omega
  rw [share_loop,stop]
  by_cases last : s = 1048575
  · rw [if_pos last,if_neg (by omega)]
    exact ⟨_,rfl,.skipped (fun _ _ => rfl) last⟩
  · rw [if_neg last,if_pos (by omega)]
    have read : (km_pte_read_and_next (granted src) (spaces src) src_ctx).1 = entry (spaces src) s := at_s.read
    have walked := km_pte_next_walked (granted src) at_s fits_s
    generalize next : km_pte_next (granted src) (spaces src) src_ctx = moved at walked
    have quiet := walked_quiet walked
    have moved' : (km_pte_read_and_next (granted src) (spaces src) src_ctx).2 = moved := next
    dsimp only
    rw [read,moved']
    split
    · next failed =>
      exact ⟨_,rfl,.lost quiet.same last fun reach => by simpa [failed] using walked.reach.mpr reach⟩
    · next found =>
      have passed : moved.1 = true := by simpa using found
      split
      · next invalid => exact ⟨_,rfl,.invalid quiet.same last invalid⟩
      · next sound =>
        have valid : KE_PAGE_INVALID_PTE (entry (spaces src) s) = false := by simpa using sound
        generalize step : km_pte_write_and_next (granted dst) _ dst_ctx _ = written
        obtain ⟨reach,_,entries,_⟩ := write_and_next (granted dst) (quiet.stands at_d) fits_d _ step
        have reach' : written.1 = true ↔ Reach (granted dst) (spaces dst) (behind d 1) :=
          reach.trans (quiet.onward passed dst _)
        have wrote (x r : Nat) : entry (Function.update (Function.update spaces src moved.2.1) dst written.2.1 x) r =
            if x = dst ∧ r = d then shared_pte (entry (spaces src) s) prot else entry (spaces x) r := by
          by_cases here : x = dst
          · subst here
            rw [Function.update_self,entries,quiet.same,quiet.same]
            simp [free]
          · rw [Function.update_of_ne here,quiet.same,if_neg (by simp [here])]
        split
        · next failed =>
          refine ⟨_,rfl,.copied last (walked.reach.mp passed) valid ⟨by simp,fun reached => ?_⟩ wrote⟩
          simpa [failed] using reach'.mpr reached
        · next done =>
          rw [share_loop,if_neg (by omega)]
          exact ⟨_,rfl,.copied last (walked.reach.mp passed) valid ⟨fun _ => reach'.mp (by simpa using done),fun _ => rfl⟩ wrote⟩

/-! ### The entry that is copied -/

theorem flags_masked (prot : Nat) : (km_arch_get_flags prot ||| PAGE_FLAG_FROM_OTHER) &&& PAGE_FLAG_MASK =
    km_arch_get_flags prot ||| PAGE_FLAG_FROM_OTHER :=
  Nat.and_two_pow_sub_one_of_lt_two_pow (flags_small prot)

/-- The bits of the frame are the source's. -/
theorem shared_pte_frame (pte prot : Nat) : KE_PAGE_PHY_FROM_PTE (shared_pte pte prot) = KE_PAGE_PHY_FROM_PTE pte := by
  have above : (km_arch_get_flags prot ||| PAGE_FLAG_FROM_OTHER) &&& 0xfffff000 = 0 := by
    rw [← flags_masked,Nat.and_assoc,show PAGE_FLAG_MASK &&& 0xfffff000 = 0 by decide,Nat.and_zero]
  rw [KE_PAGE_PHY_FROM_PTE,KE_PAGE_PHY_FROM_PTE,shared_pte,Nat.or_assoc,Nat.and_or_distrib_right,above,Nat.or_zero,Nat.and_assoc,
    show FRAME_MASK &&& 0xfffff000 = 0xfffff000 by decide]

/-- The flags are those of the protection. -/
theorem shared_pte_flags (pte prot : Nat) :
    shared_pte pte prot &&& PAGE_FLAG_MASK = km_arch_get_flags prot ||| PAGE_FLAG_FROM_OTHER := by
  rw [shared_pte,Nat.or_assoc,Nat.and_or_distrib_right,flags_masked,Nat.and_assoc,
    show FRAME_MASK &&& PAGE_FLAG_MASK = 0 by decide,Nat.and_zero,Nat.zero_or]

theorem shared_flag (prot : Nat) : km_arch_get_flags prot ||| PAGE_FLAG_FROM_OTHER ≠ 0 := by
  have shared : PAGE_FLAG_FROM_OTHER ≤ km_arch_get_flags prot ||| PAGE_FLAG_FROM_OTHER := Nat.right_le_or
  unfold PAGE_FLAG_FROM_OTHER at shared ⊢
  omega

/-- The copy of an entry is atomic unless nothing is copied, or the walk fails behind the write. -/
theorem copied_atomic_iff {before : Nat → Km} {result : ShareResult × (Nat → Km)}
    (same : ∀ x r, entry (spaces x) r = entry (before x) r) (free : entry (spaces dst) d = 0)
    (copied : Copied granted spaces dst d src s prot result) : Atomic before dst d src s prot result ↔
      ¬(s = 1048575 ∨ Reach (granted src) (spaces src) (behind s 1) ∧ KE_PAGE_INVALID_PTE (entry (spaces src) s) = false ∧
        ¬Reach (granted dst) (spaces dst) (behind d 1)) := by
  cases copied with
  | skipped kept last =>
    refine ⟨fun atomic => ?_,fun intact => absurd (.inl last) intact⟩
    have flags := atomic.flags rfl
    rw [kept,free,Nat.zero_and] at flags
    exact absurd flags.symm (shared_flag prot)
  | lost kept inner gone =>
    refine ⟨fun _ => ?_,fun _ => ⟨by simp,by simp,by simp,fun _ => by rw [kept,same]⟩⟩
    rintro (last | ⟨reach,_⟩)
    · exact inner last
    · exact gone reach
  | invalid kept inner none =>
    refine ⟨fun _ => ?_,fun _ => ⟨by simp,by simp,by simp,fun _ => by rw [kept,same]⟩⟩
    rintro (last | ⟨_,valid,_⟩)
    · exact inner last
    · rw [none] at valid
      exact absurd valid (by simp)
  | copied inner next valid reached wrote =>
    have target := wrote dst d
    rw [if_pos ⟨rfl,rfl⟩] at target
    constructor
    · rintro atomic (last | ⟨_,_,gone⟩)
      · exact inner last
      · have undone := atomic.undone (fun ok => gone (reached.mp ok))
        rw [target,← same,free] at undone
        have flags := shared_pte_flags (entry (spaces src) s) prot
        rw [undone,Nat.zero_and] at flags
        exact shared_flag prot flags.symm
    · intro intact
      have ok : Reach (granted dst) (spaces dst) (behind d 1) := by
        by_contra gone
        exact intact (.inr ⟨next,valid,gone⟩)
      refine ⟨fun _ => ?_,fun _ => ?_,fun _ => ?_,fun failed => absurd (reached.mpr ok) failed⟩
      · rw [target,shared_pte_frame,same]
      · rw [target,shared_pte_flags]
      · rw [wrote,if_neg,same]
        rintro ⟨rfl,rfl⟩
        rw [free] at valid
        exact absurd valid (by decide)

end

/-- A call returns, and it is atomic if and only if it is not torn. -/
theorem share_atomic_iff (granted : Nat → Granted) (spaces : Nat → Km) (dst_ctx src_ctx : km_walk_ctx) (dst src prot : Nat)
    {d s : Nat} (fits_d : d < 1048576) (fits_s : s < 1048576) (rounds : Nat) :
    ∃ result, km_page_share granted dst src prot (rounds + 2) spaces dst_ctx src_ctx (d * 4096) (s * 4096) = some result ∧
      (Atomic spaces dst d src s prot result ↔ ¬Torn granted spaces dst d src s) := by
  rw [km_page_share]
  dsimp only
  have walked_d := km_walk_to_walked (granted dst) (spaces dst) dst_ctx fits_d
  generalize km_walk_to (granted dst) (spaces dst) dst_ctx (d * 4096) = to_dst at walked_d
  have quiet_d := walked_quiet walked_d
  have failed_atomic {after : Nat → Km} (same : ∀ x r, entry (after x) r = entry (spaces x) r) :
      Atomic spaces dst d src s prot (.err,after) := ⟨by simp,by simp,by simp,fun _ => same dst d⟩
  split
  · next failed =>
    refine ⟨_,rfl,fun _ torn => ?_,fun _ => failed_atomic quiet_d.same⟩
    simpa [failed] using walked_d.reach.mpr torn.1
  · next found =>
    have passed_d : to_dst.1 = true := by simpa using found
    have at_d : At (Function.update spaces dst to_dst.2.1 dst) to_dst.2.2 d := by
      rw [Function.update_self]
      exact walked_d.stands passed_d
    generalize Function.update spaces dst to_dst.2.1 = spaces1 at quiet_d at_d
    have walked_s := km_walk_to_walked (granted src) (spaces1 src) src_ctx fits_s
    generalize km_walk_to (granted src) (spaces1 src) src_ctx (s * 4096) = to_src at walked_s
    have quiet_s := walked_quiet walked_s
    have same (x r : Nat) : entry (Function.update spaces1 src to_src.2.1 x) r = entry (spaces x) r :=
      (quiet_s.same x r).trans (quiet_d.same x r)
    split
    · next failed =>
      refine ⟨_,rfl,fun _ torn => ?_,fun _ => failed_atomic same⟩
      simpa [failed] using walked_s.reach.mpr ((quiet_d.onward passed_d src s).mpr torn.2.1)
    · next found =>
      have passed_s : to_src.1 = true := by simpa using found
      have at_s : At (Function.update spaces1 src to_src.2.1 src) to_src.2.2 s := by
        rw [Function.update_self]
        exact walked_s.stands passed_s
      have at_d' := quiet_s.stands at_d
      have onward (x r : Nat) : Reach (granted x) (Function.update spaces1 src to_src.2.1 x) r ↔ Reach (granted x) (spaces x) r :=
        (quiet_s.onward passed_s x r).trans (quiet_d.onward passed_d x r)
      generalize Function.update spaces1 src to_src.2.1 = spaces2 at same at_s at_d' onward
      have old : km_pte_read (spaces2 dst) to_dst.2.2 = entry (spaces dst) d := at_d'.read.trans (same dst d)
      rw [old]
      split
      · next taken => exact ⟨_,rfl,fun _ torn => taken torn.2.2.1,fun _ => failed_atomic same⟩
      · next free =>
        have empty : entry (spaces dst) d = 0 := not_not.mp free
        obtain ⟨result,done,copied⟩ := share_loop_copied at_d' at_s fits_d fits_s ((same dst d).trans empty) rounds
        refine ⟨result,done,(copied_atomic_iff same ((same dst d).trans empty) copied).trans ?_⟩
        rw [same,onward,onward,Torn]
        have reach_d := walked_d.reach.mp passed_d
        have reach_s := (quiet_d.onward passed_d src s).mp (walked_s.reach.mp passed_s)
        exact not_congr ⟨fun torn => ⟨reach_d,reach_s,empty,torn⟩,fun torn => torn.2.2.2⟩

/-- A space in which the last page of the first table and the last page of all are mapped. -/
def mapped : Km := ⟨some fun t => if t = 0 then some fun i => if i = 5 then 0x7003 else 0
  else if t = 1023 then some fun i => if i = 1023 then 0x9003 else 0 else none⟩

/-- The page at 0x5000 is shared as the last one of a table, and there is no memory for the table behind it: the call
    fails, and the page is shared. -/
theorem share_torn : ∃ result,
    km_page_share (fun _ _ => false) 1 0 1 2 (fun _ => mapped) blank blank (1023 * 4096) (5 * 4096) = some result ∧
    result.1 = .err ∧ entry (result.2 1) 1023 = 0x7205 ∧ ¬Atomic (fun _ => mapped) 1 1023 0 5 1 result := by
  have run : (km_page_share (fun _ _ => false) 1 0 1 2 (fun _ => mapped) blank blank (1023 * 4096) (5 * 4096)).map
      (fun result => (result.1,entry (result.2 1) 1023)) = some (.err,0x7205) := by decide +kernel
  obtain ⟨result,done,answer⟩ := Option.map_eq_some_iff.mp run
  obtain ⟨failed,written⟩ := Prod.mk.inj answer
  refine ⟨result,done,failed,written,fun atomic => ?_⟩
  have undone := atomic.undone (by rw [failed]; decide)
  rw [written] at undone
  exact absurd undone (by decide)

/-- As a page inside the table it is shared as a whole, and the last page of the address space is not shared. -/
theorem share_atomic_inner :
    (∃ result, km_page_share (fun _ _ => false) 1 0 1 2 (fun _ => mapped) blank blank (6 * 4096) (5 * 4096) = some result ∧
      Atomic (fun _ => mapped) 1 6 0 5 1 result) ∧
    ∃ result, km_page_share (fun _ _ => false) 1 0 1 2 (fun _ => mapped) blank blank (6 * 4096) (1048575 * 4096) = some result ∧
      ¬Atomic (fun _ => mapped) 1 6 0 1048575 1 result := by
  obtain ⟨inner,done,whole⟩ := @share_atomic_iff (fun _ _ => false) (fun _ => mapped) blank blank 1 0 1 6 5 (by decide) (by decide) 0
  obtain ⟨last,done',torn⟩ := @share_atomic_iff (fun _ _ => false) (fun _ => mapped) blank blank 1 0 1 6 1048575 (by decide) (by decide) 0
  refine ⟨⟨inner,done,whole.mpr ?_⟩,last,done',fun atomic => torn.mp atomic ?_⟩
  · rintro ⟨_,_,_,last | ⟨_,_,gone⟩⟩
    · exact absurd last (by decide)
    · exact gone (by decide)
  · exact ⟨by decide,by decide,by decide,.inl rfl⟩

end GridOS.PageShare
