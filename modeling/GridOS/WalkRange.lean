import GridOS.Walk

/-!
What `km_walk_loop` visits. Addresses are page numbers here: the loop goes through the
pages of a range up to the first missing second-level table. There it jumps by the size
of a level that has none, to the end of the address space, and it is done unless the
range begins at address 0: then it begins again.
-/
namespace GridOS.Walk
open GridOS.Words

/-- The second-level table of the page `q` is there. -/
def Present (mem : Km) (q : Nat) : Prop := (mem.sub_table (q / 1024)).isSome = true

instance (mem : Km) (q : Nat) : Decidable (Present mem q) := inferInstanceAs (Decidable (_ = true))

/-- The entry of the page `q`. -/
def pteAt (mem : Km) (q : Nat) : Option Nat := (mem.sub_table (q / 1024)).map (fun table => table (q % 1024))

def setPte (mem : Km) (q what : Nat) : Km where
  translation_table := mem.translation_table.map (fun table => Function.update table (q / 1024)
    ((table (q / 1024)).map (fun entries => Function.update entries (q % 1024) what)))

theorem sub_table_setPte (mem : Km) (q what t : Nat) : (setPte mem q what).sub_table t =
    if t = q / 1024 then (mem.sub_table t).map (fun entries => Function.update entries (q % 1024) what)
    else mem.sub_table t := by
  rw [Km.sub_table,Km.sub_table,setPte]
  cases mem.translation_table with
  | none => simp
  | some table =>
    by_cases same : t = q / 1024
    · simp [same]
    · simp [same]

theorem present_setPte {mem : Km} {q what r : Nat} : Present (setPte mem q what) r ↔ Present mem r := by
  rw [Present,Present,sub_table_setPte]
  split <;> simp

theorem pteAt_setPte_self {mem : Km} {q what : Nat} : pteAt (setPte mem q what) q = (pteAt mem q).map (fun _ => what) := by
  rw [pteAt,pteAt,sub_table_setPte,if_pos rfl]
  cases mem.sub_table (q / 1024) with
  | none => rfl
  | some entries => simp

theorem pteAt_setPte_other {mem : Km} {q what r : Nat} (apart : r ≠ q) : pteAt (setPte mem q what) r = pteAt mem r := by
  rw [pteAt,pteAt,sub_table_setPte]
  split
  · rename_i same
    have differ : r % 1024 ≠ q % 1024 := by omega
    cases mem.sub_table (r / 1024) with
    | none => rfl
    | some entries => simp [differ]
  · rfl

/-! ### Single steps -/

/-- The walk stands at the page `q`. -/
structure At (mem : Km) (ctx : km_walk_ctx) (q : Nat) : Prop where
  address : ctx.current_virtual_address = q * 4096
  entry : ctx.hirarch_id 1 = q % 1024
  table : ctx.table_base = q / 1024
  present : Present mem q

/-- The walk has not found the table of the page `q`. -/
def Missed (ctx : km_walk_ctx) (q : Nat) : Prop := ctx.level_id = 2 ∧ ctx.current_virtual_address = q * 4096

theorem km_get_vid_2 {q : Nat} (fits : q < 1048576) : km_get_vid 2 (q * 4096) = q / 1024 := by
  rw [km_get_vid,if_pos rfl,ARCH_KM_LV2_COUNT,show (1024 - 1 : Nat) = 2 ^ 10 - 1 by decide,Nat.and_two_pow_sub_one_eq_mod,Nat.shiftRight_eq_div_pow]
  omega

theorem km_get_vid_1 (q : Nat) : km_get_vid 1 (q * 4096) = q % 1024 := by
  rw [km_get_vid,if_neg (by decide),if_pos rfl,ARCH_KM_LV1_COUNT,show (1024 - 1 : Nat) = 2 ^ 10 - 1 by decide,Nat.and_two_pow_sub_one_eq_mod,Nat.shiftRight_eq_div_pow]
  omega

theorem km_walk_to_spec (mem : Km) (ctx : km_walk_ctx) {q : Nat} (fits : q < 1048576) :
    Present mem q ∧ (km_walk_to mem ctx (q * 4096)).1 = true ∧ At mem (km_walk_to mem ctx (q * 4096)).2 q ∨
    ¬Present mem q ∧ (km_walk_to mem ctx (q * 4096)).1 = false ∧ Missed (km_walk_to mem ctx (q * 4096)).2 q := by
  have vid := km_get_vid_2 fits
  rw [km_walk_to]
  cases root : mem.translation_table with
  | none =>
    right
    refine ⟨?_,rfl,rfl,rfl⟩
    rw [Present,Km.sub_table,root]
    simp
  | some table =>
    dsimp only
    rw [vid]
    have same : mem.sub_table (q / 1024) = table (q / 1024) := by
      rw [Km.sub_table,root]
      rfl
    cases entry : table (q / 1024) with
    | none =>
      right
      refine ⟨?_,rfl,rfl,rfl⟩
      rw [Present,same,entry]
      simp
    | some entries =>
      left
      have here : Present mem q := by
        rw [Present,same,entry]
        rfl
      refine ⟨here,rfl,rfl,?_,rfl,here⟩
      dsimp only
      rw [Function.update_of_ne (by decide),Function.update_self,km_get_vid_1]

theorem At.read {mem : Km} {ctx : km_walk_ctx} {q : Nat} (at_q : At mem ctx q) : km_pte_read mem ctx = (pteAt mem q).getD 0 := by
  rw [km_pte_read,pteAt,at_q.table,at_q.entry]

theorem At.write_force {mem : Km} {ctx : km_walk_ctx} {q : Nat} (at_q : At mem ctx q) (what : Nat) :
    km_pte_write_force mem ctx what = setPte mem q what := by
  rw [km_pte_write_force,setPte,at_q.table,at_q.entry]

theorem At.setPte {mem : Km} {ctx : km_walk_ctx} {q : Nat} (at_q : At mem ctx q) (r what : Nat) : At (setPte mem r what) ctx q :=
  ⟨at_q.address,at_q.entry,at_q.table,present_setPte.mpr at_q.present⟩

theorem km_pte_next_spec {mem : Km} {ctx : km_walk_ctx} {q : Nat} (at_q : At mem ctx q) (fits : q + 1 < 1048576) :
    Present mem (q + 1) ∧ (km_pte_next mem ctx).1 = true ∧ At mem (km_pte_next mem ctx).2 (q + 1) ∨
    ¬Present mem (q + 1) ∧ (km_pte_next mem ctx).1 = false ∧ Missed (km_pte_next mem ctx).2 (q + 1) := by
  have address : add ctx.current_virtual_address PAGE_SIZE = (q + 1) * 4096 := by
    rw [at_q.address,add_exact]
    · rw [PAGE_SIZE]
      omega
    · rw [PAGE_SIZE,modulus]
      omega
  rw [km_pte_next]
  dsimp only
  rw [address,at_q.entry]
  split
  · rename_i inside
    rw [ARCH_KM_LV1_COUNT] at inside
    left
    have same : (q + 1) / 1024 = q / 1024 := by omega
    have here : Present mem (q + 1) := by
      rw [Present,same]
      exact at_q.present
    refine ⟨here,rfl,rfl,?_,?_,here⟩
    · dsimp only
      rw [Function.update_self]
      omega
    · rw [same]
      exact at_q.table
  · exact km_walk_to_spec mem _ fits

/-- Behind a missing table the walk goes to the end of the address space, and counts all
    of it as done. -/
theorem km_walk_jump_spec {ctx : km_walk_ctx} {q : Nat} (missed : Missed ctx q) (fits : q < 1048576) :
    (km_walk_jump ctx).2.current_virtual_address = 0 ∧ (km_walk_jump ctx).1 = (4294967296 - q * 4096) % 4294967296 := by
  obtain ⟨level,address⟩ := missed
  have filled : q * 4096 ||| sub (km_get_sub_level_size 2) 1 = 4294967295 := by
    show q * 4096 ||| 2 ^ 32 - 1 = 2 ^ 32 - 1
    apply Nat.eq_of_testBit_eq
    intro i
    rw [Nat.testBit_or,Nat.testBit_two_pow_sub_one]
    by_cases low : i < 32
    · simp [low]
    · have above : q * 4096 < 2 ^ i := calc
        q * 4096 < 2 ^ 32 := by omega
        _ ≤ 2 ^ i := Nat.pow_le_pow_right (by decide) (by omega)
      simp [low,Nat.testBit_lt_two_pow above]
  have wrapped : add (ctx.current_virtual_address ||| sub (km_get_sub_level_size ctx.level_id) 1) 1 = 0 := by
    rw [level,address,filled]
    rfl
  rw [km_walk_jump]
  dsimp only
  rw [wrapped,address]
  refine ⟨rfl,?_⟩
  rw [sub,modulus,Nat.zero_add,Nat.mod_eq_of_lt (show q * 4096 < 4294967296 by omega)]

section Loops
variable {σ : Type} (meet_action : Nat → Nat → σ → Option Nat × σ)

/-- What a visit of the page `q` does to the memory and to the rest of the kernel. -/
def visitPage (w : Km × σ) (q : Nat) : Km × σ :=
  let met := meet_action (q * 4096) ((pteAt w.1 q).getD 0) w.2
  (match met.1 with
    | some what => setPte w.1 q what
    | none => w.1,met.2)

variable {meet_action}

theorem present_visitPage {w : Km × σ} {q r : Nat} : Present (visitPage meet_action w q).1 r ↔ Present w.1 r := by
  rw [visitPage]
  dsimp only
  split
  · exact present_setPte
  · exact Iff.rfl

theorem present_visits {w : Km × σ} {l : List Nat} {r : Nat} :
    Present (l.foldl (visitPage meet_action) w).1 r ↔ Present w.1 r := by
  induction l generalizing w with
  | nil => exact Iff.rfl
  | cons q l ih =>
    rw [List.foldl_cons,ih]
    exact present_visitPage

theorem meet_spec (meet_action : Nat → Nat → σ → Option Nat × σ) {p : Progress σ} {q : Nat} (at_q : At p.mem p.ctx q) :
    ((meet meet_action p).mem,(meet meet_action p).rest) = visitPage meet_action (p.mem,p.rest) q ∧
    (meet meet_action p).visited = p.visited ++ [q * 4096] ∧ (meet meet_action p).ctx = p.ctx ∧
    (meet meet_action p).s = add p.s PAGE_SIZE := by
  refine ⟨?_,?_,by rw [meet],by rw [meet]⟩
  · rw [meet,visitPage]
    dsimp only
    rw [at_q.read,at_q.address]
    cases (meet_action (q * 4096) ((pteAt p.mem q).getD 0) p.rest).1 with
    | none => rfl
    | some what => exact congrArg (fun mem => (mem,_)) (at_q.write_force what)
  · rw [meet,at_q.address]

/-! ### The loop over the entries -/

/-- The addresses of the pages from `first` on, up to `last`. -/
def pages (first last : Nat) : List Nat := List.range' first (last - first)

theorem pages_self (first : Nat) : pages first first = [] := by
  rw [pages,Nat.sub_self]
  rfl

theorem pages_cons {first last : Nat} (less : first < last) : pages first last = first :: pages (first + 1) last := by
  rw [pages,pages,show last - first = (last - (first + 1)) + 1 by omega]
  rfl

/-- The walk has gone through the pages from `q` up to `e`, and has not found the table of
    `e` unless the range ends there. -/
structure Went (meet_action : Nat → Nat → σ → Option Nat × σ) (first last q e : Nat) (p p' : Progress σ) : Prop where
  low : q ≤ e
  high : e ≤ last
  present : ∀ r, q ≤ r → r < e → Present p.mem r
  counted : p'.s = (e - first) * 4096
  visited : p'.visited = p.visited ++ (pages q e).map (fun r => r * 4096)
  changed : (p'.mem,p'.rest) = (pages q e).foldl (visitPage meet_action) (p.mem,p.rest)
  stopped : e = last ∨ e < last ∧ ¬Present p.mem e ∧ Missed p'.ctx e

/-- A walk that stops behind its first page. -/
theorem Went.page {meet_action : Nat → Nat → σ → Option Nat × σ} {first last q : Nat} {p p' : Progress σ} (less : q < last)
    (present : Present p.mem q) (counted : p'.s = (q + 1 - first) * 4096) (visited : p'.visited = p.visited ++ [q * 4096])
    (changed : (p'.mem,p'.rest) = visitPage meet_action (p.mem,p.rest) q)
    (stopped : q + 1 = last ∨ q + 1 < last ∧ ¬Present p.mem (q + 1) ∧ Missed p'.ctx (q + 1)) :
    Went meet_action first last q (q + 1) p p' := by
  have one : pages q (q + 1) = [q] := by rw [pages_cons (by omega),pages_self]
  refine ⟨by omega,by omega,?_,counted,?_,?_,stopped⟩
  · intro r low_r high_r
    obtain rfl : r = q := by omega
    exact present
  · rw [one]
    exact visited
  · rw [one]
    exact changed

theorem pte_loop_spec (meet_action : Nat → Nat → σ → Option Nat × σ) {first last : Nat} (fits : last ≤ 1048576) (whole : (last - first) * 4096 < 4294967296) :
    ∀ (rounds : Nat) {p : Progress σ} {q : Nat}, At p.mem p.ctx q → first ≤ q → q < last → p.s = (q - first) * 4096 →
    pte_loop meet_action ((last - first) * 4096) rounds p = none ∧ rounds < last - q ∨
    ∃ e p', pte_loop meet_action ((last - first) * 4096) rounds p = some p' ∧ q < e ∧
      Went meet_action first last q e p p' := by
  intro rounds
  induction rounds with
  | zero =>
    intro p q _ _ less _
    exact Or.inl ⟨rfl,by omega⟩
  | succ rounds ih =>
    intro p q at_q low less counted
    rw [pte_loop]
    dsimp only
    have spec := meet_spec meet_action at_q
    generalize meet meet_action p = met at *
    obtain ⟨changed,visited,ctx,s⟩ := spec
    have count : met.s = (q + 1 - first) * 4096 := by
      rw [s,counted,add,modulus,PAGE_SIZE]
      omega
    have still {r : Nat} : Present met.mem r ↔ Present p.mem r := by
      have same : met.mem = (visitPage meet_action (p.mem,p.rest) q).1 := congrArg Prod.fst changed
      rw [same]
      exact present_visitPage
    by_cases more : q + 1 < last
    · have short : met.s < (last - first) * 4096 := by omega
      rw [if_pos short]
      have at_q' : At met.mem met.ctx q := by
        rw [ctx]
        exact ⟨at_q.address,at_q.entry,at_q.table,still.2 at_q.present⟩
      rcases km_pte_next_spec at_q' (by omega) with ⟨here,found,at_next⟩ | ⟨gone,found,missed⟩
      · rw [found,if_pos rfl]
        rcases ih (p := { met with ctx := (km_pte_next met.mem met.ctx).2 })
          at_next (by omega) more count with ⟨out,short⟩ | ⟨e,p',done,beyond,went⟩
        · exact Or.inl ⟨out,by omega⟩
        · refine Or.inr ⟨e,p',done,by omega,by omega,went.high,?_,went.counted,?_,?_,?_⟩
          · intro r low_r high_r
            rcases Nat.eq_or_lt_of_le low_r with rfl | later
            · exact at_q.present
            · exact still.1 (went.present r later high_r)
          · rw [went.visited,visited,pages_cons (show q < e by omega),List.map_cons,List.append_assoc]
            rfl
          · rw [went.changed,pages_cons (show q < e by omega),List.foldl_cons,← changed]
          · rcases went.stopped with ended | ⟨before,gone,missed⟩
            · exact Or.inl ended
            · exact Or.inr ⟨before,fun here => gone (still.2 here),missed⟩
      · rw [found,if_neg (by decide)]
        exact Or.inr ⟨q + 1,_,rfl,by omega,Went.page less at_q.present count visited changed
          (Or.inr ⟨more,fun here => gone (still.2 here),missed⟩)⟩
    · have full : ¬met.s < (last - first) * 4096 := by omega
      rw [if_neg full]
      exact Or.inr ⟨q + 1,_,rfl,by omega,Went.page less at_q.present count visited changed (Or.inl (by omega))⟩

/-! ### The loop over the tables -/

section Tables
variable {first last : Nat} (fits : last ≤ 1048576)
include fits

/-- Behind a missing table the loop counts up to the end of the address space. -/
theorem jump_count {p : Progress σ} {e : Nat} (missed : Missed p.ctx e) (low : first ≤ e) (high : e < last)
    (counted : p.s = (e - first) * 4096) :
    add p.s (km_walk_jump p.ctx).1 = (4294967296 - first * 4096) % 4294967296 := by
  rw [(km_walk_jump_spec missed (by omega)).2,counted,add,modulus]
  omega

/-- Unless the range begins at address 0, the loop ends at a missing table. -/
theorem table_loop_jump (meet_action : Nat → Nat → σ → Option Nat × σ) {p : Progress σ} {e : Nat} (rounds : Nat) (missed : Missed p.ctx e) (low : first ≤ e) (high : e < last)
    (counted : p.s = (e - first) * 4096) (positive : 0 < first) :
    ∃ p', table_loop meet_action ((last - first) * 4096) (rounds + 1) true p = some p' ∧ p'.mem = p.mem ∧
      p'.rest = p.rest ∧ p'.visited = p.visited := by
  have count := jump_count fits missed low high counted
  have past : add p.s (km_walk_jump p.ctx).1 ≥ (last - first) * 4096 := by
    rw [count]
    omega
  rw [table_loop]
  dsimp only
  rw [if_pos rfl,if_pos past]
  exact ⟨_,rfl,rfl,rfl,rfl⟩

/-- If the range begins at address 0 the loop does not end once it has met a missing
    table. -/
theorem table_loop_stuck (whole : (last - first) * 4096 < 4294967296) (zero : first = 0) : ∀ (rounds : Nat) {p : Progress σ} {e : Nat}, Missed p.ctx e → e < last →
    p.s = e * 4096 → ¬Present p.mem e → table_loop meet_action ((last - first) * 4096) rounds true p = none := by
  intro rounds
  induction rounds with
  | zero =>
    intro p e _ _ _ _
    rfl
  | succ rounds ih =>
    intro p e missed high counted gone
    have from_zero : p.s = (e - first) * 4096 := by
      rw [zero,Nat.sub_zero]
      exact counted
    have low : first ≤ e := by omega
    have count := jump_count fits missed low high from_zero
    have current := (km_walk_jump_spec missed (show e < 1048576 by omega)).1
    have again : add p.s (km_walk_jump p.ctx).1 = 0 := by
      rw [count,zero]
    have short : ¬add p.s (km_walk_jump p.ctx).1 ≥ (last - first) * 4096 := by
      rw [again]
      omega
    rw [table_loop]
    dsimp only
    rw [if_pos rfl,if_neg short,current,again]
    have walked := km_walk_to_spec p.mem (km_walk_jump p.ctx).2 (show 0 < 1048576 by decide)
    rw [Nat.zero_mul] at walked
    rcases walked with ⟨_,found,at_zero⟩ | ⟨none_there,found,missed_zero⟩
    · rw [if_pos found]
      rcases pte_loop_spec meet_action fits whole (rounds + 1)
        (p := { p with ctx := (km_walk_to p.mem (km_walk_jump p.ctx).2 0).2, s := 0 }) at_zero (by omega) (by omega)
        (by simp) with ⟨out,_⟩ | ⟨e',p',done,_,went⟩
      · rw [out]
      · rw [done]
        -- the pages up to `e'` are there, so the loop has not got to the end
        have before : e' ≤ e := by
          by_contra beyond
          exact gone (went.present e (by omega) (by omega))
        have still : Present p'.mem e' ↔ Present p.mem e' := by
          have same := congrArg Prod.fst went.changed
          dsimp only at same
          rw [same]
          exact present_visits
        have counted' : p'.s = e' * 4096 := by
          rw [went.counted,zero,Nat.sub_zero]
        have less : p'.s < (last - first) * 4096 := by omega
        dsimp only
        rw [if_pos less]
        rcases went.stopped with ended | ⟨_,gone',missed'⟩
        · omega
        · exact ih missed' (by omega) counted' (fun here => gone' (still.1 here))
    · rw [if_neg (by rw [found]; decide)]
      exact ih missed_zero (by omega) (by simp) none_there

end Tables

/-! ### The whole loop -/

/-- The loop has visited the pages from `first` up to `e`, where the range ends or a table
    is missing. -/
structure EndedAt (meet_action : Nat → Nat → σ → Option Nat × σ) (mem : Km) (rest : σ) (first last e : Nat)
    (p : Progress σ) : Prop where
  low : first ≤ e
  high : e ≤ last
  present : ∀ r, first ≤ r → r < e → Present mem r
  stopped : e = last ∨ ¬Present mem e
  visited : p.visited = (pages first e).map (fun r => r * 4096)
  changed : (p.mem,p.rest) = (pages first e).foldl (visitPage meet_action) (mem,rest)

section Whole
variable (meet_action : Nat → Nat → σ → Option Nat × σ) {mem : Km} (rest : σ) (ctx : km_walk_ctx) {first last : Nat}
  (fits : last ≤ 1048576) (less : first < last) (whole : (last - first) * 4096 < 4294967296)
include fits less whole

theorem km_walk_loop_ended (ends : 0 < first ∨ ∀ r, first ≤ r → r < last → Present mem r) (rounds : Nat) :
    km_walk_loop meet_action rounds mem rest ctx (first * 4096) ((last - first) * 4096) = none ∧ rounds ≤ last - first ∨
    ∃ e p, km_walk_loop meet_action rounds mem rest ctx (first * 4096) ((last - first) * 4096) = some p ∧
      EndedAt meet_action mem rest first last e p := by
  rw [km_walk_loop]
  rcases km_walk_to_spec mem ctx (show first < 1048576 by omega) with ⟨here,found,at_first⟩ | ⟨gone,found,missed⟩
  · rw [found]
    rcases rounds with _ | rounds
    · exact Or.inl ⟨rfl,by omega⟩
    have entries := pte_loop_spec meet_action fits whole (rounds + 1)
      (p := { ctx := (km_walk_to mem ctx (first * 4096)).2, s := 0, mem, rest, visited := [] }) at_first (by omega) less
      (by simp)
    rw [table_loop]
    dsimp only
    rw [if_neg (by decide)]
    rcases entries with ⟨out,short⟩ | ⟨e,p',done,beyond,went⟩
    · rw [out]
      exact Or.inl ⟨rfl,by omega⟩
    rw [done]
    dsimp only
    have counted := went.counted
    rcases went.stopped with ended | ⟨before,gone,missed⟩
    · rw [ended] at counted
      rw [if_neg (by omega)]
      exact Or.inr ⟨e,p',rfl,went.low,went.high,went.present,Or.inl ended,went.visited,went.changed⟩
    · rw [if_pos (by omega)]
      rcases rounds with _ | rounds
      · exact Or.inl ⟨rfl,by omega⟩
      have positive : 0 < first := ends.resolve_right (fun all => gone (all e went.low before))
      obtain ⟨p'',jumped,mem',rest',visited'⟩ := table_loop_jump fits meet_action rounds missed went.low
        before counted positive
      refine Or.inr ⟨e,p'',jumped,went.low,went.high,went.present,Or.inr gone,?_,?_⟩
      · rw [visited']
        exact went.visited
      · rw [mem',rest']
        exact went.changed
  · rw [found]
    rcases rounds with _ | rounds
    · exact Or.inl ⟨rfl,by omega⟩
    have positive : 0 < first := ends.resolve_right (fun all => gone (all first (Nat.le_refl _) less))
    obtain ⟨p',jumped,mem',rest',visited'⟩ := table_loop_jump fits meet_action rounds
      (p := { ctx := (km_walk_to mem ctx (first * 4096)).2, s := 0, mem, rest, visited := [] }) missed (Nat.le_refl _) less
      (by simp) positive
    refine Or.inr ⟨first,p',jumped,Nat.le_refl _,by omega,by omega,Or.inr gone,?_,?_⟩
    · rw [visited',pages_self]
      rfl
    · rw [mem',rest',pages_self]
      rfl

/-- A range from address 0 with a missing table is walked for ever. -/
theorem km_walk_loop_stuck (zero : first = 0) {e : Nat} (inside : e < last) (gone : ¬Present mem e) (rounds : Nat) :
    km_walk_loop meet_action rounds mem rest ctx (first * 4096) ((last - first) * 4096) = none := by
  rw [km_walk_loop]
  rcases km_walk_to_spec mem ctx (show first < 1048576 by omega) with ⟨here,found,at_first⟩ | ⟨gone,found,missed⟩
  · rw [found]
    rcases rounds with _ | rounds
    · rfl
    have entries := pte_loop_spec meet_action fits whole (rounds + 1)
      (p := { ctx := (km_walk_to mem ctx (first * 4096)).2, s := 0, mem, rest, visited := [] }) at_first (by omega) less
      (by simp)
    rw [table_loop]
    dsimp only
    rw [if_neg (by decide)]
    rcases entries with ⟨out,_⟩ | ⟨e',p',done,_,went⟩
    · rw [out]
    rw [done]
    dsimp only
    have counted := went.counted
    rcases went.stopped with ended | ⟨before,gone',missed⟩
    · exact absurd (went.present e (by omega) (by omega)) gone
    · rw [if_pos (by omega)]
      apply table_loop_stuck fits whole zero rounds missed before (by rw [counted,zero,Nat.sub_zero])
      have same := congrArg Prod.fst went.changed
      dsimp only at same
      rw [same,present_visits]
      exact gone'
  · rw [found]
    exact table_loop_stuck fits whole zero rounds missed less (by rw [zero]) gone

end Whole

/-- An empty range still costs a visit where there is a table. -/
theorem km_walk_loop_empty_there (meet_action : Nat → Nat → σ → Option Nat × σ) {mem : Km} (rest : σ) (ctx : km_walk_ctx)
    {first : Nat} (fits : first < 1048576) (here : Present mem first) (rounds : Nat) :
    ∃ p, km_walk_loop meet_action (rounds + 1) mem rest ctx (first * 4096) 0 = some p ∧ p.visited = [first * 4096] := by
  rw [km_walk_loop]
  rcases km_walk_to_spec mem ctx fits with ⟨_,found,at_first⟩ | ⟨gone,_⟩
  · rw [found,table_loop]
    dsimp only
    rw [if_neg (by decide),pte_loop]
    dsimp only
    rw [if_neg (Nat.not_lt_zero _)]
    dsimp only
    rw [if_neg (Nat.not_lt_zero _)]
    refine ⟨_,rfl,?_⟩
    rw [(meet_spec meet_action at_first).2.1]
    rfl
  · exact absurd here gone

theorem km_walk_loop_empty_gone (meet_action : Nat → Nat → σ → Option Nat × σ) {mem : Km} (rest : σ) (ctx : km_walk_ctx)
    {first : Nat} (fits : first < 1048576) (gone : ¬Present mem first) :
    ∃ p, km_walk_loop meet_action 1 mem rest ctx (first * 4096) 0 = some p ∧
      EndedAt meet_action mem rest first first first p := by
  rw [km_walk_loop]
  rcases km_walk_to_spec mem ctx fits with ⟨here,_⟩ | ⟨_,found,missed⟩
  · exact absurd here gone
  · rw [found,table_loop]
    dsimp only
    rw [if_pos (by decide),if_pos (Nat.zero_le _)]
    refine ⟨_,rfl,Nat.le_refl _,Nat.le_refl _,by omega,Or.inl rfl,?_,?_⟩
    · rw [pages_self]
      rfl
    · rw [pages_self]
      rfl

end Loops

/-! ### What is claimed of a range -/

/-- The pages of the range whose second-level table is there, in order. -/
def presentPages (mem : Km) (start size : Nat) : List Nat :=
  ((pages (start / 4096) ((start + size) / 4096)).filter (fun q => Present mem q)).map (fun q => q * 4096)

/-- The walk ends, and it has visited the pages of the range that have a table. -/
def RangeWalked {σ : Type} (meet_action : Nat → Nat → σ → Option Nat × σ) (mem : Km) (rest : σ) (ctx : km_walk_ctx)
    (start size : Nat) : Prop :=
  ∃ rounds p, km_walk_loop meet_action rounds mem rest ctx start size = some p ∧ p.visited = presentPages mem start size

/-- The frame that the entry of the page `q` owns. -/
def ownedFrame (mem : Km) (q : Nat) : Option Nat :=
  (pteAt mem q).bind (fun pte => if KE_PAGE_INVALID_PTE pte || KE_PAGE_IS_SHARED_FROM pte then none else
    some (KE_PAGE_PHY_FROM_PTE pte))

/-- The range is freed: its valid entries are cleared, the frames that the entries own have
    been freed in order, one time each, and no other entry has changed. -/
def RangeFreed (mem : Km) (ctx : km_walk_ctx) (start size : Nat) : Prop :=
  ∃ rounds mem' freed, km_page_dealloc_range rounds mem ctx start size = some (mem',freed) ∧
    (∀ q pte, start ≤ q * 4096 → q * 4096 < start + size → pteAt mem q = some pte → KE_PAGE_INVALID_PTE pte = false →
      pteAt mem' q = some 0) ∧
    freed = (pages (start / 4096) ((start + size) / 4096)).filterMap (ownedFrame mem) ∧
    ∀ q, ¬(start ≤ q * 4096 ∧ q * 4096 < start + size) → pteAt mem' q = pteAt mem q

/-- No table is there behind a missing one in the range, none is missing if the range
    begins at address 0, and an empty range lies in no table. -/
def Unbroken (mem : Km) (start size : Nat) : Prop :=
  size = 0 ∧ ¬Present mem (start / 4096) ∨
  0 < size ∧ (∀ q r, start / 4096 ≤ q → q ≤ r → r < (start + size) / 4096 → Present mem r → Present mem q) ∧
    (start = 0 → ∀ q, q < size / 4096 → Present mem q)

/-! ### Freeing -/

/-- What `delete_page` leaves of an entry. -/
def deleted (pte : Nat) : Nat := if KE_PAGE_INVALID_PTE pte then pte else 0

theorem visitPage_delete (w : Km × List Nat) (q : Nat) :
    (∀ r, pteAt (visitPage delete_page w q).1 r = if r = q then (pteAt w.1 r).map deleted else pteAt w.1 r) ∧
    (visitPage delete_page w q).2 = w.2 ++ (ownedFrame w.1 q).toList := by
  rw [visitPage]
  dsimp only
  rw [delete_page,ownedFrame]
  cases entry : pteAt w.1 q with
  | none =>
    refine ⟨?_,by simp [KE_PAGE_INVALID_PTE]⟩
    intro r
    by_cases same : r = q
    · rw [same]
      simp [KE_PAGE_INVALID_PTE,entry]
    · rw [if_neg same]
      simp [KE_PAGE_INVALID_PTE]
  | some pte =>
    cases invalid : KE_PAGE_INVALID_PTE pte with
    | true =>
      refine ⟨?_,by simp [invalid]⟩
      intro r
      by_cases same : r = q
      · rw [same]
        simp [invalid,entry,deleted]
      · simp [invalid,same]
    | false =>
      constructor
      · intro r
        by_cases same : r = q
        · rw [same]
          simp [invalid,entry,deleted,pteAt_setPte_self]
        · simp [invalid,same,pteAt_setPte_other same]
      · cases shared : KE_PAGE_IS_SHARED_FROM pte <;> simp [invalid,shared]

theorem visits_delete {l : List Nat} (once : l.Nodup) (w : Km × List Nat) :
    (∀ r, pteAt (l.foldl (visitPage delete_page) w).1 r = if r ∈ l then (pteAt w.1 r).map deleted else pteAt w.1 r) ∧
    (l.foldl (visitPage delete_page) w).2 = w.2 ++ l.filterMap (ownedFrame w.1) := by
  induction l generalizing w with
  | nil => simp
  | cons q l ih =>
    obtain ⟨not_later,later_once⟩ := List.nodup_cons.1 once
    obtain ⟨entries,frees⟩ := visitPage_delete w q
    obtain ⟨rest_entries,rest_frees⟩ := ih later_once (visitPage delete_page w q)
    constructor
    · intro r
      rw [List.foldl_cons,rest_entries r,entries r]
      by_cases same : r = q
      · rw [same]
        simp [not_later]
      · simp [same]
    · have same_frames : l.filterMap (ownedFrame (visitPage delete_page w q).1) = l.filterMap (ownedFrame w.1) := by
        apply List.filterMap_congr
        intro r hr
        have apart : r ≠ q := by
          rintro rfl
          exact not_later hr
        rw [ownedFrame,ownedFrame,entries r,if_neg apart]
      rw [List.foldl_cons,rest_frees,frees,same_frames,List.append_assoc]
      cases frame : ownedFrame w.1 q <;> simp [frame]

/-! ### The exact condition -/

theorem mem_pages {first last q : Nat} : q ∈ pages first last ↔ first ≤ q ∧ q < last := by
  rw [pages,List.mem_range'_1]
  omega

theorem pages_split {first e last : Nat} (low : first ≤ e) (high : e ≤ last) :
    pages first last = pages first e ++ pages e last := by
  rw [pages,pages,pages,show last - first = (e - first) + (last - e) by omega,← List.range'_append_1,
    show first + (e - first) = e by omega]

section Ranges
variable {σ : Type} {meet_action : Nat → Nat → σ → Option Nat × σ} {mem : Km} {rest : σ} {first last e : Nat}
  {p : Progress σ}

/-- A walk that ended early is complete if no table is there behind its end. -/
theorem EndedAt.complete_iff (ended : EndedAt meet_action mem rest first last e p) :
    p.visited = ((pages first last).filter (fun q => Present mem q)).map (fun q => q * 4096) ↔
      ∀ q r, first ≤ q → q ≤ r → r < last → Present mem r → Present mem q := by
  have all : (pages first e).filter (fun q => decide (Present mem q)) = pages first e := by
    apply List.filter_eq_self.2
    intro q hq
    obtain ⟨low,high⟩ := mem_pages.1 hq
    exact decide_eq_true (ended.present q low high)
  rw [ended.visited,pages_split ended.low ended.high,List.filter_append,all,List.map_append]
  constructor
  · intro same q r low order high here
    have empty : (pages e last).filter (fun q => decide (Present mem q)) = [] :=
      List.map_eq_nil_iff.1 (List.self_eq_append_right.1 same)
    have before : r < e := by
      by_contra beyond
      exact List.filter_eq_nil_iff.1 empty r (mem_pages.2 ⟨by omega,high⟩) (decide_eq_true here)
    exact ended.present q low (by omega)
  · intro unbroken
    have empty : (pages e last).filter (fun q => decide (Present mem q)) = [] := by
      apply List.filter_eq_nil_iff.2
      intro r hr here
      obtain ⟨low,high⟩ := mem_pages.1 hr
      rcases ended.stopped with whole | gone
      · omega
      · exact gone (unbroken e r ended.low low high (of_decide_eq_true here))
    rw [empty,List.map_nil,List.append_nil]

theorem pteAt_eq_none {q : Nat} (gone : ¬Present mem q) : pteAt mem q = none := by
  rw [Present,Bool.not_eq_true,Option.isSome_eq_false_iff,Option.isNone_iff_eq_none] at gone
  rw [pteAt,gone]
  rfl

/-- A complete walk frees the range. -/
theorem EndedAt.freed {p : Progress (List Nat)} (ended : EndedAt delete_page mem [] first last e p)
    (unbroken : ∀ q r, first ≤ q → q ≤ r → r < last → Present mem r → Present mem q) :
    (∀ q pte, first ≤ q → q < last → pteAt mem q = some pte → KE_PAGE_INVALID_PTE pte = false →
      pteAt p.mem q = some 0) ∧
    p.rest = (pages first last).filterMap (ownedFrame mem) ∧
    ∀ q, ¬(first ≤ q ∧ q < last) → pteAt p.mem q = pteAt mem q := by
  have once : (pages first e).Nodup := List.nodup_range'
  obtain ⟨entries,frees⟩ := visits_delete once (mem,[])
  have mem_eq := congrArg Prod.fst ended.changed
  have rest_eq := congrArg Prod.snd ended.changed
  dsimp only at mem_eq rest_eq
  rw [← mem_eq] at entries
  rw [← rest_eq,List.nil_append] at frees
  have high := ended.high
  have behind : ∀ q, e ≤ q → q < last → pteAt mem q = none := by
    intro q low below
    apply pteAt_eq_none
    intro here
    rcases ended.stopped with whole | gone
    · omega
    · exact gone (unbroken e q ended.low low below here)
  refine ⟨?_,?_,?_⟩
  · intro q pte low below entry valid
    have inside : q ∈ pages first e := by
      apply mem_pages.2
      refine ⟨low,?_⟩
      by_contra beyond
      rw [behind q (by omega) below] at entry
      cases entry
    rw [entries q,if_pos inside,entry]
    simp [deleted,valid]
  · have nothing : (pages e last).filterMap (ownedFrame mem) = [] := by
      apply List.filterMap_eq_nil_iff.2
      intro q hq
      obtain ⟨low,below⟩ := mem_pages.1 hq
      rw [ownedFrame,behind q low below]
      rfl
    rw [frees,pages_split ended.low ended.high,List.filterMap_append,nothing,List.append_nil]
  · intro q outside
    have apart : q ∉ pages first e := by
      intro inside
      obtain ⟨low,below⟩ := mem_pages.1 inside
      omega
    rw [entries q,if_neg apart]

/-- If both walks over a range have ended, the range is treated as it should exactly if no
    table is there behind a missing one. -/
theorem ended_iff {ctx : km_walk_ctx} (order : first ≤ last)
    (walks : ∀ rounds p, km_walk_loop meet_action rounds mem rest ctx (first * 4096) ((last - first) * 4096) = some p →
      ∃ e, EndedAt meet_action mem rest first last e p)
    (walk : ∃ rounds p, km_walk_loop meet_action rounds mem rest ctx (first * 4096) ((last - first) * 4096) = some p)
    (free : ∃ rounds p e, km_walk_loop delete_page rounds mem [] ctx (first * 4096) ((last - first) * 4096) = some p ∧
      EndedAt delete_page mem [] first last e p) :
    RangeWalked meet_action mem rest ctx (first * 4096) ((last - first) * 4096) ∧
      RangeFreed mem ctx (first * 4096) ((last - first) * 4096) ↔
    ∀ q r, first ≤ q → q ≤ r → r < last → Present mem r → Present mem q := by
  have low : first * 4096 / 4096 = first := by omega
  have high : (first * 4096 + (last - first) * 4096) / 4096 = last := by
    rw [← Nat.add_mul,Nat.mul_div_cancel _ (by decide),Nat.add_sub_cancel' order]
  have bounds (q : Nat) : first * 4096 ≤ q * 4096 ∧ q * 4096 < first * 4096 + (last - first) * 4096 ↔
      first ≤ q ∧ q < last := by omega
  constructor
  · rintro ⟨⟨rounds,p,ran,visited⟩,_⟩
    obtain ⟨e,ended⟩ := walks rounds p ran
    rw [presentPages,low,high] at visited
    exact ended.complete_iff.1 visited
  · intro unbroken
    constructor
    · obtain ⟨rounds,p,ran⟩ := walk
      obtain ⟨e,ended⟩ := walks rounds p ran
      refine ⟨rounds,p,ran,?_⟩
      rw [presentPages,low,high]
      exact ended.complete_iff.2 unbroken
    · obtain ⟨rounds,p,e,ran,ended⟩ := free
      obtain ⟨cleared,freed,kept⟩ := ended.freed unbroken
      refine ⟨rounds,p.mem,p.rest,?_,?_,?_,?_⟩
      · rw [km_page_dealloc_range,ran]
        rfl
      · intro q pte from_start to_end entry valid
        obtain ⟨q_low,q_high⟩ := (bounds q).1 ⟨from_start,to_end⟩
        exact cleared q pte q_low q_high entry valid
      · rw [low,high]
        exact freed
      · intro q outside
        exact kept q (fun inside => outside ((bounds q).2 inside))

theorem empty_range_iff {ctx : km_walk_ctx} (fits : first < 1048576) :
    RangeWalked meet_action mem rest ctx (first * 4096) 0 ∧ RangeFreed mem ctx (first * 4096) 0 ↔ ¬Present mem first := by
  by_cases here : Present mem first
  · refine iff_of_false ?_ (not_not.2 here)
    rintro ⟨⟨rounds,p,ran,visited⟩,_⟩
    rcases rounds with _ | rounds
    · cases ran
    · obtain ⟨p',ran',visited'⟩ := km_walk_loop_empty_there meet_action rest ctx fits here rounds
      rw [ran] at ran'
      obtain rfl := Option.some.inj ran'
      rw [visited,presentPages,Nat.add_zero,pages_self] at visited'
      cases visited'
  · refine iff_of_true ?_ here
    have none_behind : ∀ q r, first ≤ q → q ≤ r → r < first → Present mem r → Present mem q := by
      intro q r low order high
      omega
    obtain ⟨p,ran,ended⟩ := km_walk_loop_empty_gone meet_action rest ctx fits here
    obtain ⟨p',ran',ended'⟩ := km_walk_loop_empty_gone delete_page [] ctx fits here
    have low : first * 4096 / 4096 = first := by omega
    constructor
    · refine ⟨1,p,ran,?_⟩
      rw [presentPages,Nat.add_zero,low]
      exact ended.complete_iff.2 none_behind
    · obtain ⟨_,freed,kept⟩ := ended'.freed none_behind
      refine ⟨1,p'.mem,p'.rest,?_,?_,?_,?_⟩
      · rw [km_page_dealloc_range,ran']
        rfl
      · intro q pte from_start to_end
        omega
      · rw [Nat.add_zero,low]
        exact freed
      · intro q _
        exact kept q (by omega)

/-- For a page-aligned range that does not wrap, the walk visits the pages that have a
    table, each once and in order, and freeing the range frees it, exactly if the tables of
    the range are unbroken. -/
theorem range_iff_unbroken (meet_action : Nat → Nat → σ → Option Nat × σ) (mem : Km) (rest : σ) (ctx : km_walk_ctx)
    (start size : Nat) (start_aligned : start % 4096 = 0) (size_aligned : size % 4096 = 0)
    (start_word : start < 4294967296) (size_word : size < 4294967296) (no_wrap : start + size ≤ 4294967296) :
    RangeWalked meet_action mem rest ctx start size ∧ RangeFreed mem ctx start size ↔ Unbroken mem start size := by
  obtain ⟨first,rfl⟩ : ∃ first, start = first * 4096 := ⟨start / 4096,by omega⟩
  obtain ⟨last,order,rfl⟩ : ∃ last, first ≤ last ∧ size = (last - first) * 4096 :=
    ⟨first + size / 4096,by omega,by rw [Nat.add_sub_cancel_left]; omega⟩
  have low : first * 4096 / 4096 = first := by omega
  have high : (first * 4096 + (last - first) * 4096) / 4096 = last := by
    rw [← Nat.add_mul,Nat.mul_div_cancel _ (by decide),Nat.add_sub_cancel' order]
  rw [Unbroken,low,high,Nat.mul_div_cancel _ (by decide)]
  rcases Nat.eq_or_lt_of_le order with rfl | less
  · rw [Nat.sub_self,Nat.zero_mul,empty_range_iff (by omega)]
    simp
  have fits : last ≤ 1048576 := by omega
  have walked (τ : Type) (action : Nat → Nat → τ → Option Nat × τ) (other : τ)
      (ends : 0 < first ∨ ∀ r, first ≤ r → r < last → Present mem r) :
      ∃ rounds e p, km_walk_loop action rounds mem other ctx (first * 4096) ((last - first) * 4096) = some p ∧
        EndedAt action mem other first last e p := by
    rcases km_walk_loop_ended action other ctx fits less size_word ends
      (last - first + 1) with ⟨_,short⟩ | found
    · omega
    · exact ⟨_,found⟩
  have positive : 0 < (last - first) * 4096 := by omega
  have nonzero : (last - first) * 4096 ≠ 0 := by omega
  simp only [nonzero,positive,false_and,true_and,false_or]
  by_cases ends : 0 < first ∨ ∀ r, first ≤ r → r < last → Present mem r
  · obtain ⟨rounds,e,p,ran,ended⟩ := walked _ meet_action rest ends
    obtain ⟨rounds',e',p',ran',ended'⟩ := walked _ delete_page [] ends
    rw [ended_iff order _ ⟨rounds,p,ran⟩ ⟨rounds',p',e',ran',ended'⟩]
    · constructor
      · intro unbroken
        refine ⟨unbroken,?_⟩
        intro zero q hq
        exact (ends.resolve_left (by omega)) q (by omega) (by omega)
      · exact And.left
    · intro rounds p ran
      rcases km_walk_loop_ended meet_action rest ctx fits less size_word ends rounds with ⟨out,_⟩ | ⟨e,p',done,ended⟩
      · rw [out] at ran
        cases ran
      · rw [done] at ran
        obtain rfl := Option.some.inj ran
        exact ⟨e,ended⟩
  · rw [not_or] at ends
    obtain rfl : first = 0 := by omega
    obtain ⟨e,gone⟩ := not_forall.1 ends.2
    simp only [Classical.not_imp] at gone
    obtain ⟨_,inside,gone⟩ := gone
    constructor
    · rintro ⟨⟨rounds,p,ran,_⟩,_⟩
      rw [km_walk_loop_stuck meet_action rest ctx fits less size_word rfl inside gone] at ran
      cases ran
    · rintro ⟨_,all⟩
      exact absurd (all (by simp) e (by omega)) gone

end Ranges

/-- A walk over two pages that are mapped to one shared frame. -/
theorem range_iff_unbroken_two_pages :
    RangeWalked delete_page { translation_table := some (fun _ => some (fun _ => 0x1201)) } []
      { hirarch_id := fun _ => 0, table_base := 0, current_virtual_address := 0 } 0x400000 0x2000 ∧
    RangeFreed { translation_table := some (fun _ => some (fun _ => 0x1201)) }
      { hirarch_id := fun _ => 0, table_base := 0, current_virtual_address := 0 } 0x400000 0x2000 :=
  (range_iff_unbroken delete_page _ [] _ 0x400000 0x2000 (by decide) (by decide) (by decide) (by decide) (by decide)).2
    (Or.inr ⟨by decide,fun _ _ _ _ _ _ => rfl,fun _ _ _ => rfl⟩)

/-- The first of the two tables of the range is missing, and the pages of the second are not
    visited. -/
theorem table_behind_hole_missed :
    ¬(RangeWalked delete_page { translation_table := some (fun t => if t = 1 then none else some (fun _ => 0x1001)) } []
      { hirarch_id := fun _ => 0, table_base := 0, current_virtual_address := 0 } 0x400000 0x800000 ∧
    RangeFreed { translation_table := some (fun t => if t = 1 then none else some (fun _ => 0x1001)) }
      { hirarch_id := fun _ => 0, table_base := 0, current_virtual_address := 0 } 0x400000 0x800000) := by
  rintro ⟨⟨rounds,p,ran,visited⟩,_⟩
  rcases km_walk_loop_ended delete_page [] _ (show 3072 ≤ 1048576 by decide) (show 1024 < 3072 by decide) (by decide)
    (Or.inl (by decide)) rounds with ⟨out,_⟩ | ⟨e,p',done,ended⟩
  · exact absurd (out.symm.trans ran) (by simp)
  · obtain rfl : p' = p := Option.some.inj (done.symm.trans ran)
    have there := ended.complete_iff.1 visited 1024 2048 (by decide) (by decide) (by decide) rfl
    cases there

end GridOS.Walk
