import GridOS.WalkRange
import GridOS.Fault
import GridOS.Pages

/-!
The mapping of a range of pages, `km_page_map_range` of `source/kernel/memory/page.c`, with the walk that creates the tables
that are missing (`source/kernel/memory/walk.c`). A walk asks for each table at most once, so one answer for
each tells how the allocations go. The loop counts a signed number of bytes down, the writer keeps an entry that is
not empty, and the walk goes on behind the last page.
-/
namespace GridOS.PageMap
open GridOS.Words GridOS.Walk
open GridOS.Fault (km_arch_get_flags)
open GridOS.Pages (toInt)

/-- `km_walk_alloc_table` for the first-level table, or for the second-level table of an entry: whether there is
    memory. -/
abbrev Granted := Option Nat → Bool

/-- `km_walk_miss`: the table, with `km_create_sub_table` for the entry `sub_id`. Tables are cleared. -/
def km_walk_miss (granted : Granted) (mem : Km) (sub_id : Nat) : Bool × Km :=
  match mem.translation_table with
  | none => if granted none then (true,⟨some (fun _ => none)⟩) else (false,mem)
  | some table =>
    if granted (some sub_id) then (true,⟨some (Function.update table sub_id (some (fun _ => 0)))⟩) else (false,mem)

/-- `km_walk_to` with `km_walk_miss` as its `miss_action`. -/
def km_walk_to (granted : Granted) (mem : Km) (ctx : km_walk_ctx) (va : Nat) : Bool × Km × km_walk_ctx :=
  let ctx := { ctx with
    hirarch_id := Function.update ctx.hirarch_id 0 KM_WALK_MAX_LEVEL
    current_virtual_address := va }
  let root := if mem.translation_table.isNone then km_walk_miss granted mem (ctx.hirarch_id 2) else (true,mem)
  if root.1 = false then (false,root.2,ctx) else
  let sub_id := km_get_vid 2 va
  let ctx := { ctx with hirarch_id := Function.update (Function.update ctx.hirarch_id 2 sub_id) 0 2 }
  let sub := if (root.2.sub_table sub_id).isNone then km_walk_miss granted root.2 (ctx.hirarch_id 2) else (true,root.2)
  if sub.1 = false then (false,sub.2,ctx) else
  (true,sub.2,{ ctx with
    hirarch_id := Function.update (Function.update ctx.hirarch_id 1 (km_get_vid 1 va)) 0 1
    table_base := sub_id })

def km_pte_next (granted : Granted) (mem : Km) (ctx : km_walk_ctx) : Bool × Km × km_walk_ctx :=
  let ctx := { ctx with current_virtual_address := add ctx.current_virtual_address PAGE_SIZE }
  if ctx.hirarch_id 1 + 1 ≠ ARCH_KM_LV1_COUNT then
    (true,mem,{ ctx with hirarch_id := Function.update ctx.hirarch_id 1 (ctx.hirarch_id 1 + 1) })
  else km_walk_to granted mem ctx ctx.current_virtual_address

/-- An entry that is not empty stays. -/
def km_pte_write (mem : Km) (ctx : km_walk_ctx) (what : Nat) : Km :=
  if km_pte_read mem ctx ≠ 0 then mem else km_pte_write_force mem ctx what

def km_pte_write_and_next (granted : Granted) (mem : Km) (ctx : km_walk_ctx) (what : Nat) : Bool × Km × km_walk_ctx :=
  km_pte_next granted (km_pte_write mem ctx what) ctx

/-- The loop of `km_page_map_range`, with `i` bytes left. -/
def map_loop (granted : Granted) (prot : Nat) (i : Int) (physical_address : Nat) (mem : Km) (ctx : km_walk_ctx) : Bool × Km :=
  if _more : 0 < i then
    let next := km_pte_write_and_next granted mem ctx (physical_address ||| km_arch_get_flags prot ||| PAGE_FLAG_FROM_OTHER)
    if next.1 = false then (false,next.2.1) else
    map_loop granted prot (i - PAGE_SIZE) (add physical_address PAGE_SIZE) next.2.1 next.2.2
  else (true,mem)
termination_by i.toNat
decreasing_by unfold PAGE_SIZE; omega

/-- `ctx` is what is on the stack. -/
def km_page_map_range (granted : Granted) (mem : Km) (ctx : km_walk_ctx) (start_va size physical_pfn prot : Nat) : Bool × Km :=
  let walked := km_walk_to granted mem ctx start_va
  if walked.1 = false then (false,walked.2.1) else
  map_loop granted prot (toInt size) ((physical_pfn <<< 12) % modulus) walked.2.1 walked.2.2

/-! ### What is mapped -/

/-- The entry of the page `q`, 0 if its table is missing. -/
def entry (mem : Km) (q : Nat) : Nat := (pteAt mem q).getD 0

/-- The tables of the page `q` are there, or memory for them is. -/
def Reach (granted : Granted) (mem : Km) (q : Nat) : Prop :=
  (mem.translation_table.isSome = true ∨ granted none = true) ∧ (Present mem q ∨ granted (some (q / 1024)) = true)

instance (granted : Granted) (mem : Km) (q : Nat) : Decidable (Reach granted mem q) := inferInstanceAs (Decidable (_ ∧ _))

/-- The page `k` pages behind the page `q`. -/
def behind (q k : Nat) : Nat := (q + k) % 1048576

/-- The entry that maps a frame. -/
def wanted (frame prot : Nat) : Nat := frame * 4096 ||| km_arch_get_flags prot ||| PAGE_FLAG_FROM_OTHER

/-- What `km_page_map_range` promises. -/
structure Mapped (mem : Km) (q size physical_pfn prot : Nat) (result : Bool × Km) : Prop where
  maps : result.1 = true → ∀ k, k * 4096 < size → entry result.2 (behind q k) = wanted (physical_pfn + k) prot
  others : result.1 = true → ∀ r, (∀ k, k * 4096 < size → r ≠ behind q k) → entry result.2 r = entry mem r
  kept : result.1 = false → ∀ r, KE_PAGE_INVALID_PTE (entry mem r) = false → entry result.2 r = entry mem r

/-- The pages that the loop goes through: the bytes that are left are signed. -/
def rounds (size : Nat) : Nat := if size < 2147483648 then (size + 4095) / 4096 else 0

/-- A table on the way, that of the page behind the last one included, is missing and cannot be had. -/
def Blocked (granted : Granted) (mem : Km) (q size : Nat) : Prop := ∃ k ≤ rounds size, ¬Reach granted mem (behind q k)

/-- The entry of a page is empty before and will be written, or it is the wanted one already. -/
def Fits (mem : Km) (q size physical_pfn prot k : Nat) : Prop :=
  entry mem (behind q k) = wanted (physical_pfn + k) prot ∨
    size < 2147483648 ∧ entry mem (behind q k) = 0 ∧ physical_pfn + k < 1048576

/-! ### The walk -/

section
variable {granted : Granted} {mem : Km} {ctx : km_walk_ctx} {q : Nat}

/-- The first-level table, created if it is missing: there is no second-level table that was not there. -/
theorem root_spec (granted : Granted) (mem : Km) (sub_id : Nat) {root : Bool × Km}
    (done : (if mem.translation_table.isNone then km_walk_miss granted mem sub_id else (true,mem)) = root) :
    root.2.sub_table = mem.sub_table ∧
    (root.1 = true ↔ mem.translation_table.isSome = true ∨ granted none = true) ∧
    (root.1 = true → root.2.translation_table.isSome = true) := by
  subst done
  cases top : mem.translation_table with
  | some table => simp [top]
  | none =>
    have nothing : mem.sub_table = fun _ => none := by
      funext t
      rw [Km.sub_table,top]
      rfl
    rw [nothing,Option.isNone_none,if_pos rfl,km_walk_miss,top]
    by_cases memory : granted none = true
    · simp only [memory]
      exact ⟨rfl,by simp,by simp⟩
    · simp [memory,nothing]

/-- A second-level table, created if it is missing: its entries are empty then. -/
theorem sub_spec (granted : Granted) {mem : Km} (top : mem.translation_table.isSome = true) (t : Nat) {sub : Bool × Km}
    (done : (if (mem.sub_table t).isNone then km_walk_miss granted mem t else (true,mem)) = sub) :
    (∀ r, entry sub.2 r = entry mem r) ∧ sub.2.translation_table.isSome = true ∧
    (sub.1 = true ↔ (mem.sub_table t).isSome = true ∨ granted (some t) = true) ∧
    (sub.1 = true → (sub.2.sub_table t).isSome = true) ∧ ∀ u, u ≠ t → sub.2.sub_table u = mem.sub_table u := by
  subst done
  obtain ⟨table,root⟩ := Option.isSome_iff_exists.mp top
  have at_root : mem.sub_table = table := by
    funext u
    rw [Km.sub_table,root]
    rfl
  cases here : mem.sub_table t with
  | some entries => simp [here,top]
  | none =>
    rw [Option.isNone_none,if_pos rfl,km_walk_miss,root]
    by_cases memory : granted (some t) = true
    · simp only [memory,if_true]
      have created (u : Nat) : Km.sub_table ⟨some (Function.update table t (some fun _ => 0))⟩ u =
          if u = t then some (fun _ => 0) else mem.sub_table u := by
        rw [Km.sub_table,Option.bind_some,Function.update_apply,at_root]
      refine ⟨?_,rfl,by simp,by simp [created],fun u other => by rw [created,if_neg other]⟩
      intro r
      rw [entry,entry,pteAt,pteAt,created]
      split
      · next same => rw [same,here]; rfl
      · rfl
    · simp [memory,top]

/-- A walk for the page `q` keeps every entry, and does not change what can be reached. -/
structure Walked (granted : Granted) (mem : Km) (q : Nat) (result : Bool × Km × km_walk_ctx) : Prop where
  reach : result.1 = true ↔ Reach granted mem q
  stands : result.1 = true → At result.2.1 result.2.2 q
  same : ∀ r, entry result.2.1 r = entry mem r
  grown : ∀ r, Present mem r → Present result.2.1 r
  onward : result.1 = true → ∀ r, Reach granted result.2.1 r ↔ Reach granted mem r

theorem km_walk_to_walked (granted : Granted) (mem : Km) (ctx : km_walk_ctx) (fits : q < 1048576) :
    Walked granted mem q (km_walk_to granted mem ctx (q * 4096)) := by
  have vid := km_get_vid_2 fits
  have index := km_get_vid_1 q
  unfold km_walk_to
  dsimp only
  rw [vid,index]
  generalize step : (if mem.translation_table.isNone then km_walk_miss granted mem _ else (true,mem)) = root
  obtain ⟨tables,top,there⟩ := root_spec granted mem _ step
  have same (r : Nat) : entry root.2 r = entry mem r := by rw [entry,entry,pteAt,pteAt,tables]
  split
  · next failed =>
    have refused : ¬Reach granted mem q := by
      intro reach
      exact absurd (top.mpr reach.1) (by simp [failed])
    exact ⟨by simp [refused],by simp,same,fun r here => by rwa [Present,tables],by simp⟩
  · next passed =>
    have topped : root.1 = true := by simpa using passed
    have first := top.mp topped
    generalize step : (if (root.2.sub_table (q / 1024)).isNone then km_walk_miss granted root.2 _ else (true,root.2)) = sub
    rw [Function.update_of_ne (show (2 : Nat) ≠ 0 by decide),Function.update_self] at step
    obtain ⟨kept,whole,had,present,others⟩ := sub_spec granted (there topped) (q / 1024) step
    rw [tables] at had others
    have entries (r : Nat) : entry sub.2 r = entry mem r := (kept r).trans (same r)
    have grown (r : Nat) (here : Present mem r) : Present sub.2 r := by
      rw [Present] at here ⊢
      by_cases shared : r / 1024 = q / 1024
      · rw [shared] at here ⊢
        exact present (had.mpr (.inl here))
      · rwa [others _ shared]
    split
    · next failed =>
      have refused : ¬Reach granted mem q := by
        intro reach
        exact absurd (had.mpr reach.2) (by simp [failed])
      exact ⟨by simp [refused],by simp,entries,grown,by simp⟩
    · next granted' =>
      have found : sub.1 = true := by simpa using granted'
      refine ⟨⟨fun _ => ⟨first,had.mp found⟩,fun _ => rfl⟩,fun _ => ⟨rfl,?_,rfl,present found⟩,entries,grown,fun _ r => ?_⟩
      · dsimp only
        rw [Function.update_of_ne (by decide),Function.update_self]
      · by_cases shared : r / 1024 = q / 1024
        · have here : Present sub.2 r := by
            rw [Present,shared]
            exact present found
          have before : Present mem r ∨ granted (some (r / 1024)) = true := by
            rw [Present,shared]
            exact had.mp found
          exact ⟨fun _ => ⟨first,before⟩,fun _ => ⟨.inl whole,.inl here⟩⟩
        · have still : Present sub.2 r ↔ Present mem r := by rw [Present,Present,others _ shared]
          rw [Reach,Reach,still]
          exact ⟨fun reach => ⟨first,reach.2⟩,fun reach => ⟨.inl whole,reach.2⟩⟩

/-- A page whose table is there can be reached. -/
theorem reach_present (present : Present mem q) : Reach granted mem q := by
  refine ⟨.inl ?_,.inl present⟩
  cases root : mem.translation_table with
  | some table => rfl
  | none => rw [Present,Km.sub_table,root] at present; simp at present

/-- The page behind the last one is the first. -/
theorem km_pte_next_walked (granted : Granted) (at_q : At mem ctx q) (fits : q < 1048576) :
    Walked granted mem ((q + 1) % 1048576) (km_pte_next granted mem ctx) := by
  have address : add ctx.current_virtual_address PAGE_SIZE = (q + 1) % 1048576 * 4096 := by
    rw [at_q.address,add,modulus,PAGE_SIZE]
    omega
  rw [km_pte_next]
  dsimp only
  rw [address,at_q.entry]
  split
  · next inside =>
    rw [ARCH_KM_LV1_COUNT] at inside
    have table : (q + 1) % 1048576 / 1024 = q / 1024 := by omega
    have here : Present mem ((q + 1) % 1048576) := by
      rw [Present,table]
      exact at_q.present
    refine ⟨by simp [reach_present here],fun _ => ⟨rfl,?_,?_,here⟩,fun _ => rfl,fun _ => id,fun _ _ => Iff.rfl⟩
    · dsimp only
      rw [Function.update_self]
      omega
    · rw [table]
      exact at_q.table
  · exact km_walk_to_walked granted mem _ (Nat.mod_lt _ (by decide))

/-- Only an entry that is empty is written. -/
theorem km_pte_write_entry (at_q : At mem ctx q) (what r : Nat) :
    entry (km_pte_write mem ctx what) r = if r = q ∧ entry mem q = 0 then what else entry mem r := by
  have read : km_pte_read mem ctx = entry mem q := at_q.read
  rw [km_pte_write,read,at_q.write_force]
  by_cases empty : entry mem q = 0
  · rw [if_neg (by simp [empty])]
    obtain ⟨entries,table⟩ := Option.isSome_iff_exists.mp at_q.present
    by_cases here : r = q
    · subst here
      rw [entry,pteAt_setPte_self,if_pos ⟨rfl,empty⟩,pteAt,table]
      rfl
    · rw [entry,pteAt_setPte_other here,if_neg (by simp [here])]
      rfl
  · rw [if_pos empty,if_neg (by simp [empty])]

theorem km_pte_write_at (at_q : At mem ctx q) (what : Nat) : At (km_pte_write mem ctx what) ctx q := by
  rw [km_pte_write,at_q.write_force]
  split
  · exact at_q
  · exact at_q.setPte q what

theorem km_pte_write_reach (at_q : At mem ctx q) (what r : Nat) :
    Reach granted (km_pte_write mem ctx what) r ↔ Reach granted mem r := by
  rw [km_pte_write,at_q.write_force]
  split
  · exact Iff.rfl
  · have top : (setPte mem q what).translation_table.isSome = mem.translation_table.isSome := by
      rw [setPte,Option.isSome_map]
    rw [Reach,Reach,present_setPte,top]

/-! ### The loop -/

/-- The loop has written the empty entries of `n` pages from `q` on, unless the walk has stopped in front of one of
    them or of the page behind them. -/
structure Wrote (granted : Granted) (mem : Km) (q n : Nat) (what : Nat → Nat) (result : Bool × Km) : Prop where
  reach : result.1 = true ↔ ∀ k, 1 ≤ k → k ≤ n → Reach granted mem (behind q k)
  kept : ∀ r, entry mem r ≠ 0 → entry result.2 r = entry mem r
  others : ∀ r, (∀ k < n, r ≠ behind q k) → entry result.2 r = entry mem r
  wrote : result.1 = true → ∀ k < n, entry mem (behind q k) = 0 → entry result.2 (behind q k) = what k

theorem behind_step (q k : Nat) : behind ((q + 1) % 1048576) k = behind q (k + 1) := by
  unfold behind
  omega

theorem behind_zero (fits : q < 1048576) : behind q 0 = q := Nat.mod_eq_of_lt fits

theorem behind_apart {k : Nat} (few : k < 524288) : behind q (k + 1) ≠ q := by
  unfold behind
  omega

theorem add_add (a b c : Nat) : add (add a b) c = add a (b + c) := by
  rw [add,add,add,Nat.mod_add_mod,Nat.add_assoc]

/-- A round writes `what` for the page `q`, if its entry is empty, and the walk goes on to the next page. -/
structure Stepped (granted : Granted) (mem : Km) (q what : Nat) (next : Bool × Km × km_walk_ctx) : Prop where
  reach : next.1 = true ↔ Reach granted mem (behind q 1)
  stands : next.1 = true → At next.2.1 next.2.2 (behind q 1)
  entries : ∀ r, entry next.2.1 r = if r = q ∧ entry mem q = 0 then what else entry mem r
  onward : next.1 = true → ∀ r, Reach granted next.2.1 r ↔ Reach granted mem r

theorem write_and_next (granted : Granted) (at_q : At mem ctx q) (fits : q < 1048576) (what : Nat)
    {next : Bool × Km × km_walk_ctx} (done : km_pte_write_and_next granted mem ctx what = next) : Stepped granted mem q what next := by
  have walked := km_pte_next_walked granted (km_pte_write_at at_q what) fits
  rw [km_pte_write_and_next] at done
  rw [done] at walked
  refine ⟨walked.reach.trans (km_pte_write_reach at_q what _),walked.stands,?_,?_⟩
  · intro r
    rw [walked.same,km_pte_write_entry at_q]
  · intro found r
    rw [walked.onward found,km_pte_write_reach at_q]

theorem Stepped.elsewhere {what : Nat} {next : Bool × Km × km_walk_ctx} (stepped : Stepped granted mem q what next) {r : Nat}
    (other : r ≠ q) : entry next.2.1 r = entry mem r := by
  rw [stepped.entries,if_neg (by simp [other])]

theorem Stepped.taken {what : Nat} {next : Bool × Km × km_walk_ctx} (stepped : Stepped granted mem q what next) {r : Nat}
    (full : entry mem r ≠ 0) : entry next.2.1 r = entry mem r := by
  rw [stepped.entries,if_neg]
  rintro ⟨rfl,empty⟩
  exact full empty

/-- The walk fails behind the page. -/
theorem Stepped.stopped {what : Nat → Nat} {next : Bool × Km × km_walk_ctx} (stepped : Stepped granted mem q (what 0) next)
    (fits : q < 1048576) (failed : next.1 = false) (n : Nat) : Wrote granted mem q (n + 1) what (false,next.2.1) := by
  refine ⟨⟨by simp,fun all => ?_⟩,fun r full => stepped.taken full,fun r apart => stepped.elsewhere ?_,by simp⟩
  · exact absurd (stepped.reach.mpr (all 1 le_rfl (by omega))) (by simp [failed])
  · rw [← behind_zero fits]
    exact apart 0 (by omega)

/-- The rest of the loop begins at the next page. -/
theorem Stepped.cons {what : Nat → Nat} {next : Bool × Km × km_walk_ctx} (stepped : Stepped granted mem q (what 0) next)
    (fits : q < 1048576) (passed : next.1 = true) {n : Nat} (few : n < 524288) {result : Bool × Km}
    (rest : Wrote granted next.2.1 (behind q 1) n (fun k => what (k + 1)) result) : Wrote granted mem q (n + 1) what result := by
  have onto (k : Nat) : behind (behind q 1) k = behind q (k + 1) := behind_step q k
  refine ⟨rest.reach.trans ⟨fun later k low high => ?_,fun all k low high => ?_⟩,fun r full => ?_,fun r apart => ?_,
    fun done k less empty => ?_⟩
  · cases k with
    | zero => omega
    | succ k =>
      cases k with
      | zero => exact stepped.reach.mp passed
      | succ k =>
        have reached := (stepped.onward passed _).mp (later (k + 1) (by omega) (by omega))
        rwa [onto] at reached
  · rw [stepped.onward passed,onto]
    exact all (k + 1) (by omega) (by omega)
  · rw [rest.kept r (by rwa [stepped.taken full]),stepped.taken full]
  · rw [rest.others r fun k less => by rw [onto]; exact apart (k + 1) (by omega)]
    refine stepped.elsewhere ?_
    rw [← behind_zero fits]
    exact apart 0 (by omega)
  · cases k with
    | zero =>
      rw [behind_zero fits] at empty ⊢
      rw [rest.others q fun k less => by rw [onto]; exact (behind_apart (by omega)).symm,stepped.entries,if_pos ⟨rfl,empty⟩]
    | succ k =>
      have apart : behind q (k + 1) ≠ q := behind_apart (by omega)
      have written := rest.wrote done k (by omega) (by rw [onto,stepped.elsewhere apart,empty])
      rwa [onto] at written

theorem map_loop_wrote (granted : Granted) (prot : Nat) (n : Nat) {i : Int} {physical_address : Nat} (at_q : At mem ctx q)
    (fits : q < 1048576) (word : physical_address < modulus) (few : n ≤ 524288) (low : i ≤ n * 4096) (high : n = 0 ∨ (n : Int) * 4096 < i + 4096) :
    Wrote granted mem q n (fun k => add physical_address (k * 4096) ||| km_arch_get_flags prot ||| PAGE_FLAG_FROM_OTHER)
      (map_loop granted prot i physical_address mem ctx) := by
  induction n generalizing mem ctx q i physical_address with
  | zero =>
    rw [map_loop,dif_neg (by omega)]
    exact ⟨by simp; omega,fun _ _ => rfl,fun _ _ => rfl,fun _ k less => by omega⟩
  | succ n ih =>
    rw [map_loop,dif_pos (by omega)]
    dsimp only
    have here : add physical_address (0 * 4096) = physical_address := by rw [Nat.zero_mul,add_exact (by omega),Nat.add_zero]
    generalize step : km_pte_write_and_next granted mem ctx _ = next
    have stepped := write_and_next granted at_q fits _ step
    rw [← here] at stepped
    split
    · next failed => exact stepped.stopped fits failed n
    · next found =>
      have passed : next.1 = true := by simpa using found
      refine stepped.cons fits passed (by omega) ?_
      have rest := @ih next.2.1 next.2.2 (behind q 1) (i - PAGE_SIZE) (add physical_address PAGE_SIZE) (stepped.stands passed)
        (Nat.mod_lt _ (by decide)) (Nat.mod_lt _ (by decide)) (by omega) (by rw [PAGE_SIZE]; omega) (.inr (by rw [PAGE_SIZE]; omega))
      have onward (k : Nat) : add (add physical_address PAGE_SIZE) (k * 4096) = add physical_address ((k + 1) * 4096) := by
        rw [add_add,PAGE_SIZE,Nat.succ_mul,Nat.add_comm (k * 4096)]
      simpa only [onward] using rest

/-- The bytes that are left go down page by page, or there are none to begin with. -/
theorem rounds_spec {size : Nat} (word : size < modulus) :
    rounds size ≤ 524288 ∧ toInt size ≤ rounds size * 4096 ∧
      (rounds size = 0 ∨ (rounds size : Int) * 4096 < toInt size + 4096) := by
  unfold rounds toInt
  unfold modulus at word
  split <;> omega

/-- The frame address of the page `k`. -/
theorem frame_address (physical_pfn k : Nat) :
    add ((physical_pfn <<< 12) % modulus) (k * 4096) = (physical_pfn + k) * 4096 % modulus := by
  rw [add,Nat.mod_add_mod,Nat.shiftLeft_eq,Nat.add_mul]

/-- What a call does to the entries. -/
theorem map_range_wrote (granted : Granted) (mem : Km) (ctx : km_walk_ctx) (fits : q < 1048576) {size : Nat} (word : size < modulus)
    (physical_pfn prot : Nat) {result : Bool × Km} (done : km_page_map_range granted mem ctx (q * 4096) size physical_pfn prot = result) :
    (result.1 = true ↔ ¬Blocked granted mem q size) ∧ (∀ r, entry mem r ≠ 0 → entry result.2 r = entry mem r) ∧
    (∀ r, (∀ k < rounds size, r ≠ behind q k) → entry result.2 r = entry mem r) ∧
    (result.1 = true → ∀ k < rounds size, entry mem (behind q k) = 0 → entry result.2 (behind q k) =
      (physical_pfn + k) * 4096 % modulus ||| km_arch_get_flags prot ||| PAGE_FLAG_FROM_OTHER) := by
  subst done
  have walked := km_walk_to_walked granted mem ctx fits
  rw [km_page_map_range]
  generalize km_walk_to granted mem ctx (q * 4096) = start at walked
  split
  · next failed =>
    refine ⟨⟨by simp,fun free => ?_⟩,fun r _ => walked.same r,fun r _ => walked.same r,by simp⟩
    refine absurd ⟨0,Nat.zero_le _,fun reach => ?_⟩ free
    rw [behind_zero fits] at reach
    simpa [failed] using walked.reach.mpr reach
  · next found =>
    have passed : start.1 = true := by simpa using found
    obtain ⟨few,low,high⟩ := rounds_spec word
    have looped := map_loop_wrote granted prot (rounds size) (walked.stands passed) fits
      (Nat.mod_lt (physical_pfn <<< 12) (by decide : 0 < modulus)) few low high
    refine ⟨looped.reach.trans ⟨?_,fun free k _ high => ?_⟩,fun r taken => ?_,fun r apart => ?_,fun all k less empty => ?_⟩
    · rintro all ⟨k,high,stuck⟩
      cases k with
      | zero =>
        rw [behind_zero fits] at stuck
        exact stuck (walked.reach.mp passed)
      | succ k => exact stuck ((walked.onward passed _).mp (all (k + 1) (by omega) high))
    · rw [walked.onward passed]
      by_contra stuck
      exact free ⟨k,high,stuck⟩
    · rw [looped.kept r (by rwa [walked.same]),walked.same]
    · rw [looped.others r apart,walked.same]
    · rw [looped.wrote all k less (by rw [walked.same,empty]),frame_address]

end

/-! ### The entries that are wanted -/

theorem flags_small (prot : Nat) : km_arch_get_flags prot ||| PAGE_FLAG_FROM_OTHER < 2 ^ 10 := by
  have small : km_arch_get_flags prot < 2 ^ 10 := by
    unfold km_arch_get_flags
    split
    · decide
    · split
      · decide
      · split <;> split <;> decide
  exact Nat.or_lt_two_pow small (by decide)

theorem wanted_positive (frame prot : Nat) : wanted frame prot ≠ 0 := by
  have shared : PAGE_FLAG_FROM_OTHER ≤ wanted frame prot := Nat.right_le_or
  unfold PAGE_FLAG_FROM_OTHER at shared
  omega

/-- The entry that is written is the one that is wanted if the frame has an address. -/
theorem written_iff (frame prot : Nat) :
    frame * 4096 % modulus ||| km_arch_get_flags prot ||| PAGE_FLAG_FROM_OTHER = wanted frame prot ↔ frame < 1048576 := by
  constructor
  · intro same
    by_contra large
    have low : frame * 4096 % modulus ||| km_arch_get_flags prot ||| PAGE_FLAG_FROM_OTHER < 2 ^ 32 := by
      rw [Nat.or_assoc]
      exact Nat.or_lt_two_pow (Nat.mod_lt _ (by decide)) ((flags_small prot).trans (by decide))
    have high : frame * 4096 ≤ wanted frame prot := by
      rw [wanted,Nat.or_assoc]
      exact Nat.left_le_or
    omega
  · intro small
    rw [wanted,Nat.mod_eq_of_lt (by unfold modulus; omega)]

/-- The loop goes through the pages of the range if the size is positive as a signed number. -/
theorem rounds_positive {size k : Nat} (positive : size < 2147483648) : k < rounds size ↔ k * 4096 < size := by
  rw [rounds,if_pos positive]
  omega

theorem rounds_negative {size : Nat} (negative : ¬size < 2147483648) : rounds size = 0 := if_neg negative

/-- A call keeps its promise if and only if it fails for want of a table, or each entry of the range is the wanted
    one already or is empty, and will be written: the size must be positive as a signed number then, and the frame
    must have an address. -/
theorem map_range_right_iff (granted : Granted) (mem : Km) (ctx : km_walk_ctx) {q size : Nat} (fits : q < 1048576)
    (word : size < modulus) (physical_pfn prot : Nat) :
    Mapped mem q size physical_pfn prot (km_page_map_range granted mem ctx (q * 4096) size physical_pfn prot) ↔
      Blocked granted mem q size ∨ ∀ k, k * 4096 < size → Fits mem q size physical_pfn prot k := by
  generalize done : km_page_map_range granted mem ctx (q * 4096) size physical_pfn prot = result
  obtain ⟨returned,kept,others,wrote⟩ := map_range_wrote granted mem ctx fits word physical_pfn prot done
  constructor
  · intro mapped
    rw [or_iff_not_imp_left]
    intro free k inside
    have passed := returned.mpr free
    have maps := mapped.maps passed k inside
    by_cases taken : entry mem (behind q k) ≠ 0
    · exact .inl ((kept _ taken).symm.trans maps)
    · have empty : entry mem (behind q k) = 0 := not_not.mp taken
      by_cases positive : size < 2147483648
      · rw [wrote passed k ((rounds_positive positive).mpr inside) empty,written_iff] at maps
        exact .inr ⟨positive,empty,maps⟩
      · rw [others _ (by rw [rounds_negative positive]; simp),empty] at maps
        exact absurd maps.symm (wanted_positive _ _)
  · intro condition
    refine ⟨fun passed k inside => ?_,fun _ r apart => others r fun k less => apart k ?_,fun _ r valid => kept r ?_⟩
    · rcases condition.resolve_left (returned.mp passed) k inside with already | ⟨positive,empty,frame⟩
      · rw [kept _ (by rw [already]; exact wanted_positive _ _),already]
      · rw [wrote passed k ((rounds_positive positive).mpr inside) empty,written_iff]
        exact frame
    · by_cases positive : size < 2147483648
      · exact (rounds_positive positive).mp less
      · rw [rounds_negative positive] at less
        omega
    · rintro empty
      rw [empty] at valid
      exact absurd valid (by decide)

/-- One table, whose first entry maps the frame 5. -/
def occupied : Km := ⟨some fun _ => some fun i => if i = 0 then 0x5007 else 0⟩

/-- What is on the stack. -/
def blank : km_walk_ctx := ⟨fun _ => 0,0,0⟩

/-- Frame 1 is mapped over frame 5: the call returns true, and frame 5 is still mapped. -/
theorem occupied_kept : ¬Mapped occupied 0 4096 1 1 (km_page_map_range (fun _ => true) occupied blank 0 4096 1 1) := by
  intro mapped
  obtain ⟨returned,kept,_⟩ := @map_range_wrote 0 (fun _ => true) occupied blank (by decide) 4096 (by decide) 1 1 _ rfl
  have free : ¬Blocked (fun _ => true) occupied 0 4096 := by
    rintro ⟨k,_,stuck⟩
    exact stuck ⟨.inl rfl,.inr rfl⟩
  have maps := mapped.maps (returned.mpr free) 0 (by decide)
  have still := kept (behind 0 0) (by decide)
  exact absurd (still.symm.trans maps) (by decide)

/-- Two pages behind the one that is occupied are mapped, and 2^31 bytes are not. -/
theorem map_range_right_free :
    Mapped occupied 1 8192 7 1 (km_page_map_range (fun _ => true) occupied blank (1 * 4096) 8192 7 1) ∧
    ¬Mapped occupied 1 2147483648 7 1 (km_page_map_range (fun _ => true) occupied blank (1 * 4096) 2147483648 7 1) := by
  constructor
  · refine (map_range_right_iff (fun _ => true) occupied blank (by decide) (by decide) 7 1).mpr (.inr fun k inside => ?_)
    have small : k < 2 := by omega
    exact .inr ⟨by decide,by interval_cases k <;> rfl,by omega⟩
  · rw [map_range_right_iff (fun _ => true) occupied blank (by decide) (by decide) 7 1]
    rintro (⟨k,_,stuck⟩ | all)
    · exact stuck ⟨.inl rfl,.inr rfl⟩
    · rcases all 0 (by decide) with already | ⟨positive,_⟩
      · exact absurd already (by decide)
      · exact absurd positive (by decide)

end GridOS.PageMap
