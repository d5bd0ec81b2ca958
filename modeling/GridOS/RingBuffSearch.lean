import GridOS.RingBuffRuns

/-!
What the search of `ring_buff_alloc` can miss, and what it does with a size that wraps. The loop
looks at every package from the one to be written on, up to the one to be read; the test before
it gives up when both are one package that is in use, be it read or not.
-/
namespace GridOS.RingBuff
open GridOS.Words GridOS.Circle

/-- The loop of `ring_buff_alloc` takes the package `x` for the aligned length. -/
def Fits (m : Memory) (length x : Nat) : Prop :=
  load m x .valid_flag = 0 ∧
    (load m x .package_size = length ∨ ¬load m x .package_size < add length sizeofPackage)

/-- The packages that the loop looks at. -/
def Ahead (m : Memory) (x : Nat) : Prop :=
  Upto (load m · .next_head) (cache_write_pos m) (cache_read_pos m) x

/-- The packages from the one to be read on, up to the one to be written. When they are one, these
    are all packages if it is still to be read, and none otherwise. -/
def Unread (m : Memory) (x : Nat) : Prop :=
  (cache_read_pos m ≠ cache_write_pos m ∨ load m (cache_read_pos m) .valid_flag = VALID_FLAG) ∧
    Upto (load m · .next_head) (cache_read_pos m) (cache_write_pos m) x

section Shapes
variable {m m' : Memory} {length request : Nat} {l : List Nat}

/-! ### The search -/

theorem search_round_missing {fuel curr : Nat} {small : Bool}
    (missing : search m request (fuel + 1) curr small = some .missing) :
    ¬Fits m request curr ∧ (load m curr .next_head ≠ cache_read_pos m →
      ∃ small', search m request fuel (load m curr .next_head) small' = some .missing) := by
  rw [search] at missing
  by_cases used : load m curr .valid_flag ≠ 0
  · refine ⟨fun fits => used fits.1,fun onward => ⟨small,?_⟩⟩
    simpa only [if_pos used,if_pos onward] using missing
  rw [if_neg used] at missing
  by_cases exact : load m curr .package_size = request
  · rw [if_pos exact] at missing
    cases missing
  rw [if_neg exact] at missing
  by_cases large : ¬load m curr .package_size < add request sizeofPackage
  · rw [if_pos large] at missing
    cases missing
  refine ⟨fun fits => fits.2.elim exact large,fun onward => ⟨true,?_⟩⟩
  simpa only [if_neg large,if_pos onward] using missing

theorem search_missing {r : List Nat} : ∀ {fuel curr : Nat} {small : Bool},
    List.IsChain (fun a b => load m a .next_head = b) (curr :: (r ++ [cache_read_pos m])) → cache_read_pos m ∉ r →
    search m request fuel curr small = some .missing → ∀ x ∈ curr :: r, ¬Fits m request x := by
  induction r with
  | nil =>
    intro fuel curr small _ _ missing x member
    obtain rfl := List.mem_singleton.mp member
    cases fuel with
    | zero => cases missing
    | succ fuel => exact (search_round_missing missing).1
  | cons next r ih =>
    intro fuel curr small way unread missing x member
    obtain ⟨steps,way⟩ := List.isChain_cons_cons.mp way
    obtain ⟨other,unread⟩ := not_or.mp (mt List.mem_cons.mpr unread)
    cases fuel with
    | zero => cases missing
    | succ fuel =>
      obtain ⟨unfit,onward⟩ := search_round_missing missing
      obtain ⟨small',missing⟩ := onward (by rw [steps]; exact Ne.symm other)
      rcases List.mem_cons.mp member with rfl | behind
      · exact unfit
      · exact ih way unread (steps ▸ missing) x behind

/-- The loop ends, and it misses no package ahead that fits. -/
theorem search_ahead (request : Nat) (tiled : Tiled m length l) : ∃ result,
    search m request modulus (cache_write_pos m) false = some result ∧
    (result = .missing ↔ ∀ x, Ahead m x → ¬Fits m request x) ∧
    (∀ {x small}, result = .fits x small → x ∈ l ∧ load m x .valid_flag = 0 ∧ load m x .package_size = request) ∧
    (∀ {x small}, result = .found x small →
      x ∈ l ∧ load m x .valid_flag = 0 ∧ ¬load m x .package_size < add request sizeofPackage) := by
  obtain ⟨s,r,rotated,at_read,at_write⟩ := tiled.split
  obtain ⟨t,rfl,way,unread,enough⟩ := tiled.ahead rotated at_read at_write
  obtain ⟨result,done,searched⟩ : ∃ result, search m request modulus (cache_write_pos m) false = some result ∧
      Searched m request (cache_write_pos m :: t) false result := search_walks way unread enough
  have ahead : ∀ x, Ahead m x ↔ x ∈ cache_write_pos m :: t := upto_iff way unread
  have inside : ∀ {a b : List Nat} {x : Nat}, cache_write_pos m :: t = a ++ x :: b → Ahead m x ∧ x ∈ l := by
    intro a b x split
    have member : x ∈ cache_write_pos m :: t := by simp [split]
    exact ⟨(ahead x).mpr member,rotated.mem_iff.mpr (List.mem_append_right s member)⟩
  refine ⟨result,done,?_,?_,?_⟩
  · constructor
    · rintro rfl x at_x
      exact search_missing way unread done x ((ahead x).mp at_x)
    · intro none
      cases searched with
      | missing => rfl
      | fits split free size => exact absurd ⟨free,.inl size⟩ (none _ (inside split).1)
      | found split free room => exact absurd ⟨free,.inr room⟩ (none _ (inside split).1)
  · rintro x small rfl
    cases searched with
    | fits split free size => exact ⟨(inside split).2,free,size⟩
  · rintro x small rfl
    cases searched with
    | found split free room => exact ⟨(inside split).2,free,room⟩

/-- An allocation gives nothing when the ring counts as full or no package ahead fits. -/
theorem alloc_none (request : Nat) (tiled : Tiled m length l) : ∃ result, ring_buff_alloc m request = some result ∧
    (result.1 = none → result.2 = m) ∧
    (result.1 = none ↔ cache_is_full m = true ∨ ∀ x, Ahead m x → ¬Fits m (ALIGN request sizeofLong) x) := by
  obtain ⟨result,done,missing,_,_⟩ := search_ahead (ALIGN request sizeofLong) tiled
  rw [ring_buff_alloc]
  by_cases full : cache_is_full m = true
  · simp only [full,if_true]
    exact ⟨_,rfl,fun _ => rfl,iff_of_true rfl (.inl trivial)⟩
  simp only [full,done,false_or,Bool.false_eq_true,if_false]
  rw [← missing]
  cases result with
  | missing => exact ⟨_,rfl,fun _ => rfl,iff_of_true rfl rfl⟩
  | fits curr small =>
    refine ⟨_,rfl,?_,by simp⟩
    intro nothing
    cases nothing
  | found curr small =>
    refine ⟨_,rfl,?_,by simp⟩
    intro nothing
    cases nothing

/-! ### What is missed -/

/-- Every package is ahead, or behind the one to be read and before the one to be written. -/
theorem Tiled.ahead_or_unread {x : Nat} (tiled : Tiled m length l) (member : x ∈ l) : Ahead m x ∨
    cache_read_pos m ≠ cache_write_pos m ∧ Upto (load m · .next_head) (cache_read_pos m) (cache_write_pos m) x := by
  obtain ⟨s,r,rotated,at_read,at_write⟩ := tiled.split
  have distinct : (s ++ r).Nodup := rotated.nodup_iff.mp tiled.distinct
  obtain ⟨t,rfl,way,unread,_⟩ := tiled.ahead rotated at_read at_write
  rcases List.mem_append.mp (rotated.mem_iff.mp member) with behind | before
  · cases s with
    | nil => cases behind
    | cons first s =>
      obtain rfl : first = cache_read_pos m := Option.some.inj at_read
      have apart : cache_write_pos m ∉ cache_read_pos m :: s :=
        fun found => List.disjoint_of_nodup_append distinct found List.mem_cons_self
      have turned := (tiled.circle.isRotated rotated).rotate
      have walk : List.IsChain (fun a b => load m a .next_head = b) (cache_read_pos m :: (s ++ [cache_write_pos m])) :=
        Circled.way (s := cache_write_pos m :: t) (r := cache_read_pos m :: s) turned (List.cons_ne_nil _ _)
      refine .inr ⟨fun same => apart (same ▸ List.mem_cons_self),?_⟩
      exact (upto_iff walk (fun found => apart (List.mem_cons_of_mem _ found)) x).mpr behind
  · exact .inl ((upto_iff way unread x).mpr before)

/-- Both positions are at a package that was read and not freed, and some free package fits. -/
def Blocked (m : Memory) (l : List Nat) (length : Nat) : Prop :=
  cache_read_pos m = cache_write_pos m ∧ load m (cache_write_pos m) .valid_flag ≠ INVALID_FLAG ∧
    load m (cache_write_pos m) .valid_flag ≠ VALID_FLAG ∧ ∃ x ∈ l, Fits m length x

/-- An allocation that gives nothing has missed no package outside the unread ones, but when it is blocked. -/
theorem alloc_complete_iff (tiled : Tiled m length l) (room : ALIGN request sizeofLong + sizeofPackage < modulus) :
    (∃ result, ring_buff_alloc m request = some result ∧ (result.1 = none →
      ∀ x ∈ l, load m x .valid_flag = INVALID_FLAG → ¬Unread m x →
        load m x .package_size ≠ ALIGN request sizeofLong ∧
        ¬ALIGN request sizeofLong + sizeofPackage ≤ load m x .package_size)) ↔
    ¬Blocked m l (ALIGN request sizeofLong) := by
  obtain ⟨result,done,_,none_iff⟩ := alloc_none request tiled
  have unfit : ∀ x, load m x .valid_flag = INVALID_FLAG → (¬Fits m (ALIGN request sizeofLong) x ↔
      load m x .package_size ≠ ALIGN request sizeofLong ∧
      ¬ALIGN request sizeofLong + sizeofPackage ≤ load m x .package_size) := by
    intro x free
    rw [Fits,add_exact room,Nat.not_lt,not_and,not_or]
    exact ⟨fun fails => fails free,fun sizes _ => sizes⟩
  constructor
  · rintro ⟨result',done',complete⟩ ⟨same,used,read,x,member,fits⟩
    obtain rfl := Option.some.inj (done.symm.trans done')
    have full : cache_is_full m = true := by
      rw [cache_is_full,decide_eq_true_iff]
      exact ⟨same.symm,used⟩
    have aside : ¬Unread m x := fun unread => unread.1.elim (fun differ => differ same) (fun valid => read (same ▸ valid))
    exact (unfit x fits.1).mpr (complete (none_iff.mpr (.inl full)) x member fits.1 aside) fits
  · intro free
    refine ⟨result,done,fun none x member vacant aside => (unfit x vacant).mp ?_⟩
    intro fits
    rcases none_iff.mp none with full | fails
    · rw [cache_is_full,decide_eq_true_iff] at full
      obtain ⟨same,used⟩ := full
      have read : load m (cache_write_pos m) .valid_flag ≠ VALID_FLAG := by
        intro valid
        refine aside ⟨.inr (same ▸ valid),?_⟩
        rcases tiled.ahead_or_unread member with ahead | ⟨differ,_⟩
        · rw [Ahead,same] at ahead
          rwa [same]
        · exact absurd same.symm differ
      exact free ⟨same.symm,used,read,x,member,fits⟩
    · rcases tiled.ahead_or_unread member with ahead | ⟨differ,walked⟩
      · exact fails x ahead fits
      · exact aside ⟨.inl differ,walked⟩

end Shapes

/-- The first of two packages was read, and the second one is free; there is no room for a third one. -/
theorem read_package_blocks : ∃ s l, TameRun fresh s ∧ Tiled s.memory 128 l ∧
    ALIGN 8 sizeofLong + sizeofPackage < modulus ∧ ring_buff_alloc s.memory 8 = some (none,s.memory) ∧
    ∃ x ∈ l, load s.memory x .valid_flag = INVALID_FLAG ∧ ¬Unread s.memory x ∧
      ALIGN 8 sizeofLong + sizeofPackage ≤ load s.memory x .package_size := by
  have tame : ∀ {s : State} {act : Act} {s' : State}, TameRun fresh s → Tame s act → step s act = some s' →
      TameRun fresh s' := fun run ok done => .act run ok done
  have r₁ := tame .start (show Tame fresh (.alloc 8) by decide) rfl
  have r₂ := tame r₁ (show Tame _ .read from trivial) rfl
  have r₃ := tame r₂ (show Tame _ (.alloc 64) by decide) rfl
  have r₄ := tame r₃ (show Tame _ .read from trivial) rfl
  have r₅ := tame r₄ (show Tame _ (.free 64) by decide) rfl
  obtain ⟨l,inv⟩ := tame_run_inv fresh_started r₅
  have second : 44 ∈ l := inv.tiled.circle.next_mem inv.tiled.read
  refine ⟨_,l,r₅,inv.tiled,by decide,rfl,44,second,rfl,?_,by decide⟩
  exact fun unread => unread.1.elim (fun differ => differ rfl) (fun valid => absurd valid (by decide))

/-- The packages when two were allocated and read, and the first one was freed. -/
theorem two_packages : ∃ s l, TameRun fresh s ∧ s.live = [64] ∧ Tiled s.memory 128 l ∧
    load s.memory (cache_write_pos s.memory) .valid_flag = INVALID_FLAG := by
  have tame : ∀ {s : State} {act : Act} {s' : State}, TameRun fresh s → Tame s act → step s act = some s' →
      TameRun fresh s' := fun run ok done => .act run ok done
  have r₁ := tame .start (show Tame fresh (.alloc 8) by decide) rfl
  have r₂ := tame r₁ (show Tame _ (.alloc 16) by decide) rfl
  have r₃ := tame r₂ (show Tame _ .read from trivial) rfl
  have r₄ := tame r₃ (show Tame _ .read from trivial) rfl
  have r₅ := tame r₄ (show Tame _ (.free 36) by decide) rfl
  obtain ⟨l,inv⟩ := tame_run_inv fresh_started r₅
  exact ⟨_,l,r₅,rfl,inv.tiled,rfl⟩

/-- A request of 8 bytes between two packages. -/
theorem alloc_complete_iff_fresh : ∃ (s : State) (l : List Nat), TameRun fresh s ∧ s.live = [64] ∧
    ∃ result, ring_buff_alloc s.memory 8 = some result ∧ (result.1 = none →
      ∀ x ∈ l, load s.memory x .valid_flag = INVALID_FLAG → ¬Unread s.memory x →
      load s.memory x .package_size ≠ ALIGN 8 sizeofLong ∧
      ¬ALIGN 8 sizeofLong + sizeofPackage ≤ load s.memory x .package_size) := by
  obtain ⟨s,l,run,live,tiled,free⟩ := two_packages
  exact ⟨s,l,run,live,(alloc_complete_iff tiled (by decide)).mpr (fun blocked => blocked.2.1 free)⟩

section Sizes
variable {m m' : Memory} {length request : Nat} {l : List Nat}

/-! ### Sizes that wrap -/

/-- Nothing has changed, or the body of a package is handed out that has the size that was asked for. -/
def SizeSafe (m : Memory) (length request : Nat) : Option Nat × Memory → Prop
  | (none,m') => m' = m
  | (some body,m') => body + request ≤ length ∧
      ∃ l', Tiled m' length l' ∧ ∃ x ∈ l', body = x + sizeofPackage ∧ request ≤ load m' x .package_size

theorem ALIGN_long (request : Nat) : ALIGN request sizeofLong = add request 3 / 4 * 4 :=
  and_mask (k := 2) (by decide) (Nat.mod_lt _ (by decide))

theorem ALIGN_exact (room : request + (sizeofPackage + sizeofLong) ≤ modulus) :
    request ≤ ALIGN request sizeofLong ∧ ALIGN request sizeofLong + sizeofPackage < modulus := by
  rw [ALIGN_long,add]
  simp only [sizeofPackage,sizeofLong,modulus] at *
  omega

theorem Taken.size_safe {x : Nat} {w : List Nat} (taken : Taken m m' length l x w)
    (large : request ≤ load m' x .package_size) (small : Bool) : SizeSafe m length request
      (some (load (move_positions m' x small) x .package_offset),move_positions m' x small) := by
  have member := mem_replace (w := w) taken.member
  have tiled := taken.moved small
  have same := (move_positions_words taken.tiled member small).1 x member .package_size
  have inside := tiled.within member
  rw [taken.body]
  refine ⟨by omega,_,tiled,x,member,rfl,?_⟩
  rw [same]
  exact large

theorem alloc_size_safe (tiled : Tiled m length l) (room : request + (sizeofPackage + sizeofLong) ≤ modulus) :
    ∃ result, ring_buff_alloc m request = some result ∧ SizeSafe m length request result := by
  obtain ⟨aligned,words⟩ := ALIGN_exact room
  obtain ⟨result,done,_,fits,found⟩ := search_ahead (ALIGN request sizeofLong) tiled
  rw [ring_buff_alloc]
  by_cases full : cache_is_full m = true
  · simp only [full,if_true]
    exact ⟨_,rfl,rfl⟩
  simp only [full,done,Bool.false_eq_true,if_false]
  cases result with
  | missing => exact ⟨_,rfl,rfl⟩
  | fits x small =>
    obtain ⟨member,free,size⟩ := fits rfl
    have kept : load (store m x .valid_flag VALID_FLAG) x .package_size = load m x .package_size := by
      rw [load_store tiled.spaced member member]
      simp
    exact ⟨_,rfl,(fits_taken tiled member free).size_safe (by rw [kept,size]; exact aligned) small⟩
  | found x small =>
    obtain ⟨member,free,large⟩ := found rfl
    rw [add_exact words,Nat.not_lt] at large
    have sliced := (slice_heads_sliced tiled member large rfl).size x member
    rw [if_pos rfl] at sliced
    exact ⟨_,rfl,(found_taken tiled member free large).size_safe (by rw [sliced]; exact aligned) small⟩

/-- A size is safe exactly when it leaves room for a header below the end of the words, or when nothing is taken for it. -/
theorem alloc_safe_iff (tiled : Tiled m length l) :
    (∃ result, ring_buff_alloc m request = some result ∧ SizeSafe m length request result) ↔
    request + (sizeofPackage + sizeofLong) ≤ modulus ∨ cache_is_full m = true ∨
      ∀ x, Ahead m x → ¬Fits m (ALIGN request sizeofLong) x := by
  obtain ⟨result,done,unchanged,none_iff⟩ := alloc_none request tiled
  constructor
  · rintro ⟨result',done',safe⟩
    obtain rfl := Option.some.inj (done.symm.trans done')
    obtain ⟨body,m'⟩ := result
    cases body with
    | none => exact .inr (none_iff.mp rfl)
    | some body =>
      obtain ⟨inside,l',tiled',x,member,rfl,_⟩ := safe
      have low := tiled'.low member
      have word := tiled'.word
      have sizes : sizeofLong ≤ sizeofCache := by decide
      exact .inl (by omega)
  · rintro (room | refused)
    · exact alloc_size_safe tiled room
    · refine ⟨result,done,?_⟩
      obtain ⟨body,m'⟩ := result
      obtain rfl : body = none := none_iff.mpr refused
      exact unchanged rfl

theorem alloc_safe_iff_fresh : ∃ s, TameRun fresh s ∧ s.live = [64] ∧
    ∃ result, ring_buff_alloc s.memory 8 = some result ∧ SizeSafe s.memory 128 8 result := by
  obtain ⟨s,l,run,live,tiled,_⟩ := two_packages
  exact ⟨s,run,live,(alloc_safe_iff tiled).mpr (.inl (by decide))⟩

/-- The aligned length of this request is 0. -/
theorem wrapped_length_taken : ∃ l result, Tiled fresh.memory 128 l ∧
    ring_buff_alloc fresh.memory (modulus - 1) = some result ∧ result.1 = some 36 ∧
    ¬SizeSafe fresh.memory 128 (modulus - 1) result := by
  have tiled := (started_inv fresh_started).tiled
  obtain ⟨result,done,body⟩ : ∃ result, ring_buff_alloc fresh.memory (modulus - 1) = some result ∧
    result.1 = some 36 := ⟨_,rfl,rfl⟩
  refine ⟨_,result,tiled,done,body,?_⟩
  obtain ⟨_,m'⟩ := result
  subst body
  intro safe
  exact absurd safe.1 (by decide)

end Sizes

end GridOS.RingBuff
