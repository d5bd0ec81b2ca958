import GridOS.RingBuffRuns

/-!
The order of the reads. From the read position on, the circle of packages has a part that holds
those which are allocated and not read, in the order of their allocation, and behind it, from the
write position on, a part that holds none.
-/
namespace GridOS.RingBuff
open GridOS.Words GridOS.Circle

/-- Packages are freed only when they have been read. -/
def Consumed (s : State) : Act → Prop
  | .free buff => buff ∈ s.held
  | _ => True

instance (s : State) (act : Act) : Decidable (Consumed s act) :=
  match act with
  | .alloc _ => inferInstanceAs (Decidable True)
  | .read => inferInstanceAs (Decidable True)
  | .free _ => inferInstanceAs (Decidable (_ ∈ _))

inductive FifoRun (start : State) : State → Prop
  | start : FifoRun start start
  | act {s s' : State} {act : Act} (run : FifoRun start s) (tame : Tame s act) (consumed : Consumed s act)
      (done : step s act = some s') : FifoRun start s'

/-- The packages were read in the order of their allocation, and a read finds none exactly when all
    have been read. -/
structure InOrder (s : State) : Prop where
  order : s.reads <+: s.allocated
  empty : ∃ result, ring_cache_read_package s.memory = some result ∧
    (result.1 = none ↔ s.reads.length = s.allocated.length)

/-! ### The parts of the circle -/

def Valid (m : Memory) (h : Nat) : Prop := load m h .valid_flag = VALID_FLAG

instance (m : Memory) (h : Nat) : Decidable (Valid m h) := inferInstanceAs (Decidable (_ = _))

theorem not_valid {m : Memory} {h : Nat} (free : load m h .valid_flag = 0) : ¬Valid m h := by
  rw [Valid,free]
  decide

/-- The packages `seg` from the read position on, and those from the write position on, none of
    which can be read. -/
structure Ordered (m : Memory) (l seg rest : List Nat) : Prop where
  rotated : l.IsRotated (seg ++ rest)
  at_read : (seg ++ rest).head? = some (cache_read_pos m)
  at_write : cache_write_pos m = rest.headD (cache_read_pos m)
  quiet : ∀ h ∈ rest, ¬Valid m h
  valid : ∀ h ∈ seg.head?, Valid m h

section Parts
variable {m m' : Memory} {length : Nat} {l seg rest : List Nat} {h x : Nat}

theorem Ordered.distinct (ordered : Ordered m l seg rest) (tiled : Tiled m length l) : (seg ++ rest).Nodup :=
  ordered.rotated.nodup_iff.mp tiled.distinct

/-! ### A merge -/

theorem adjacent_rotated {a b : Nat} {t c : List Nat} (rotated : (a :: b :: t).IsRotated c) :
    (∃ c₁ c₂, c = c₁ ++ a :: b :: c₂) ∨ ∃ c₂, c = b :: (c₂ ++ [a]) := by
  obtain ⟨n,rfl⟩ := rotated
  rw [List.rotate_eq_drop_append_take_mod]
  have below : n % (a :: b :: t).length ≤ (a :: b :: t).length := Nat.le_of_lt (Nat.mod_lt n (by simp))
  generalize n % (a :: b :: t).length = k at below ⊢
  match k with
  | 0 => exact .inl ⟨[],t,by simp⟩
  | 1 => exact .inr ⟨t,rfl⟩
  | k+2 => exact .inl ⟨t.drop k,t.take k,rfl⟩

theorem second_not_first {c₁ c₂ : List Nat} {a b : Nat} (distinct : (c₁ ++ a :: b :: c₂).Nodup) :
    (c₁ ++ a :: b :: c₂).head? ≠ some b := by
  intro first
  cases c₁ with
  | nil =>
    obtain rfl : a = b := Option.some.inj first
    exact (List.nodup_cons.mp distinct).1 List.mem_cons_self
  | cons d c₁ =>
    obtain rfl : d = b := Option.some.inj first
    exact (List.nodup_cons.mp distinct).1 (by simp)

/-- The parts when `b`, which is not the first of all, is taken over by `a` in front of it. -/
theorem adjacent_parts {p q c₁ c₂ : List Nat} {a b : Nat} (tiled : Tiled m length (p ++ a :: b :: q))
    (ordered : Ordered m (p ++ a :: b :: q) seg rest) (free_a : ¬Valid m a) (free_b : ¬Valid m b)
    (shape : seg ++ rest = c₁ ++ a :: b :: c₂) :
    ∃ seg' rest', seg' ++ rest' = c₁ ++ a :: c₂ ∧
      (if b = cache_write_pos m then a else cache_write_pos m) = rest'.headD (cache_read_pos m) ∧
      (∀ h ∈ rest', ¬Valid m h) ∧ (∀ h ∈ seg'.head?, Valid m h) ∧ seg'.filter (Valid m) = seg.filter (Valid m) := by
  have distinct := ordered.distinct tiled
  have quiet := ordered.quiet
  have valid := ordered.valid
  have at_write := ordered.at_write
  have unread : cache_read_pos m ≠ b := by
    have front := ordered.at_read
    rw [shape] at front distinct
    exact fun same => second_not_first distinct (same ▸ front)
  rcases List.append_eq_append_iff.mp shape with ⟨bs,rfl,rfl⟩ | ⟨as,rfl,tail⟩
  · -- both lie in the second part
    have same : (bs ++ a :: c₂).headD (cache_read_pos m) = (bs ++ a :: b :: c₂).headD (cache_read_pos m) := by
      cases bs <;> rfl
    have elsewhere : b ≠ cache_write_pos m := by
      intro here
      have front : (bs ++ a :: b :: c₂).head? = some b := by
        rw [here,at_write]
        cases bs <;> rfl
      exact second_not_first (List.nodup_append.mp distinct).2.1 front
    refine ⟨seg,bs ++ a :: c₂,by simp,?_,?_,valid,rfl⟩
    · rw [if_neg elsewhere,same]
      exact at_write
    · intro h found
      refine quiet h ?_
      simp only [List.mem_append,List.mem_cons] at found ⊢
      tauto
  · match as, tail with
    | [], tail =>
      obtain rfl : rest = a :: b :: c₂ := tail.symm
      have elsewhere : b ≠ cache_write_pos m := by
        rw [at_write]
        rintro rfl
        exact (List.nodup_cons.mp (List.nodup_append.mp distinct).2.1).1 List.mem_cons_self
      refine ⟨c₁,a :: c₂,rfl,by rw [if_neg elsewhere]; exact at_write,?_,?_,by simp⟩
      · intro h found
        refine quiet h ?_
        simp only [List.mem_cons] at found ⊢
        tauto
      · simpa using valid
    | [d], tail =>
      obtain ⟨here,behind⟩ := List.cons.inj tail
      subst here
      obtain rfl : rest = b :: c₂ := behind.symm
      -- `b` begins the second part, which now begins with `a`
      refine ⟨c₁,a :: c₂,rfl,if_pos at_write.symm,?_,?_,?_⟩
      · intro h found
        rcases List.mem_cons.mp found with rfl | behind
        · exact free_a
        · exact quiet h (List.mem_cons_of_mem b behind)
      · intro h first
        refine valid h ?_
        cases c₁ with
        | nil => cases first
        | cons d c₁ => exact first
      · rw [List.filter_append,List.filter_cons_of_neg (by simpa using free_a)]
        simp
    | d :: e :: s, tail =>
      obtain ⟨here,tail⟩ := List.cons.inj tail
      obtain ⟨next,behind⟩ := List.cons.inj tail
      subst here next behind
      have elsewhere : b ≠ cache_write_pos m := by
        rw [at_write]
        cases rest with
        | nil => exact unread.symm
        | cons w rest =>
          rintro rfl
          exact List.disjoint_of_nodup_append distinct (by simp) List.mem_cons_self
      refine ⟨c₁ ++ a :: s,rest,by simp,by rw [if_neg elsewhere]; exact at_write,quiet,?_,?_⟩
      · intro h first
        refine valid h ?_
        cases c₁ <;> exact first
      · have dropped : (a :: b :: s).filter (Valid m) = (a :: s).filter (Valid m) := by
          simp [List.filter_cons,free_b]
        rw [List.filter_append,List.filter_append,dropped]

theorem Ordered.merged {p q : List Nat} {a b : Nat} (tiled : Tiled m length (p ++ a :: b :: q))
    (ordered : Ordered m (p ++ a :: b :: q) seg rest) (free_a : ¬Valid m a) (free_b : ¬Valid m b) :
    ∃ seg' rest', Ordered (merge m a b) (p ++ a :: q) seg' rest' ∧
      seg'.filter (Valid (merge m a b)) = seg.filter (Valid m) := by
  have merged := merge_merged tiled
  have distinct := ordered.distinct tiled
  have same : ∀ {h}, h ∈ seg ++ rest → (Valid (merge m a b) h ↔ Valid m h) := by
    intro h member
    rw [Valid,merged.flag h (ordered.rotated.mem_iff.mpr member)]
    rfl
  have removed : (p ++ a :: q).IsRotated (replace b [] (seg ++ rest)) := by
    have regrouped : p ++ a :: b :: q = (p ++ [a]) ++ b :: q := by simp
    have short : p ++ a :: q = replace b [] (p ++ a :: b :: q) := by
      rw [regrouped,replace_split (regrouped ▸ tiled.distinct)]
      simp
    rw [short]
    exact replace_rotated ordered.rotated
  have adjacent : (a :: b :: (q ++ p)).IsRotated (seg ++ rest) := List.isRotated_append.trans ordered.rotated
  rcases adjacent_rotated adjacent with ⟨c₁,c₂,shape⟩ | ⟨c₂,shape⟩
  · obtain ⟨seg',rest',joined,at_write,quiet,valid,filtered⟩ := adjacent_parts tiled ordered free_a free_b shape
    have kept : ∀ {h}, h ∈ seg' ++ rest' → (Valid (merge m a b) h ↔ Valid m h) := by
      intro h member
      refine same ?_
      rw [shape]
      rw [joined] at member
      simp only [List.mem_append,List.mem_cons] at member ⊢
      tauto
    have front := ordered.at_read
    rw [shape] at front distinct
    have read : cache_read_pos (merge m a b) = cache_read_pos m := by
      rw [merged.read,if_neg]
      exact fun here => second_not_first distinct (here ▸ front)
    refine ⟨seg',rest',⟨?_,?_,?_,?_,?_⟩,?_⟩
    · rw [joined]
      have regrouped : c₁ ++ a :: b :: c₂ = (c₁ ++ [a]) ++ b :: c₂ := by simp
      rw [shape,regrouped,replace_split (regrouped ▸ distinct)] at removed
      simpa using removed
    · rw [joined,read,← front]
      cases c₁ <;> rfl
    · rw [merged.write,read]
      exact at_write
    · exact fun h member => (kept (List.mem_append_right _ member)).not.mpr (quiet h member)
    · exact fun h first => (kept (List.mem_append_left _ (List.mem_of_mem_head? first))).mpr (valid h first)
    · rw [← filtered]
      refine List.filter_congr (fun h member => ?_)
      simp [kept (List.mem_append_left rest' member)]
  · -- `b` is the one to be read, so that none is left to read
    have front := ordered.at_read
    rw [shape] at front distinct removed
    have at_b : b = cache_read_pos m := Option.some.inj front
    have none_left : seg = [] := by
      cases seg with
      | nil => rfl
      | cons d seg =>
        obtain rfl : d = b := (List.cons.inj shape).1
        exact absurd (ordered.valid d rfl) free_b
    subst none_left
    have all : rest = b :: (c₂ ++ [a]) := shape
    subst all
    refine ⟨[],a :: c₂,⟨?_,?_,?_,?_,fun h first => by cases first⟩,rfl⟩
    · have split : replace b [] (b :: (c₂ ++ [a])) = c₂ ++ [a] := replace_split (p := []) distinct
      rw [split] at removed
      exact removed.trans List.isRotated_append
    · rw [merged.read,if_pos at_b]
      rfl
    · have writes : b = cache_write_pos m := ordered.at_write.symm
      rw [merged.write,if_pos writes]
      rfl
    · intro h member
      have inside : h ∈ b :: (c₂ ++ [a]) := by
        simp only [List.mem_append,List.mem_cons] at member ⊢
        tauto
      exact (same inside).not.mpr (ordered.quiet h inside)

theorem Merges.ordered {l' : List Nat} (merges : Merges m l m' l') (tiled : Tiled m length l) :
    ∀ {seg rest}, Ordered m l seg rest →
      ∃ seg' rest', Ordered m' l' seg' rest' ∧ seg'.filter (Valid m') = seg.filter (Valid m) := by
  induction merges with
  | done => exact fun ordered => ⟨_,_,ordered,rfl⟩
  | merge free_a free_b more ih =>
    intro seg rest ordered
    obtain ⟨seg',rest',ordered',filtered'⟩ := ordered.merged tiled (not_valid free_a) (not_valid free_b)
    obtain ⟨seg'',rest'',ordered'',filtered''⟩ := ih tiled.merged ordered'
    exact ⟨seg'',rest'',ordered'',filtered''.trans filtered'⟩

/-! ### An allocation -/

/-- The packages, from the first part on, when the package `x` between `a` and `b` has been taken and `w` is what is left of it. -/
structure Joined (m n : Memory) (l seg a b w : List Nat) (x : Nat) : Prop where
  rotated : (replace x (x :: w) l).IsRotated (seg ++ a ++ (x :: w ++ b))
  valid : Valid n x
  others : ∀ {h}, h ∈ seg ++ (a ++ b) → (Valid n h ↔ Valid m h)
  quiet : ∀ h ∈ w ++ b ++ a, ¬Valid n h
  read : cache_read_pos n = if (a.any (fun h => load m h .valid_flag = 0)) = true ∧ cache_read_pos m = cache_write_pos m then x
    else cache_read_pos m
  write : cache_write_pos n = (w ++ b ++ (seg ++ a)).headD x

theorem Ordered.joined {a b w : List Nat} (tiled : Tiled m length l) (ordered : Ordered m l seg (a ++ x :: b))
    (taken : Taken m m' length l x w) :
    Joined m (move_positions m' x (a.any (fun h => load m h .valid_flag = 0))) l seg a b w x := by
  have distinct := ordered.distinct tiled
  obtain ⟨flags,new⟩ := taken.flags (a.any (fun h => load m h .valid_flag = 0))
  obtain ⟨_,read,write⟩ := move_positions_words taken.tiled (mem_replace (w := w) taken.member)
    (a.any (fun h => load m h .valid_flag = 0))
  generalize move_positions m' x (a.any (fun h => load m h .valid_flag = 0)) = n at *
  rw [taken.read,taken.write] at read
  have inside : ∀ {h}, h ∈ seg ++ (a ++ x :: b) → h ∈ l := fun member => ordered.rotated.mem_iff.mpr member
  have regrouped : seg ++ (a ++ x :: b) = (seg ++ a) ++ x :: b := by simp
  have others : ∀ {h}, h ∈ seg ++ (a ++ b) → (Valid n h ↔ Valid m h) := by
    intro h member
    have inner : h ∈ l := by
      refine inside ?_
      simp only [List.mem_append,List.mem_cons] at member ⊢
      tauto
    have other : h ≠ x := by
      rintro rfl
      rw [regrouped] at distinct
      exact (List.nodup_cons.mp (List.nodup_middle.mp distinct)).1 (by simpa using member)
    rw [Valid,flags h inner,if_neg other]
    rfl
  have rotated : (replace x (x :: w) l).IsRotated (seg ++ a ++ (x :: w ++ b)) := by
    have commuted := replace_rotated (x := x) (w := x :: w) ordered.rotated
    rwa [regrouped,replace_split (regrouped ▸ distinct)] at commuted
  refine ⟨rotated,?_,others,?_,read,write.trans ?_⟩
  · rw [Valid,flags x taken.member,if_pos rfl]
  · intro h member
    by_cases fresh : h ∈ w
    · exact not_valid (new h fresh)
    · have old : h ∈ a ++ b := by
        simp only [List.mem_append] at member ⊢
        tauto
      refine (others (List.mem_append_right seg old)).not.mpr (ordered.quiet h ?_)
      simp only [List.mem_append,List.mem_cons] at old ⊢
      tauto
  · have turned : Circled (load m' · .next_head) (load m' · .prev_head) (x :: (w ++ b ++ (seg ++ a))) := by
      have circle := taken.tiled.circle.isRotated rotated
      simpa using circle.rotate
    exact turned.next_first

/-- Nothing was left to read: the taken package is the one to be read. -/
theorem Joined.first {n : Memory} {a b w : List Nat} (joined : Joined m n l [] a b w x) (ordered : Ordered m l [] (a ++ x :: b))
    (vacant : cache_is_full m = false) : Ordered n (replace x (x :: w) l) [x] (w ++ b ++ a) := by
  have front : (a ++ x :: b).head? = some (cache_read_pos m) := ordered.at_read
  have both : cache_read_pos m = cache_write_pos m := by
    rw [ordered.at_write]
    cases a <;> exact (Option.some.inj front).symm
  have free : load m (cache_read_pos m) .valid_flag = 0 := by
    by_contra used
    rw [cache_is_full,← both] at vacant
    simp [used] at vacant
  have reads : cache_read_pos n = x := by
    rw [joined.read]
    cases a with
    | nil =>
      rw [if_neg (by simp)]
      exact (Option.some.inj front).symm
    | cons d a =>
      obtain rfl : d = cache_read_pos m := Option.some.inj front
      rw [if_pos ⟨by simp [free],both⟩]
  refine ⟨?_,?_,?_,joined.quiet,?_⟩
  · have turned : (replace x (x :: w) l).IsRotated ((x :: w ++ b) ++ a) := joined.rotated.trans List.isRotated_append
    simpa using turned
  · rw [reads]
    rfl
  · rw [joined.write,reads]
    rfl
  · intro h first
    obtain rfl : x = h := Option.some.inj first
    exact joined.valid

/-- The taken package stands behind what is left to read, and behind the free packages in front of it. -/
theorem Joined.behind {n : Memory} {a b w : List Nat} {d : Nat} {seg : List Nat} (joined : Joined m n l (d :: seg) a b w x)
    (tiled : Tiled m length l) (ordered : Ordered m l (d :: seg) (a ++ x :: b)) :
    Ordered n (replace x (x :: w) l) (d :: seg ++ a ++ [x]) (w ++ b) := by
  have distinct := ordered.distinct tiled
  obtain rfl : d = cache_read_pos m := Option.some.inj ordered.at_read
  have apart : cache_read_pos m ≠ cache_write_pos m := by
    rw [ordered.at_write]
    intro same
    refine (List.nodup_cons.mp distinct).1 (List.mem_append_right seg ?_)
    rw [same]
    cases a <;> exact List.mem_cons_self
  have reads : cache_read_pos n = cache_read_pos m := by
    rw [joined.read,if_neg (fun moves => apart moves.2)]
  refine ⟨?_,?_,?_,?_,?_⟩
  · simpa using joined.rotated
  · rw [reads]
    rfl
  · rw [joined.write,reads]
    cases w ++ b <;> rfl
  · exact fun h member => joined.quiet h (List.mem_append_left a member)
  · intro h found
    obtain rfl : cache_read_pos m = h := Option.some.inj found
    exact (joined.others (List.mem_append_left _ List.mem_cons_self)).mpr (ordered.valid _ rfl)

/-- Of the first part only the taken package is new. -/
theorem Joined.filtered {n : Memory} {a b w : List Nat} (joined : Joined m n l seg a b w x) :
    (seg ++ a ++ [x]).filter (Valid n) = seg.filter (Valid m) ++ [x] := by
  have passed : a.filter (Valid n) = [] := by
    refine List.filter_eq_nil_iff.mpr (fun h member => ?_)
    simpa using joined.quiet h (List.mem_append_right _ member)
  have kept : seg.filter (Valid n) = seg.filter (Valid m) :=
    List.filter_congr (fun h member => by simp [joined.others (List.mem_append_left (a ++ b) member)])
  have last : [x].filter (Valid n) = [x] := by simp [joined.valid]
  rw [List.filter_append,List.filter_append,passed,kept,last,List.append_nil]

/-- The taken package joins the end of the first part. -/
theorem Ordered.taken {a b w : List Nat} (tiled : Tiled m length l) (ordered : Ordered m l seg rest)
    (vacant : cache_is_full m = false) (split : rest = a ++ x :: b) (taken : Taken m m' length l x w)
    {n : Memory} (moved : n = move_positions m' x (a.any (fun h => load m h .valid_flag = 0))) :
    ∃ seg' rest', Ordered n (replace x (x :: w) l) seg' rest' ∧
      seg'.filter (Valid n) = seg.filter (Valid m) ++ [x] := by
  subst moved split
  have joined := ordered.joined tiled taken
  cases seg with
  | nil => exact ⟨[x],w ++ b ++ a,joined.first ordered vacant,by simp [joined.valid]⟩
  | cons d seg => exact ⟨d :: seg ++ a ++ [x],w ++ b,joined.behind tiled ordered,joined.filtered⟩

/-! ### A read -/

/-- What a read does to the first part, of which `seg'` is left. -/
structure Reads (m : Memory) (length : Nat) (l seg : List Nat) (result : Option Nat × Memory) (seg' : List Nat) :
    Prop where
  tiled : Tiled result.2 length l
  flag : ∀ h ∈ l, load result.2 h .valid_flag = if result.1 = some h then BUSY_FLAG else load m h .valid_flag
  valid : ∀ h ∈ result.1, h ∈ l ∧ Valid m h
  unread : seg.filter (Valid m) = result.1.toList ++ seg'.filter (Valid result.2)
  empty : result.1 = none → seg.filter (Valid m) = []

/-- The memory after a read of the package `h`, and the flags in it. -/
theorem busy_words {position : Nat} {n : Memory} (tiled : Tiled m length l) (member : h ∈ l) (inside : position ∈ l)
    (after : n = store (set m .curr_read_pos position) h .valid_flag BUSY_FLAG) :
    Tiled n length l ∧ cache_read_pos n = position ∧ cache_write_pos n = cache_write_pos m ∧
      ∀ k ∈ l, load n k .valid_flag = if some h = some k then BUSY_FLAG else load m k .valid_flag := by
  have spaced := tiled.spaced
  have read : cache_read_pos n = position := by
    rw [after,cache_read_pos,get_store spaced member,get_set,if_pos rfl]
  have write : cache_write_pos n = cache_write_pos m := by
    rw [after,cache_write_pos,get_store spaced member,get_set,if_neg (by decide)]
    rfl
  refine ⟨tiled.congr ?_ (read ▸ inside) (write ▸ tiled.write),read,write,?_⟩
  · intro k at_k g other
    rw [after,load_store spaced member at_k,if_neg (fun both => other both.2),load_set spaced at_k]
  · intro k at_k
    rw [after,load_store spaced member at_k,load_set spaced at_k]
    simp [eq_comm]

theorem Ordered.read_none (tiled : Tiled m length l) (ordered : Ordered m l [] rest) :
    ∃ result, ring_cache_read_package m = some result ∧ Ordered result.2 l [] rest ∧ Reads m length l [] result [] := by
  obtain ⟨t,all⟩ := List.head?_eq_some_iff.mp (show rest.head? = some (cache_read_pos m) from ordered.at_read)
  have writes : cache_write_pos m = cache_read_pos m := by
    rw [ordered.at_write,all]
    rfl
  have rotated : l.IsRotated (cache_read_pos m :: t ++ []) := by
    rw [List.append_nil,← all]
    exact ordered.rotated
  have outcome := read_outcome tiled rotated writes rfl
  have quiet : ¬load m (cache_read_pos m) .valid_flag = VALID_FLAG :=
    ordered.quiet _ (by rw [all]; exact List.mem_cons_self)
  have nothing : t.find? (fun h => load m h .valid_flag = VALID_FLAG) = none := by
    refine List.find?_eq_none.mpr (fun h member => ?_)
    have silent : ¬Valid m h := ordered.quiet h (by rw [all]; exact List.mem_cons_of_mem _ member)
    simpa [Valid] using silent
  rw [if_neg quiet,nothing,Option.getD_none,writes] at outcome
  have same : set m .curr_read_pos (cache_read_pos m) = m := Function.update_eq_self _ m
  rw [same] at outcome
  exact ⟨_,outcome,ordered,tiled,fun h _ => by simp,(fun h found => by cases found),rfl,fun _ => rfl⟩

/-- Where a scan along `t` stops. -/
theorem find_split (m : Memory) (t : List Nat) : ∃ skipped left, t = skipped ++ left ∧ (∀ h ∈ skipped, ¬Valid m h) ∧
    (∀ h ∈ left.head?, Valid m h) ∧ t.find? (fun h => load m h .valid_flag = VALID_FLAG) = left.head? := by
  induction t with
  | nil => exact ⟨[],[],rfl,by simp,by simp,rfl⟩
  | cons h t ih =>
    by_cases valid : Valid m h
    · refine ⟨[],h :: t,rfl,by simp,?_,List.find?_cons_of_pos (by simpa [Valid] using valid)⟩
      intro k first
      obtain rfl : h = k := Option.some.inj first
      exact valid
    · obtain ⟨skipped,left,rfl,quiet,first,found⟩ := ih
      refine ⟨h :: skipped,left,rfl,?_,first,?_⟩
      · intro k member
        rcases List.mem_cons.mp member with rfl | behind
        · exact valid
        · exact quiet k behind
      · rw [List.find?_cons_of_neg (by simpa [Valid] using valid)]
        exact found

/-- The first package is read, and the next one that can be read becomes the first. -/
theorem Ordered.read_first {first : Nat} {t : List Nat} (tiled : Tiled m length l)
    (ordered : Ordered m l (first :: t) rest) :
    ∃ result seg' rest', ring_cache_read_package m = some result ∧ result.1 = some first ∧
      Ordered result.2 l seg' rest' ∧ Reads m length l (first :: t) result seg' := by
  obtain rfl : first = cache_read_pos m := Option.some.inj ordered.at_read
  have distinct : (cache_read_pos m :: (t ++ rest)).Nodup := ordered.distinct tiled
  have valid : load m (cache_read_pos m) .valid_flag = VALID_FLAG := ordered.valid _ rfl
  have outcome := read_outcome tiled ordered.rotated ordered.at_write rfl
  have inside : ∀ {h}, h ∈ cache_read_pos m :: (t ++ rest) → h ∈ l := fun member => ordered.rotated.mem_iff.mpr member
  obtain ⟨skipped,left,rfl,quiet,first,found⟩ := find_split m t
  rw [if_pos valid,found] at outcome
  have position : left.head?.getD (cache_write_pos m) ∈ l := by
    cases left with
    | nil => exact tiled.write
    | cons v left => exact inside (by simp)
  obtain ⟨tiled',read,write,flags⟩ := busy_words tiled tiled.read position rfl
  generalize store (set m .curr_read_pos (left.head?.getD (cache_write_pos m))) (cache_read_pos m) .valid_flag
    BUSY_FLAG = n at *
  have after : ∀ {h}, h ∈ l → h ≠ cache_read_pos m → (Valid n h ↔ Valid m h) := by
    intro h member other
    rw [Valid,flags h member,if_neg (fun same => other (Option.some.inj same).symm)]
    rfl
  have busy : ¬Valid n (cache_read_pos m) := by
    rw [Valid,flags _ tiled.read,if_pos rfl]
    decide
  have others : ∀ {h}, h ∈ skipped ++ left ++ rest → h ∈ l ∧ h ≠ cache_read_pos m := by
    intro h member
    refine ⟨inside (List.mem_cons_of_mem _ member),?_⟩
    rintro rfl
    exact (List.nodup_cons.mp distinct).1 member
  refine ⟨_,left,rest ++ cache_read_pos m :: skipped,outcome,rfl,⟨?_,?_,?_,?_,?_⟩,
    ⟨tiled',flags,?_,?_,fun none => by cases none⟩⟩
  · have rotated : l.IsRotated ((cache_read_pos m :: skipped) ++ (left ++ rest)) := by simpa using ordered.rotated
    simpa using rotated.trans List.isRotated_append
  · rw [read]
    cases left with
    | nil =>
      rw [List.head?_nil,Option.getD_none,ordered.at_write]
      cases rest <;> rfl
    | cons v left => rfl
  · rw [write,ordered.at_write]
    cases rest <;> rfl
  · intro h member
    rcases List.mem_append.mp member with behind | member
    · obtain ⟨at_h,other⟩ := others (List.mem_append_right _ behind)
      exact (after at_h other).not.mpr (ordered.quiet h behind)
    · rcases List.mem_cons.mp member with rfl | passed
      · exact busy
      · obtain ⟨at_h,other⟩ := others (List.mem_append_left _ (List.mem_append_left _ passed))
        exact (after at_h other).not.mpr (quiet h passed)
  · intro h found
    obtain ⟨at_h,other⟩ := others (List.mem_append_left _ (List.mem_append_right _ (List.mem_of_mem_head? found)))
    exact (after at_h other).mpr (first h found)
  · intro h found
    obtain rfl : cache_read_pos m = h := Option.some.inj found
    exact ⟨tiled.read,valid⟩
  · have passed : skipped.filter (Valid m) = [] :=
      List.filter_eq_nil_iff.mpr (fun h member => by simpa using quiet h member)
    have kept : left.filter (Valid n) = left.filter (Valid m) := by
      refine List.filter_congr (fun h member => ?_)
      obtain ⟨at_h,other⟩ := others (List.mem_append_left _ (List.mem_append_right _ member))
      simp [after at_h other]
    rw [List.filter_cons_of_pos (by simpa using ordered.valid _ rfl),List.filter_append,passed,kept]
    rfl

theorem Ordered.read (tiled : Tiled m length l) (ordered : Ordered m l seg rest) :
    ∃ result seg' rest', ring_cache_read_package m = some result ∧ Ordered result.2 l seg' rest' ∧
      Reads m length l seg result seg' := by
  cases seg with
  | nil =>
    obtain ⟨result,done,ordered',reads⟩ := ordered.read_none tiled
    exact ⟨result,[],rest,done,ordered',reads⟩
  | cons first t =>
    obtain ⟨result,seg',rest',done,_,ordered',reads⟩ := ordered.read_first tiled
    exact ⟨result,seg',rest',done,ordered',reads⟩

end Parts

/-! ### Runs -/

/-- The packages that can be read are those that were allocated last, and the ones in use by their
    readers are busy. -/
structure FifoInv (length : Nat) (s : State) (l seg rest : List Nat) : Prop where
  tiled : Tiled s.memory length l
  ordered : Ordered s.memory l seg rest
  unread : s.allocated = s.reads ++ (seg.filter (Valid s.memory)).map (· + sizeofPackage)
  nodup : s.held.Nodup
  held : ∀ buff ∈ s.held, ∃ h ∈ l, buff = h + sizeofPackage ∧ load s.memory h .valid_flag = BUSY_FLAG

section Runs
variable {start s s' : State} {act : Act} {length : Nat} {l seg rest : List Nat}

theorem FifoInv.inOrder (inv : FifoInv length s l seg rest) : InOrder s := by
  obtain ⟨result,seg',rest',done,_,reads⟩ := inv.ordered.read inv.tiled
  refine ⟨?_,result,done,?_⟩
  · rw [inv.unread]
    exact List.prefix_append ..
  · have lengths : s.allocated.length = s.reads.length + (seg.filter (Valid s.memory)).length := by
      rw [inv.unread,List.length_append,List.length_map]
    constructor
    · intro none
      rw [lengths,reads.empty none]
      rfl
    · intro same
      have nothing : (seg.filter (Valid s.memory)).length = 0 := by omega
      have unread := reads.unread
      rw [List.length_eq_zero_iff.mp nothing] at unread
      exact Option.toList_eq_nil_iff.mp (List.append_eq_nil_iff.mp unread.symm).1

/-- Without a package to be written at, the first one is not yet read. -/
theorem Ordered.full {m : Memory} (ordered : Ordered m l seg []) : cache_is_full m = true := by
  have both : cache_write_pos m = cache_read_pos m := ordered.at_write
  have front := ordered.at_read
  rw [List.append_nil] at front
  have valid : load m (cache_read_pos m) .valid_flag = VALID_FLAG := ordered.valid _ front
  simp [cache_is_full,both,valid,VALID_FLAG]

theorem alloc_fifo {request : Nat} (inv : FifoInv length s l seg rest) (tame : Tame s (.alloc request)) :
    ∃ result l' seg' rest', step s (.alloc request) = some result ∧ FifoInv length result l' seg' rest' := by
  cases rest with
  | nil =>
    have refused : ring_buff_alloc s.memory request = some (none,s.memory) := by
      simp [ring_buff_alloc,inv.ordered.full]
    rw [step,refused]
    exact ⟨_,l,seg,[],rfl,inv⟩
  | cons w rest =>
    have at_write : (w :: rest).head? = some (cache_write_pos s.memory) := by
      rw [inv.ordered.at_write]
      rfl
    obtain ⟨⟨result,memory⟩,done,allocated⟩ :=
      alloc_allocated inv.tiled inv.ordered.rotated inv.ordered.at_read at_write tame
    rw [step,done]
    cases allocated with
    | refused => exact ⟨_,l,seg,w :: rest,rfl,inv⟩
    | taken vacant split taken =>
      rename_i a b behind x m'
      obtain ⟨seg',rest',ordered,filtered⟩ := inv.ordered.taken inv.tiled vacant split taken rfl
      refine ⟨_,_,seg',rest',rfl,taken.moved _,ordered,?_,inv.nodup,?_⟩
      · dsimp only
        rw [filtered,List.map_append,← List.append_assoc,← inv.unread]
        rfl
      · intro buff member
        obtain ⟨h,at_h,rfl,busy⟩ := inv.held buff member
        refine ⟨h,(mem_replace_iff taken.member).mpr (.inl at_h),rfl,?_⟩
        have other : h ≠ x := by
          rintro rfl
          rw [taken.free] at busy
          cases busy
        dsimp only
        rw [(taken.flags _).1 h at_h,if_neg other]
        exact busy

theorem read_fifo (inv : FifoInv length s l seg rest) :
    ∃ result seg' rest', step s .read = some result ∧ FifoInv length result l seg' rest' := by
  obtain ⟨⟨result,memory⟩,seg',rest',done,ordered,reads⟩ := inv.ordered.read inv.tiled
  rw [step,done]
  have unread := inv.unread
  rw [reads.unread] at unread
  cases result with
  | none =>
    refine ⟨_,seg',rest',rfl,reads.tiled,ordered,unread,inv.nodup,?_⟩
    intro buff member
    obtain ⟨h,at_h,rfl,busy⟩ := inv.held buff member
    refine ⟨h,at_h,rfl,?_⟩
    rw [← busy]
    exact reads.flag h at_h
  | some h =>
    obtain ⟨at_h,valid⟩ := reads.valid h rfl
    have fresh : h + sizeofPackage ∉ s.held := by
      intro member
      obtain ⟨k,_,same,busy⟩ := inv.held _ member
      rw [← Nat.add_right_cancel same,valid] at busy
      cases busy
    refine ⟨_,seg',rest',rfl,reads.tiled,ordered,?_,List.nodup_cons.mpr ⟨fresh,inv.nodup⟩,?_⟩
    · simpa using unread
    · intro buff member
      rcases List.mem_cons.mp member with rfl | before
      · refine ⟨h,at_h,rfl,?_⟩
        exact (reads.flag h at_h).trans (if_pos rfl)
      · obtain ⟨k,at_k,rfl,busy⟩ := inv.held buff before
        have other : h ≠ k := fun same => fresh (same ▸ before)
        refine ⟨k,at_k,rfl,?_⟩
        rw [← busy]
        exact (reads.flag k at_k).trans (if_neg (fun same => other (Option.some.inj same)))

/-- A flag that is cleared was none of those to be read. -/
theorem Ordered.cleared {m : Memory} {h : Nat} (tiled : Tiled m length l) (ordered : Ordered m l seg rest)
    (member : h ∈ l) (busy : load m h .valid_flag = BUSY_FLAG) :
    Ordered (store m h .valid_flag INVALID_FLAG) l seg rest ∧
      seg.filter (Valid (store m h .valid_flag INVALID_FLAG)) = seg.filter (Valid m) := by
  have same : ∀ {k}, k ∈ seg ++ rest → (Valid (store m h .valid_flag INVALID_FLAG) k ↔ Valid m k) := by
    intro k at_k
    rw [Valid,Valid,load_store tiled.spaced member (ordered.rotated.mem_iff.mpr at_k)]
    by_cases here : k = h
    · rw [if_pos ⟨here,rfl⟩,here,busy]
      decide
    · rw [if_neg (fun both => here both.1)]
  have read : cache_read_pos (store m h .valid_flag INVALID_FLAG) = cache_read_pos m := get_store tiled.spaced member
  have write : cache_write_pos (store m h .valid_flag INVALID_FLAG) = cache_write_pos m := get_store tiled.spaced member
  refine ⟨⟨ordered.rotated,?_,?_,?_,?_⟩,?_⟩
  · rw [read]
    exact ordered.at_read
  · rw [read,write]
    exact ordered.at_write
  · exact fun k at_k => (same (List.mem_append_right seg at_k)).not.mpr (ordered.quiet k at_k)
  · exact fun k first => (same (List.mem_append_left rest (List.mem_of_mem_head? first))).mpr (ordered.valid k first)
  · exact List.filter_congr (fun k at_k => by simp [same (List.mem_append_left rest at_k)])

theorem free_fifo {buff : Nat} (inv : FifoInv length s l seg rest) (tame : Tame s (.free buff))
    (consumed : Consumed s (.free buff)) : ∃ l' seg' rest', FifoInv length { s with
      memory := ring_buff_free s.memory buff, live := s.live.erase buff, held := s.held.erase buff } l' seg' rest' := by
  obtain ⟨h,at_h,rfl,busy⟩ := inv.held buff consumed
  have used : load s.memory h .valid_flag ≠ 0 := by
    rw [busy]
    decide
  have inside := inv.tiled.within at_h
  have word := inv.tiled.word
  have package : sub (h + sizeofPackage) sizeofPackage = h := by
    rw [sub_exact (Nat.le_add_left ..) (by omega)]
    exact Nat.add_sub_cancel ..
  obtain ⟨l',merges⟩ := free_merges inv.tiled at_h used (package ▸ tame)
  have cleared := inv.tiled.flagged at_h INVALID_FLAG
  obtain ⟨ordered,filtered⟩ := inv.ordered.cleared inv.tiled at_h busy
  obtain ⟨seg',rest',ordered',filtered'⟩ := merges.ordered cleared ordered
  refine ⟨l',seg',rest',merges.tiled cleared,ordered',?_,inv.nodup.erase _,?_⟩
  · dsimp only
    rw [filtered',filtered]
    exact inv.unread
  · intro other_buff member
    obtain ⟨differ,member⟩ := inv.nodup.mem_erase_iff.mp member
    obtain ⟨k,at_k,rfl,busy_k⟩ := inv.held other_buff member
    have other : k ≠ h := fun same => differ (by rw [same])
    have still : load (store s.memory h .valid_flag INVALID_FLAG) k .valid_flag = BUSY_FLAG := by
      rw [load_store inv.tiled.spaced at_h at_k,if_neg (fun both => other both.1)]
      exact busy_k
    have in_use : load (store s.memory h .valid_flag INVALID_FLAG) k .valid_flag ≠ 0 := by
      rw [still]
      decide
    obtain ⟨at_k',flag⟩ := merges.kept cleared at_k in_use
    exact ⟨k,at_k',rfl,flag.trans still⟩

theorem act_fifo (inv : FifoInv length s l seg rest) (tame : Tame s act) (consumed : Consumed s act)
    (done : step s act = some s') : ∃ l' seg' rest', FifoInv length s' l' seg' rest' := by
  cases act with
  | alloc request =>
    obtain ⟨result,l',seg',rest',stepped,kept⟩ := alloc_fifo inv tame
    rw [stepped] at done
    obtain rfl := Option.some.inj done
    exact ⟨l',seg',rest',kept⟩
  | read =>
    obtain ⟨result,seg',rest',stepped,kept⟩ := read_fifo inv
    rw [stepped] at done
    obtain rfl := Option.some.inj done
    exact ⟨l,seg',rest',kept⟩
  | free buff =>
    rw [step] at done
    split at done
    · obtain rfl := Option.some.inj done
      exact free_fifo inv tame consumed
    · cases done

theorem started_fifo (started : Started length start) :
    FifoInv length start [cache_head_ring_package] [] [cache_head_ring_package] := by
  obtain ⟨m,memory⟩ := started.memory
  obtain ⟨tiled,flag,read,write⟩ := init_words m started.fits started.word
  rw [← memory] at tiled flag read write
  refine ⟨tiled,⟨.refl _,?_,?_,?_,fun h first => by cases first⟩,?_,?_,?_⟩
  · rw [read]
    rfl
  · rw [write]
    rfl
  · intro h member
    rw [List.mem_singleton.mp member]
    exact not_valid flag
  · rw [started.allocated,started.reads]
    rfl
  · rw [started.held]
    exact List.nodup_nil
  · rw [started.held]
    exact fun buff member => absurd member List.not_mem_nil

/-- In every state that a run reaches the reads are in order. -/
theorem fifo_run_in_order {start s : State} {length : Nat} (started : Started length start) (run : FifoRun start s) :
    InOrder s := by
  have inv : ∃ l seg rest, FifoInv length s l seg rest := by
    induction run with
    | start => exact ⟨_,_,_,started_fifo started⟩
    | act _ tame consumed done inv =>
      obtain ⟨l,seg,rest,inv⟩ := inv
      exact act_fifo inv tame consumed done
  obtain ⟨l,seg,rest,inv⟩ := inv
  exact inv.inOrder

end Runs

/-- Two packages are allocated, the first one is read and freed, and a third one is allocated. -/
theorem fifo_run_in_order_three : ∃ s, FifoRun fresh s ∧ s.allocated = [36,64,36] ∧ s.reads = [36] ∧ InOrder s := by
  have fifo : ∀ {s : State} {act : Act} {s' : State}, FifoRun fresh s → Tame s act ∧ Consumed s act →
      step s act = some s' → FifoRun fresh s' := fun run ok done => .act run ok.1 ok.2 done
  have r₁ := fifo .start (show Tame fresh (.alloc 8) ∧ Consumed fresh (.alloc 8) by decide) rfl
  have r₂ := fifo r₁ (show Tame _ (.alloc 44) ∧ Consumed _ (.alloc 44) by decide) rfl
  have r₃ := fifo r₂ (show Tame _ .read ∧ Consumed _ .read from ⟨trivial,trivial⟩) rfl
  have r₄ := fifo r₃ (show Tame _ (.free 36) ∧ Consumed _ (.free 36) by decide) rfl
  have r₅ := fifo r₄ (show Tame _ (.alloc 8) ∧ Consumed _ (.alloc 8) by decide) rfl
  exact ⟨_,r₅,rfl,rfl,fifo_run_in_order fresh_started r₅⟩

/-- A request that wraps with its header: the new header is written into that of the package, and
    what is read is not what was allocated. -/
theorem wrapped_request_misread : ∃ acts s, Started 128 fresh ∧ List.foldlM step fresh acts = some s ∧
    s.allocated = [36,44] ∧ s.reads = [36,64] ∧ ¬InOrder s := by
  have outcome : (List.foldlM step fresh [.alloc 8,.alloc 4294967280,.read,.read]).map
      (fun s => (s.allocated,s.reads)) = some ([36,44],[36,64]) := by decide
  obtain ⟨s,done,both⟩ := Option.map_eq_some_iff.mp outcome
  obtain ⟨allocated,reads⟩ := Prod.mk.inj both
  refine ⟨[.alloc 8,.alloc 4294967280,.read,.read],s,fresh_started,done,allocated,reads,?_⟩
  intro in_order
  have order := in_order.order
  rw [allocated,reads] at order
  exact absurd order (by decide)

end GridOS.RingBuff
