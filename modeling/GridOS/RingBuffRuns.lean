import GridOS.Circle
import GridOS.RingBuff

/-!
The structure of the ring buffer in every run. The packages tile the buffer and are linked in
a circle; each of the two edits of the circle, a slice and a merge, is described by what it
does to the words of the headers, and the tiling follows from that.
-/
namespace GridOS.RingBuff
open GridOS.Words GridOS.Circle

/-! ### Headers that do not overlap -/

/-- Headers that lie behind the cache and do not overlap. -/
structure Spaced (l : List Nat) : Prop where
  low : ∀ p ∈ l, sizeofCache ≤ p
  apart : ∀ p ∈ l, ∀ q ∈ l, p ≠ q → p + sizeofPackage ≤ q ∨ q + sizeofPackage ≤ p

theorem Field.offset_lt (f : Field) : f.offset < sizeofPackage := by cases f <;> decide

theorem Field.offset_inj {f g : Field} (same : f.offset = g.offset) : f = g := by
  cases f <;> cases g <;> first | rfl | (cases same)

theorem CacheField.offset_lt (f : CacheField) : f.offset < sizeofCache := by cases f <;> decide

theorem CacheField.offset_inj {f g : CacheField} (same : f.offset = g.offset) : f = g := by
  cases f <;> cases g <;> first | rfl | (cases same)

section Words
variable {m : Memory} {l : List Nat} {p q value : Nat} {f g : Field} {c d : CacheField}

theorem load_store (spaced : Spaced l) (at_p : p ∈ l) (at_q : q ∈ l) :
    load (store m p f value) q g = if q = p ∧ g = f then value else load m q g := by
  rw [load,store,Function.update_apply]
  by_cases same : q = p
  · rw [same]
    by_cases field : g = f
    · rw [field,if_pos rfl,if_pos ⟨rfl,rfl⟩]
    · have differ : p + g.offset ≠ p + f.offset := fun eq => field (Field.offset_inj (Nat.add_left_cancel eq))
      rw [if_neg differ,if_neg (fun both => field both.2)]
      rfl
  · have room := f.offset_lt
    have room' := g.offset_lt
    have differ : q + g.offset ≠ p + f.offset := by
      rcases spaced.apart q at_q p at_p same with before | behind <;> omega
    rw [if_neg differ,if_neg (fun both => same both.1)]
    rfl

theorem load_set (spaced : Spaced l) (at_q : q ∈ l) : load (set m c value) q g = load m q g := by
  have low := spaced.low q at_q
  have room := c.offset_lt
  rw [load,set,Function.update_of_ne (by omega)]
  rfl

theorem get_store (spaced : Spaced l) (at_p : p ∈ l) : get (store m p f value) c = get m c := by
  have low := spaced.low p at_p
  have room := c.offset_lt
  rw [get,store,Function.update_of_ne (by omega)]
  rfl

theorem get_set : get (set m c value) d = if d = c then value else get m d := by
  rw [get,set,Function.update_apply]
  by_cases same : d = c
  · rw [same,if_pos rfl,if_pos rfl]
  · rw [if_neg (fun eq => same (CacheField.offset_inj eq)),if_neg same]
    rfl

end Words

/-! ### The tiling -/

/-- The packages `l` tile the memory of `length` bytes behind the cache, in address order; they are
    linked in a circle, know where their bodies are, and both positions are among them. -/
structure Tiled (m : Memory) (length : Nat) (l : List Nat) : Prop where
  first : l.head? = some cache_head_ring_package
  tiles : List.IsChain (fun a b => b = a + sizeofPackage + load m a .package_size) (l ++ [length])
  circle : Circled (load m · .next_head) (load m · .prev_head) l
  offset : ∀ h ∈ l, load m h .package_offset = h + sizeofPackage
  read : cache_read_pos m ∈ l
  write : cache_write_pos m ∈ l
  word : length < modulus

section Shapes
variable {m m' : Memory} {length : Nat} {l : List Nat} {h x : Nat}

/-- A package ends before every later one. -/
theorem Tiled.ordered (tiled : Tiled m length l) :
    (l ++ [length]).Pairwise (fun a b => a + sizeofPackage + load m a .package_size ≤ b) := by
  have trans : Trans (fun a b => a + sizeofPackage + load m a .package_size ≤ b)
      (fun a b => a + sizeofPackage + load m a .package_size ≤ b)
      (fun a b => a + sizeofPackage + load m a .package_size ≤ b) := ⟨fun left right => by omega⟩
  exact List.isChain_iff_pairwise.mp (tiled.tiles.imp (fun a b link => Nat.le_of_eq link.symm))

theorem Tiled.within (tiled : Tiled m length l) (member : h ∈ l) :
    h + sizeofPackage + load m h .package_size ≤ length :=
  (List.pairwise_append.mp tiled.ordered).2.2 h member length (List.mem_singleton_self length)

theorem Tiled.distinct (tiled : Tiled m length l) : l.Nodup := by
  refine (List.pairwise_append.mp tiled.ordered).1.imp ?_
  intro a b before same
  rw [same] at before
  have : 0 < sizeofPackage := by decide
  omega

/-- Two packages follow each other, body and all. -/
theorem Tiled.apart (tiled : Tiled m length l) {a b : Nat} (at_a : a ∈ l) (at_b : b ∈ l) (differ : a ≠ b) :
    a + sizeofPackage + load m a .package_size ≤ b ∨ b + sizeofPackage + load m b .package_size ≤ a := by
  have either : Std.Symm (fun a b => a + sizeofPackage + load m a .package_size ≤ b ∨
      b + sizeofPackage + load m b .package_size ≤ a) := ⟨fun _ _ => Or.symm⟩
  have pairs : l.Pairwise (fun a b => a + sizeofPackage + load m a .package_size ≤ b ∨
      b + sizeofPackage + load m b .package_size ≤ a) :=
    (List.pairwise_append.mp tiled.ordered).1.imp (fun before => .inl before)
  exact pairs.forall at_a at_b differ

theorem Tiled.low (tiled : Tiled m length l) (member : h ∈ l) : sizeofCache ≤ h := by
  obtain ⟨t,rfl⟩ := List.head?_eq_some_iff.mp tiled.first
  have front : sizeofCache = cache_head_ring_package := rfl
  rcases List.mem_cons.mp member with rfl | rest
  · exact Nat.le_of_eq front
  · have before := (List.pairwise_cons.mp tiled.ordered).1 h (List.mem_append_left _ rest)
    omega

theorem Tiled.spaced (tiled : Tiled m length l) : Spaced l := by
  refine ⟨fun p member => tiled.low member,?_⟩
  intro p at_p q at_q differ
  rcases tiled.apart at_p at_q differ with before | behind <;> omega

theorem Tiled.few (tiled : Tiled m length l) : l.length ≤ length := by
  have below : l.toFinset ⊆ Finset.range length := by
    intro h member
    have inside := tiled.within (List.mem_toFinset.mp member)
    have positive : 0 < sizeofPackage := by decide
    exact Finset.mem_range.mpr (by omega)
  rw [← List.toFinset_card_of_nodup tiled.distinct]
  exact (Finset.card_le_card below).trans (Finset.card_range length).le

/-! ### A slice -/

/-- What a slice of `x` with `length` bytes does to the headers: `n` comes behind `x`. -/
structure Sliced (m m' : Memory) (l : List Nat) (x n length : Nat) : Prop where
  flag : ∀ h ∈ l, load m' h .valid_flag = if h = x then VALID_FLAG else load m h .valid_flag
  size : ∀ h ∈ l, load m' h .package_size = if h = x then length else load m h .package_size
  next : ∀ h ∈ l, load m' h .next_head = if h = x then n else load m h .next_head
  prev : ∀ h ∈ l, load m' h .prev_head = if h = load m x .next_head then n else load m h .prev_head
  offset : ∀ h ∈ l, load m' h .package_offset = if h = x then x + sizeofPackage else load m h .package_offset
  new_flag : load m' n .valid_flag = INVALID_FLAG
  new_size : load m' n .package_size = load m x .package_size - length - sizeofPackage
  new_next : load m' n .next_head = load m x .next_head
  new_prev : load m' n .prev_head = x
  new_offset : load m' n .package_offset = n + sizeofPackage
  read : cache_read_pos m' = cache_read_pos m
  write : cache_write_pos m' = cache_write_pos m

theorem Tiled.spaced_new {n size : Nat} (tiled : Tiled m length l) (member : x ∈ l)
    (room : size + sizeofPackage ≤ load m x .package_size) (place : n = x + sizeofPackage + size) :
    Spaced (n :: l) ∧ n ∉ l := by
  have fresh : ∀ h ∈ l, h + sizeofPackage ≤ n ∨ n + sizeofPackage ≤ h := by
    intro h at_h
    by_cases same : h = x
    · rw [same]
      omega
    · rcases tiled.apart at_h member same with before | behind <;> omega
  have positive : 0 < sizeofPackage := by decide
  refine ⟨⟨?_,?_⟩,?_⟩
  · intro p at_p
    rcases List.mem_cons.mp at_p with rfl | old
    · have := tiled.low member
      omega
    · exact tiled.low old
  · intro p at_p q at_q differ
    rcases List.mem_cons.mp at_p with rfl | old_p
    · rcases List.mem_cons.mp at_q with rfl | old_q
      · exact absurd rfl differ
      · exact (fresh q old_q).symm
    · rcases List.mem_cons.mp at_q with rfl | old_q
      · exact fresh p old_p
      · exact tiled.spaced.apart p old_p q old_q differ
  · intro old
    rcases fresh n old with before | behind <;> omega

theorem slice_heads_sliced {n size : Nat} (tiled : Tiled m length l) (member : x ∈ l)
    (room : size + sizeofPackage ≤ load m x .package_size) (place : n = x + sizeofPackage + size) :
    Sliced m (slice_heads m x size) l x n size := by
  obtain ⟨spaced,fresh⟩ := tiled.spaced_new member room place
  have inside := tiled.within member
  have word := tiled.word
  have new_head : add (add x size) sizeofPackage = n := by
    rw [add_exact (show x + size < modulus by omega),add_exact (by omega)]
    omega
  have new_body : add (add x size) (2 * sizeofPackage) = n + sizeofPackage := by
    rw [add_exact (show x + size < modulus by omega),add_exact (by omega)]
    omega
  have body : add x sizeofPackage = x + sizeofPackage := add_exact (by omega)
  have left : sub (sub (load m x .package_size) size) sizeofPackage = load m x .package_size - size - sizeofPackage := by
    rw [sub_exact (show size ≤ load m x .package_size by omega) (by omega),sub_exact (by omega) (by omega)]
  have at_n : n ∈ n :: l := List.mem_cons_self
  have at_x : x ∈ n :: l := List.mem_cons_of_mem _ member
  have at_c : load m x .next_head ∈ n :: l := List.mem_cons_of_mem _ (tiled.circle.next_mem member)
  have x_n : x ≠ n := fun same => fresh (same ▸ member)
  have old : ∀ h ∈ l, h ∈ n :: l ∧ h ≠ n :=
    fun h at_h => ⟨List.mem_cons_of_mem _ at_h,fun same => fresh (same ▸ at_h)⟩
  have sliced : ∀ h ∈ l, ∀ field, load (slice_heads m x size) h field = match field with
      | .valid_flag => if h = x then VALID_FLAG else load m h .valid_flag
      | .package_size => if h = x then size else load m h .package_size
      | .next_head => if h = x then n else load m h .next_head
      | .prev_head => if h = load m x .next_head then n else load m h .prev_head
      | .package_offset => if h = x then x + sizeofPackage else load m h .package_offset := by
    intro h at_h field
    obtain ⟨at_h,h_n⟩ := old h at_h
    cases field <;>
      simp [slice_heads,add_to_prev_head,new_head,load_store spaced,at_n,at_x,at_h,at_c,x_n,h_n,body]
  refine ⟨fun h at_h => sliced h at_h _,fun h at_h => sliced h at_h _,fun h at_h => sliced h at_h _,
    fun h at_h => sliced h at_h _,fun h at_h => sliced h at_h _,?_,?_,?_,?_,?_,?_,?_⟩
  · simp [slice_heads,add_to_prev_head,new_head,load_store spaced,at_n,at_x,at_c,x_n,x_n.symm]
  · simp [slice_heads,add_to_prev_head,new_head,load_store spaced,at_n,at_x,at_c,x_n,x_n.symm,left]
  · simp [slice_heads,add_to_prev_head,new_head,load_store spaced,at_n,at_x,at_c,x_n,x_n.symm]
  · simp [slice_heads,add_to_prev_head,new_head,load_store spaced,at_n,at_x,at_c,x_n.symm]
  · simp [slice_heads,add_to_prev_head,new_head,load_store spaced,at_n,at_x,at_c,x_n,x_n.symm,new_body]
  · simp [cache_read_pos,slice_heads,add_to_prev_head,new_head,load_store spaced,get_store spaced,at_n,at_x,at_c,x_n]
  · simp [cache_write_pos,slice_heads,add_to_prev_head,new_head,load_store spaced,get_store spaced,at_n,at_x,at_c,x_n]

/-- A change of the flags and the positions only. -/
theorem Tiled.congr (tiled : Tiled m length l) (same : ∀ h ∈ l, ∀ g, g ≠ .valid_flag → load m' h g = load m h g)
    (read : cache_read_pos m' ∈ l) (write : cache_write_pos m' ∈ l) : Tiled m' length l := by
  refine ⟨tiled.first,?_,?_,?_,read,write,tiled.word⟩
  · refine chain_imp ?_ tiled.tiles
    intro a member b _ link
    rw [same a member .package_size (by decide)]
    exact link
  · exact tiled.circle.congr (fun h member => same h member .next_head (by decide))
      (fun h member => same h member .prev_head (by decide))
  · intro h member
    rw [same h member .package_offset (by decide)]
    exact tiled.offset h member

theorem Tiled.flagged (tiled : Tiled m length l) (member : x ∈ l) (flag : Nat) :
    Tiled (store m x .valid_flag flag) length l := by
  refine tiled.congr ?_ ?_ ?_
  · intro h at_h g other
    rw [load_store tiled.spaced member at_h,if_neg (fun both => other both.2)]
  · rw [cache_read_pos,get_store tiled.spaced member]
    exact tiled.read
  · rw [cache_write_pos,get_store tiled.spaced member]
    exact tiled.write

/-- The sizes along a way that a change of other packages leaves alone. -/
theorem tiles_kept {p : List Nat} {z : Nat}
    (tiles : List.IsChain (fun a b => b = a + sizeofPackage + load m a .package_size) (p ++ [z]))
    (same : ∀ h ∈ p, load m' h .package_size = load m h .package_size) :
    List.IsChain (fun a b => b = a + sizeofPackage + load m' a .package_size) (p ++ [z]) := by
  refine chain_imp ?_ tiles
  intro a member b _ link
  rw [same a member]
  exact link

theorem Tiled.sliced {n size : Nat} (tiled : Tiled m length l) (member : x ∈ l)
    (room : size + sizeofPackage ≤ load m x .package_size) (place : n = x + sizeofPackage + size) :
    Tiled (slice_heads m x size) length (replace x [x,n] l) := by
  have sliced := slice_heads_sliced tiled member room place
  have distinct := tiled.distinct
  obtain ⟨p,q,rfl⟩ := List.append_of_mem member
  obtain ⟨absent,others⟩ := List.nodup_cons.mp (List.nodup_middle.mp distinct)
  have aside : ∀ h ∈ p ++ q, h ∈ p ++ x :: q ∧ h ≠ x := by
    intro h found
    refine ⟨?_,fun same => absent (same ▸ found)⟩
    rcases List.mem_append.mp found with left | right
    · exact List.mem_append_left _ left
    · exact List.mem_append_right _ (List.mem_cons_of_mem x right)
  have wider : ∀ {h}, h ∈ p ++ x :: q → h ∈ p ++ ([x,n] ++ q) := by
    intro h found
    simp only [List.mem_append,List.mem_cons] at found ⊢
    tauto
  rw [replace_split distinct]
  refine ⟨?_,?_,?_,?_,?_,?_,tiled.word⟩
  · rw [← tiled.first]
    cases p <;> rfl
  · have tiles := tiled.tiles
    rw [List.append_assoc,List.cons_append,List.isChain_split,List.isChain_cons] at tiles
    obtain ⟨left,here,right⟩ := tiles
    have sizes : ∀ h ∈ p ++ q, load (slice_heads m x size) h .package_size = load m h .package_size := by
      intro h found
      rw [sliced.size h (aside h found).1,if_neg (aside h found).2]
    have shape : p ++ ([x,n] ++ q) ++ [length] = p ++ x :: n :: (q ++ [length]) := by simp
    rw [shape,List.isChain_append_cons_cons,List.isChain_cons]
    refine ⟨tiles_kept left (fun h found => sizes h (List.mem_append_left q found)),?_,?_,
      tiles_kept right (fun h found => sizes h (List.mem_append_right p found))⟩
    · rw [sliced.size x member,if_pos rfl]
      exact place
    · intro y behind
      have := here y behind
      rw [sliced.new_size]
      omega
  · have front : Circled (load m · .next_head) (load m · .prev_head) (x :: (q ++ p)) := tiled.circle.rotate
    have inserted : Circled (load (slice_heads m x size) · .next_head) (load (slice_heads m x size) · .prev_head)
        (x :: n :: (q ++ p)) := by
      have turned : ∀ {h}, h ∈ q ++ p → h ∈ p ++ q := fun found => List.mem_append.mpr (List.mem_append.mp found).symm
      refine front.insert ?_ ?_ sliced.new_prev sliced.new_next ?_ ?_ ?_
      · have rotated : (p ++ x :: q).IsRotated (x :: q ++ p) := List.isRotated_append
        exact rotated.nodup_iff.mp distinct
      · rw [sliced.next x member,if_pos rfl]
      · rw [sliced.prev _ (tiled.circle.next_mem member),if_pos rfl]
      · intro h found
        rw [sliced.next h (aside h (turned found)).1,if_neg (aside h (turned found)).2]
      · intro h found other
        have inside : h ∈ p ++ x :: q := by
          rcases List.mem_cons.mp found with rfl | found
          · exact member
          · exact (aside h (turned found)).1
        rw [sliced.prev h inside,if_neg other]
    exact Circled.rotate (r := x :: n :: q) (s := p) inserted
  · intro h found
    have cases : h = n ∨ h ∈ p ++ x :: q := by
      simp only [List.mem_append,List.mem_cons] at found ⊢
      tauto
    rcases cases with rfl | old
    · exact sliced.new_offset
    · rw [sliced.offset h old]
      split
      · rename_i same
        rw [same]
      · exact tiled.offset h old
  · rw [sliced.read]
    exact wider tiled.read
  · rw [sliced.write]
    exact wider tiled.write

/-! ### A merge -/

/-- What it does to the headers and the positions that `a` takes over `b`. -/
structure Merged (m m' : Memory) (l : List Nat) (a b : Nat) : Prop where
  flag : ∀ h ∈ l, load m' h .valid_flag = load m h .valid_flag
  size : ∀ h ∈ l, load m' h .package_size =
    if h = a then load m a .package_size + (load m b .package_size + sizeofPackage) else load m h .package_size
  next : ∀ h ∈ l, load m' h .next_head = if h = a then load m b .next_head else load m h .next_head
  prev : ∀ h ∈ l, load m' h .prev_head = if h = load m b .next_head then a else load m h .prev_head
  offset : ∀ h ∈ l, load m' h .package_offset = load m h .package_offset
  read : cache_read_pos m' = if b = cache_read_pos m then a else cache_read_pos m
  write : cache_write_pos m' = if b = cache_write_pos m then a else cache_write_pos m

theorem merge_merged {p q : List Nat} {a b : Nat} (tiled : Tiled m length (p ++ a :: b :: q)) :
    Merged m (merge m a b) (p ++ a :: b :: q) a b := by
  have at_a : a ∈ p ++ a :: b :: q := by simp
  have at_b : b ∈ p ++ a :: b :: q := by simp
  have at_c : load m b .next_head ∈ p ++ a :: b :: q := tiled.circle.next_mem at_b
  have b_a : b ≠ a := by
    have distinct := (List.nodup_append.mp tiled.distinct).2.1
    rintro rfl
    exact (List.nodup_cons.mp distinct).1 List.mem_cons_self
  have behind : b = a + sizeofPackage + load m a .package_size := by
    have tiles := tiled.tiles
    rw [List.append_assoc] at tiles
    exact (List.isChain_append_cons_cons.mp tiles).2.1
  have inside := tiled.within at_b
  have word := tiled.word
  have sum : add (load m a .package_size) (add (load m b .package_size) sizeofPackage) =
      load m a .package_size + (load m b .package_size + sizeofPackage) := by
    rw [add_exact (show load m b .package_size + sizeofPackage < modulus by omega),add_exact (by omega)]
  have spaced := tiled.spaced
  generalize p ++ a :: b :: q = l at *
  have loads : ∀ h ∈ l, ∀ g, load (merge m a b) h g = load (merge_heads m a b) h g := by
    intro h at_h g
    simp only [merge]
    split <;> split <;> simp only [load_set spaced at_h]
  have heads : ∀ c, get (merge_heads m a b) c = get m c := by
    intro c
    simp [merge_heads,load_store spaced,get_store spaced,at_a,at_b,at_c,b_a]
  have merged : ∀ h ∈ l, ∀ field, load (merge m a b) h field = match field with
      | .valid_flag => load m h .valid_flag
      | .package_size => if h = a then load m a .package_size + (load m b .package_size + sizeofPackage)
          else load m h .package_size
      | .next_head => if h = a then load m b .next_head else load m h .next_head
      | .prev_head => if h = load m b .next_head then a else load m h .prev_head
      | .package_offset => load m h .package_offset := by
    intro h at_h field
    rw [loads h at_h]
    cases field <;> simp [merge_heads,load_store spaced,at_a,at_b,at_c,at_h,b_a,sum]
  have positions : cache_read_pos (merge m a b) = (if b = cache_read_pos m then a else cache_read_pos m) ∧
      cache_write_pos (merge m a b) = if b = cache_write_pos m then a else cache_write_pos m := by
    simp only [merge,cache_read_pos,cache_write_pos,heads]
    by_cases writes : b = get m .curr_write_pos
    · by_cases reads : b = get m .curr_read_pos
      · simp [get_set,heads,← writes,← reads]
      · simp [get_set,heads,← writes,reads]
    · by_cases reads : b = get m .curr_read_pos
      · simp [get_set,heads,writes,← reads]
      · simp [heads,writes,reads]
  exact ⟨fun h at_h => merged h at_h _,fun h at_h => merged h at_h _,fun h at_h => merged h at_h _,
    fun h at_h => merged h at_h _,fun h at_h => merged h at_h _,positions.1,positions.2⟩

theorem merged_position {p q : List Nat} {a b position : Nat} (inside : position ∈ p ++ a :: b :: q) :
    (if b = position then a else position) ∈ p ++ a :: q := by
  split
  · simp
  · simp only [List.mem_append,List.mem_cons] at inside ⊢
    tauto

/-- The second of two packages in a row goes. -/
theorem Tiled.merged {p q : List Nat} {a b : Nat} (tiled : Tiled m length (p ++ a :: b :: q)) :
    Tiled (merge m a b) length (p ++ a :: q) := by
  have merged := merge_merged tiled
  have distinct := tiled.distinct
  have shorter : (p ++ a :: q).Sublist (p ++ a :: b :: q) := .append_left (.cons_cons a (.cons b (.refl q))) p
  have at_a : a ∈ p ++ a :: b :: q := by simp
  have at_b : b ∈ p ++ a :: b :: q := by simp
  have aside : ∀ h ∈ p ++ q, h ∈ p ++ a :: b :: q ∧ h ≠ a := by
    intro h found
    have inside : h ∈ p ++ b :: q := by
      simp only [List.mem_append,List.mem_cons] at found ⊢
      tauto
    have absent := (List.nodup_cons.mp (List.nodup_middle.mp distinct)).1
    refine ⟨?_,fun same => absent (same ▸ inside)⟩
    simp only [List.mem_append,List.mem_cons] at found ⊢
    tauto
  have tiles := tiled.tiles
  rw [List.append_assoc,List.cons_append,List.cons_append,List.isChain_append_cons_cons,List.isChain_cons] at tiles
  obtain ⟨left,behind,here,right⟩ := tiles
  refine ⟨?_,?_,?_,?_,?_,?_,tiled.word⟩
  · rw [← tiled.first]
    cases p <;> rfl
  · have sizes : ∀ h ∈ p ++ q, load (merge m a b) h .package_size = load m h .package_size := by
      intro h found
      rw [merged.size h (aside h found).1,if_neg (aside h found).2]
    rw [List.append_assoc,List.cons_append,List.isChain_split,List.isChain_cons]
    refine ⟨tiles_kept left (fun h found => sizes h (List.mem_append_left q found)),?_,
      tiles_kept right (fun h found => sizes h (List.mem_append_right p found))⟩
    intro y next
    have := here y next
    rw [merged.size a at_a,if_pos rfl]
    omega
  · have front : Circled (load m · .next_head) (load m · .prev_head) (a :: b :: (q ++ p)) := tiled.circle.rotate
    have rotated : (p ++ a :: b :: q).IsRotated (a :: b :: q ++ p) := List.isRotated_append
    have turned : ∀ {h}, h ∈ q ++ p → h ∈ p ++ q := fun found => List.mem_append.mpr (List.mem_append.mp found).symm
    have removed : Circled (load (merge m a b) · .next_head) (load (merge m a b) · .prev_head)
        (a :: (q ++ p)) := by
      refine front.remove (rotated.nodup_iff.mp distinct) ?_ ?_ ?_ ?_
      · rw [merged.next a at_a,if_pos rfl]
      · rw [merged.prev _ (tiled.circle.next_mem at_b),if_pos rfl]
      · intro h found
        rw [merged.next h (aside h (turned found)).1,if_neg (aside h (turned found)).2]
      · intro h found other
        have inside : h ∈ p ++ a :: b :: q := by
          rcases List.mem_cons.mp found with rfl | found
          · exact at_a
          · exact (aside h (turned found)).1
        rw [merged.prev h inside,if_neg other]
    exact Circled.rotate (r := a :: q) (s := p) removed
  · intro h found
    rw [merged.offset h (shorter.mem found)]
    exact tiled.offset h (shorter.mem found)
  · rw [merged.read]
    exact merged_position tiled.read
  · rw [merged.write]
    exact merged_position tiled.write

/-! ### Allocation -/

/-- How the search along `r` ends: at the first package that is free and large enough. -/
inductive Searched (m : Memory) (request : Nat) (r : List Nat) (small : Bool) : Search → Prop
  | missing : Searched m request r small .missing
  | fits {a b : List Nat} {x : Nat} (split : r = a ++ x :: b) (free : load m x .valid_flag = 0)
      (size : load m x .package_size = request) :
      Searched m request r small (.fits x (small || a.any (fun h => load m h .valid_flag = 0)))
  | found {a b : List Nat} {x : Nat} (split : r = a ++ x :: b) (free : load m x .valid_flag = 0)
      (room : ¬load m x .package_size < add request sizeofPackage) :
      Searched m request r small (.found x (small || a.any (fun h => load m h .valid_flag = 0)))

theorem Searched.behind {request curr : Nat} {r : List Nat} {small : Bool} {result : Search}
    (searched : Searched m request r (small || decide (load m curr .valid_flag = 0)) result) :
    Searched m request (curr :: r) small result := by
  have any_cons : ∀ a : List Nat, (small || (curr :: a).any (fun h => load m h .valid_flag = 0)) =
      (small || decide (load m curr .valid_flag = 0) || a.any (fun h => load m h .valid_flag = 0)) := by
    intro a
    rw [List.any_cons,Bool.or_assoc]
  cases searched with
  | missing => exact .missing
  | fits split free size =>
    rename_i a b x
    rw [← any_cons]
    exact .fits (by rw [split]; rfl) free size
  | found split free room =>
    rename_i a b x
    rw [← any_cons]
    exact .found (by rw [split]; rfl) free room

/-- One round of the search: it ends at `curr` or goes on. -/
theorem search_round {request fuel curr : Nat} {r : List Nat} {small : Bool}
    (onward : ∃ result, (if load m curr .next_head ≠ cache_read_pos m then search m request fuel (load m curr .next_head)
        (small || decide (load m curr .valid_flag = 0)) else some .missing) = some result ∧
      Searched m request r (small || decide (load m curr .valid_flag = 0)) result) :
    ∃ result, search m request (fuel + 1) curr small = some result ∧ Searched m request (curr :: r) small result := by
  rw [search]
  have here : (small || ([] : List Nat).any (fun h => load m h .valid_flag = 0)) = small := by simp
  by_cases free : load m curr .valid_flag = 0
  · rw [if_neg (not_not.mpr free)]
    by_cases size : load m curr .package_size = request
    · rw [if_pos size]
      have searched : Searched m request (curr :: r) small _ := .fits (a := []) rfl free size
      rw [here] at searched
      exact ⟨_,rfl,searched⟩
    rw [if_neg size]
    by_cases room : ¬load m curr .package_size < add request sizeofPackage
    · rw [if_pos room]
      have searched : Searched m request (curr :: r) small _ := .found (a := []) rfl free room
      rw [here] at searched
      exact ⟨_,rfl,searched⟩
    rw [if_neg room]
    obtain ⟨result,done,searched⟩ := onward
    have noted : (small || decide (load m curr .valid_flag = 0)) = true := by simp [free]
    rw [noted] at done
    exact ⟨result,done,searched.behind⟩
  · rw [if_pos free]
    obtain ⟨result,done,searched⟩ := onward
    have noted : (small || decide (load m curr .valid_flag = 0)) = small := by simp [free]
    rw [noted] at done
    exact ⟨result,done,searched.behind⟩

theorem search_walks {request : Nat} {r : List Nat} : ∀ {fuel curr : Nat} {small : Bool},
    List.IsChain (fun a b => load m a .next_head = b) (curr :: (r ++ [cache_read_pos m])) → cache_read_pos m ∉ r →
    r.length < fuel → ∃ result, search m request fuel curr small = some result ∧
      Searched m request (curr :: r) small result := by
  induction r with
  | nil =>
    intro fuel curr small way _ enough
    obtain ⟨fuel,rfl⟩ := Nat.exists_eq_succ_of_ne_zero (Nat.ne_of_gt enough)
    have stops : load m curr .next_head = cache_read_pos m := (List.isChain_cons_cons.mp way).1
    refine search_round ⟨.missing,?_,.missing⟩
    rw [if_neg (not_not.mpr stops)]
  | cons next r ih =>
    intro fuel curr small way unread enough
    obtain ⟨fuel,rfl⟩ := Nat.exists_eq_succ_of_ne_zero (Nat.ne_of_gt (Nat.lt_of_le_of_lt (Nat.zero_le _) enough))
    obtain ⟨steps,way⟩ := List.isChain_cons_cons.mp way
    have other : load m curr .next_head ≠ cache_read_pos m := by
      rw [steps]
      exact fun same => unread (same ▸ List.mem_cons_self)
    refine search_round ?_
    rw [if_pos other,steps]
    exact ih way (fun found => unread (List.mem_cons_of_mem next found)) (Nat.lt_of_succ_lt_succ enough)

/-- What taking the package `x` does to the headers; `w` comes behind it. -/
structure Taken (m m' : Memory) (length : Nat) (l : List Nat) (x : Nat) (w : List Nat) : Prop where
  member : x ∈ l
  free : load m x .valid_flag = 0
  tiled : Tiled m' length (replace x (x :: w) l)
  flag : ∀ h ∈ l, load m' h .valid_flag = if h = x then VALID_FLAG else load m h .valid_flag
  rest : ∀ h ∈ w, h ∉ l ∧ load m' h .valid_flag = INVALID_FLAG
  read : cache_read_pos m' = cache_read_pos m
  write : cache_write_pos m' = cache_write_pos m

theorem replace_self (x : Nat) (l : List Nat) : replace x [x] l = l := by
  induction l with
  | nil => rfl
  | cons y l ih =>
    rw [replace,List.flatMap_cons]
    by_cases same : y = x
    · rw [if_pos same,same]
      exact congrArg (x :: ·) ih
    · rw [if_neg same]
      exact congrArg (y :: ·) ih

theorem fits_taken (tiled : Tiled m length l) (member : x ∈ l) (free : load m x .valid_flag = 0) :
    Taken m (store m x .valid_flag VALID_FLAG) length l x [] := by
  refine ⟨member,free,?_,?_,fun h found => absurd found List.not_mem_nil,get_store tiled.spaced member,
    get_store tiled.spaced member⟩
  · rw [replace_self]
    exact tiled.flagged member VALID_FLAG
  · intro h at_h
    rw [load_store tiled.spaced member at_h]
    simp

theorem found_taken {request : Nat} (tiled : Tiled m length l) (member : x ∈ l) (free : load m x .valid_flag = 0)
    (room : request + sizeofPackage ≤ load m x .package_size) :
    Taken m (slice_heads m x request) length l x [x + sizeofPackage + request] := by
  have sliced := slice_heads_sliced tiled member room rfl
  refine ⟨member,free,tiled.sliced member room rfl,sliced.flag,?_,sliced.read,sliced.write⟩
  intro h found
  obtain rfl := List.mem_singleton.mp found
  exact ⟨(tiled.spaced_new member room rfl).2,sliced.new_flag⟩

/-- The positions after an allocation that took `x`. -/
theorem move_positions_words (tiled : Tiled m length l) (member : x ∈ l) (small : Bool) :
    (∀ h ∈ l, ∀ g, load (move_positions m x small) h g = load m h g) ∧
    cache_read_pos (move_positions m x small) =
      (if small = true ∧ cache_read_pos m = cache_write_pos m then x else cache_read_pos m) ∧
    cache_write_pos (move_positions m x small) = load m x .next_head := by
  have spaced := tiled.spaced
  simp only [move_positions,handle_small_free_package_at_tail]
  by_cases moves : small = true ∧ cache_read_pos m = cache_write_pos m
  · rw [if_pos moves.1,if_pos moves.2,if_pos moves]
    refine ⟨fun h at_h g => ?_,?_,?_⟩
    · rw [load_set spaced at_h,load_set spaced at_h]
    · simp [cache_read_pos,get_set]
    · rw [load_set spaced member]
      simp [cache_write_pos,get_set]
  · have still : (if small = true then if cache_read_pos m = cache_write_pos m then set m .curr_read_pos x else m
        else m) = m := by
      split
      · rw [if_neg (fun same => moves ⟨‹_›,same⟩)]
      · rfl
    rw [still,if_neg moves]
    refine ⟨fun h at_h g => load_set spaced at_h,?_,?_⟩
    · simp [cache_read_pos,get_set]
    · simp [cache_write_pos,get_set]

/-- What `ring_buff_alloc` can do when the search goes along `r`. -/
inductive Allocated (m : Memory) (length : Nat) (l r : List Nat) : Option Nat × Memory → Prop
  | refused : Allocated m length l r (none,m)
  | taken {a b w : List Nat} {x : Nat} {m' : Memory} (vacant : cache_is_full m = false) (split : r = a ++ x :: b)
      (taken : Taken m m' length l x w) :
      Allocated m length l r (some (x + sizeofPackage),
        move_positions m' x (a.any (fun h => load m h .valid_flag = 0)))

theorem mem_replace {w : List Nat} (member : x ∈ l) : x ∈ replace x (x :: w) l := by
  rw [replace,List.mem_flatMap]
  exact ⟨x,member,by rw [if_pos rfl]; exact List.mem_cons_self⟩

theorem Taken.body {m' : Memory} {w : List Nat} {small : Bool} (taken : Taken m m' length l x w) :
    load (move_positions m' x small) x .package_offset = x + sizeofPackage := by
  have member := mem_replace (w := w) taken.member
  rw [(move_positions_words taken.tiled member small).1 x member]
  exact taken.tiled.offset x member

/-- The buffer is read at the front of `s ++ r` and written at the front of `r`; the search goes along `r`. -/
theorem Tiled.ahead {r s : List Nat} (tiled : Tiled m length l) (rotated : l.IsRotated (s ++ r))
    (at_read : (s ++ r).head? = some (cache_read_pos m)) (at_write : r.head? = some (cache_write_pos m)) :
    ∃ t, r = cache_write_pos m :: t ∧
      List.IsChain (fun a b => load m a .next_head = b) (cache_write_pos m :: (t ++ [cache_read_pos m])) ∧
      cache_read_pos m ∉ t ∧ t.length < modulus := by
  obtain ⟨t,rfl⟩ := List.head?_eq_some_iff.mp at_write
  have way := (tiled.circle.isRotated rotated).way (List.cons_ne_nil _ _)
  have ends : (s ++ cache_write_pos m :: t).take 1 = [cache_read_pos m] := by
    rw [List.take_one,at_read]
    rfl
  rw [ends] at way
  have distinct : (s ++ cache_write_pos m :: t).Nodup := rotated.nodup_iff.mp tiled.distinct
  refine ⟨t,rfl,way,?_,?_⟩
  · intro found
    cases s with
    | nil =>
      have same : cache_write_pos m = cache_read_pos m := Option.some.inj at_read
      exact (List.nodup_cons.mp distinct).1 (same ▸ found)
    | cons first s =>
      obtain rfl : first = cache_read_pos m := Option.some.inj at_read
      exact (List.nodup_cons.mp distinct).1 (List.mem_append_right s (List.mem_cons_of_mem _ found))
  · have few := tiled.few
    have word := tiled.word
    rw [rotated.perm.length_eq,List.length_append,List.length_cons] at few
    omega

theorem alloc_allocated {request : Nat} {r s : List Nat} (tiled : Tiled m length l) (rotated : l.IsRotated (s ++ r))
    (at_read : (s ++ r).head? = some (cache_read_pos m)) (at_write : r.head? = some (cache_write_pos m))
    (room : ALIGN request sizeofLong + sizeofPackage < modulus) :
    ∃ result, ring_buff_alloc m request = some result ∧ Allocated m length l r result := by
  rw [ring_buff_alloc]
  by_cases full : cache_is_full m = true
  · simp only [full,if_true]
    exact ⟨_,rfl,.refused⟩
  have vacant : cache_is_full m = false := Bool.eq_false_iff.mpr full
  obtain ⟨t,rfl,way,unread,enough⟩ := tiled.ahead rotated at_read at_write
  have inside : ∀ {h}, h ∈ cache_write_pos m :: t → h ∈ l :=
    fun found => rotated.mem_iff.mpr (List.mem_append_right s found)
  obtain ⟨result,done,searched⟩ : ∃ result, search m (ALIGN request sizeofLong) modulus (cache_write_pos m) false =
      some result ∧ Searched m (ALIGN request sizeofLong) (cache_write_pos m :: t) false result :=
    search_walks way unread enough
  simp only [vacant,done]
  cases searched with
  | missing => exact ⟨_,rfl,.refused⟩
  | fits split free size =>
    rename_i a b x
    have member : x ∈ l := inside (by rw [split]; simp)
    have taken := fits_taken tiled member free
    refine ⟨_,rfl,?_⟩
    rw [taken.body]
    exact .taken vacant split taken
  | found split free large =>
    rename_i a b x
    have member : x ∈ l := inside (by rw [split]; simp)
    rw [add_exact room,Nat.not_lt] at large
    have taken := found_taken tiled member free large
    refine ⟨_,rfl,?_⟩
    dsimp only [slice_buff]
    rw [taken.body]
    exact .taken vacant split taken

/-! ### Reading -/

theorem scan_walks {r : List Nat} : ∀ {fuel curr : Nat},
    List.IsChain (fun a b => load m a .next_head = b) (curr :: (r ++ [cache_write_pos m])) → cache_write_pos m ∉ r →
    r.length < fuel →
    scan m fuel (load m curr .next_head) = some (r.find? (fun h => load m h .valid_flag = VALID_FLAG)) := by
  induction r with
  | nil =>
    intro fuel curr way _ enough
    obtain ⟨fuel,rfl⟩ := Nat.exists_eq_succ_of_ne_zero (Nat.ne_of_gt enough)
    have stops : load m curr .next_head = cache_write_pos m := (List.isChain_cons_cons.mp way).1
    rw [stops,scan,if_neg (not_not.mpr rfl)]
    rfl
  | cons next r ih =>
    intro fuel curr way unwritten enough
    obtain ⟨fuel,rfl⟩ := Nat.exists_eq_succ_of_ne_zero (Nat.ne_of_gt (Nat.lt_of_le_of_lt (Nat.zero_le _) enough))
    obtain ⟨steps,way⟩ := List.isChain_cons_cons.mp way
    have other : next ≠ cache_write_pos m := fun same => unwritten (same ▸ List.mem_cons_self)
    rw [steps,scan,if_pos other]
    by_cases valid : load m next .valid_flag = VALID_FLAG
    · rw [if_pos valid,List.find?_cons_of_pos (by simpa using valid)]
    · rw [if_neg valid,List.find?_cons_of_neg (by simpa using valid)]
      exact ih way (fun found => unwritten (List.mem_cons_of_mem next found)) (Nat.lt_of_succ_lt_succ enough)

/-- The outcome of a read; `t` lies between the two positions. -/
theorem read_outcome {t r : List Nat} (tiled : Tiled m length l) (rotated : l.IsRotated (cache_read_pos m :: t ++ r))
    (at_write : cache_write_pos m = r.headD (cache_read_pos m)) {m' : Memory}
    (moved : m' = set m .curr_read_pos ((t.find? (fun h => load m h .valid_flag = VALID_FLAG)).getD (cache_write_pos m))) :
    ring_cache_read_package m =
      some (if load m (cache_read_pos m) .valid_flag = VALID_FLAG then
        (some (cache_read_pos m),store m' (cache_read_pos m) .valid_flag BUSY_FLAG) else (none,m')) := by
  have distinct : (cache_read_pos m :: (t ++ r)).Nodup := rotated.nodup_iff.mp tiled.distinct
  have way := (tiled.circle.isRotated rotated).rotate.way (List.cons_ne_nil _ _)
  have ends : (r ++ cache_read_pos m :: t).take 1 = [cache_write_pos m] := by
    rw [at_write]
    cases r <;> rfl
  rw [ends] at way
  have unwritten : cache_write_pos m ∉ t := by
    rw [at_write]
    intro found
    cases r with
    | nil => exact (List.nodup_cons.mp distinct).1 (List.mem_append_left _ found)
    | cons b r => exact List.disjoint_of_nodup_append (List.nodup_cons.mp distinct).2 found List.mem_cons_self
  have enough : t.length < modulus := by
    have few := tiled.few
    have word := tiled.word
    rw [rotated.perm.length_eq,List.length_append,List.length_cons] at few
    omega
  simp only [ring_cache_read_package]
  rw [scan_walks way unwritten enough]
  subst moved
  dsimp only
  rw [load_set tiled.spaced tiled.read]
  split <;> rfl

/-! ### Freeing -/

/-- Free packages that take over the free ones behind them, one after the other. -/
inductive Merges : Memory → List Nat → Memory → List Nat → Prop
  | done {m : Memory} {l : List Nat} : Merges m l m l
  | merge {m m' : Memory} {p q l' : List Nat} {a b : Nat} (free_a : load m a .valid_flag = 0)
      (free_b : load m b .valid_flag = 0) (more : Merges (merge m a b) (p ++ a :: q) m' l') :
      Merges m (p ++ a :: b :: q) m' l'

theorem Merges.tiled {l' : List Nat} (merges : Merges m l m' l') (tiled : Tiled m length l) : Tiled m' length l' := by
  induction merges with
  | done => exact tiled
  | merge _ _ _ ih => exact ih tiled.merged

/-- A package that is in use stays. -/
theorem Merges.kept {l' : List Nat} (merges : Merges m l m' l') (tiled : Tiled m length l) (member : h ∈ l)
    (used : load m h .valid_flag ≠ 0) : h ∈ l' ∧ load m' h .valid_flag = load m h .valid_flag := by
  induction merges with
  | done => exact ⟨member,rfl⟩
  | merge free_a free_b more ih =>
    have same := (merge_merged tiled).flag h member
    have other : h ≠ _ := fun eq => used (eq ▸ free_b)
    rw [← same] at used ⊢
    refine ih tiled.merged ?_ used
    simp only [List.mem_append,List.mem_cons] at member ⊢
    tauto

theorem merge_next_merges {p q : List Nat} {a b : Nat} (free : load m a .valid_flag = 0) :
    ∃ l', Merges m (p ++ a :: b :: q) (merge_next m a b) l' := by
  rw [merge_next]
  by_cases next_free : load m b .valid_flag = 0
  · rw [if_pos next_free]
    exact ⟨_,.merge free next_free .done⟩
  · rw [if_neg next_free]
    exact ⟨_,.done⟩

/-- What the freed package `h` and its neighbours become; the buffer has other packages. -/
theorem neighbours_merge (tiled : Tiled m length l) (member : h ∈ l) (free : load m h .valid_flag = 0)
    (others : load m h .next_head ≠ h) : ∃ l', Merges m l (merge_neighbours m h) l' := by
  have distinct := tiled.distinct
  have circle := tiled.circle
  obtain ⟨t,rfl⟩ := List.head?_eq_some_iff.mp tiled.first
  rcases List.mem_cons.mp member with rfl | behind
  · -- the first package: only the next one can be merged
    cases t with
    | nil => exact absurd circle.next_first others
    | cons b q =>
      have next : load m cache_head_ring_package .next_head = b := circle.next_first
      have only : merge_neighbours m cache_head_ring_package = merge_next m cache_head_ring_package b := by
        rw [merge_neighbours,next]
        exact if_pos rfl
      rw [only]
      exact merge_next_merges (p := []) free
  · have differs : h ≠ cache_head_ring_package := fun same => (List.nodup_cons.mp distinct).1 (same ▸ behind)
    obtain ⟨p,q,rfl⟩ := List.append_of_mem behind
    obtain ⟨p',a,before⟩ := (List.eq_nil_or_concat' (cache_head_ring_package :: p)).resolve_left (List.cons_ne_nil _ _)
    have shape : cache_head_ring_package :: (p ++ h :: q) = p' ++ a :: h :: q := by
      rw [← List.cons_append,before]
      simp
    have next : load m h .next_head = q.headD cache_head_ring_package := by
      have turned : Circled (load m · .next_head) (load m · .prev_head) (h :: (q ++ cache_head_ring_package :: p)) :=
        Circled.rotate (r := cache_head_ring_package :: p) (s := h :: q) circle
      rw [turned.next_first]
      cases q <;> rfl
    rw [shape] at tiled circle ⊢
    have prev : load m h .prev_head = a := Circled.prev_second (l := h :: (q ++ p')) circle.rotate
    simp only [merge_neighbours]
    rw [if_neg differs,prev,next]
    cases q with
    | nil =>
      rw [if_pos (show ([] : List Nat).headD cache_head_ring_package = cache_head_ring_package from rfl)]
      by_cases prev_free : load m a .valid_flag = 0
      · rw [if_pos prev_free]
        exact ⟨_,.merge prev_free free .done⟩
      · rw [if_neg prev_free]
        exact ⟨_,.done⟩
    | cons n q =>
      have inner : (n :: q).headD cache_head_ring_package ≠ cache_head_ring_package := by
        intro same
        have same : n = cache_head_ring_package := same
        exact (List.nodup_cons.mp distinct).1 (by simp [same])
      rw [if_neg inner]
      by_cases prev_free : load m a .valid_flag = 0
      · rw [if_pos prev_free,if_pos prev_free]
        have still : load (merge m a h) a .valid_flag = 0 := by
          rw [(merge_merged tiled).flag a (by simp)]
          exact prev_free
        obtain ⟨l',merges⟩ := merge_next_merges (p := p') (b := n) (q := q) still
        exact ⟨l',.merge prev_free free merges⟩
      · rw [if_neg prev_free,if_neg prev_free]
        have regrouped : p' ++ a :: h :: n :: q = (p' ++ [a]) ++ h :: n :: q := by simp
        rw [regrouped]
        exact merge_next_merges free

/-- The flag is cleared, and what can be merged is. -/
theorem free_merges (tiled : Tiled m length l) (member : h ∈ l) (used : load m h .valid_flag ≠ 0)
    (others : load m h .next_head ≠ h) :
    ∃ l', Merges (store m h .valid_flag INVALID_FLAG) l (ring_buff_free m (h + sizeofPackage)) l' := by
  have inside := tiled.within member
  have word := tiled.word
  have package : sub (h + sizeofPackage) sizeofPackage = h := by
    rw [sub_exact (Nat.le_add_left ..) (by omega)]
    exact Nat.add_sub_cancel ..
  have free : load (store m h .valid_flag INVALID_FLAG) h .valid_flag = 0 := by
    rw [load_store tiled.spaced member member]
    simp [INVALID_FLAG]
  have next : load (store m h .valid_flag INVALID_FLAG) h .next_head = load m h .next_head := by
    rw [load_store tiled.spaced member member]
    simp
  simp only [ring_buff_free]
  rw [package,if_neg used]
  exact neighbours_merge (tiled.flagged member INVALID_FLAG) member free (next ▸ others)

/-- A package whose `package_offset` is right finds its cache. -/
theorem free_package_found (tiled : Tiled m length l) (member : h ∈ l) :
    ring_buff_free_package m h = some (ring_buff_free m (h + sizeofPackage)) := by
  have inside := tiled.within member
  have word := tiled.word
  have body : add h sizeofPackage = h + sizeofPackage := add_exact (by omega)
  have cache : get_cache_head_by_ring_pkt m h = 0 := by
    rw [get_cache_head_by_ring_pkt,tiled.offset h member]
    have sum : h + (modulus - (h + sizeofPackage)) + sizeofPackage = modulus := by omega
    rw [sub,add,Nat.mod_add_mod,Nat.mod_eq_of_lt (show h + sizeofPackage < modulus by omega),sum,Nat.mod_self]
  rw [ring_buff_free_package,if_pos cache,body]

end Shapes

/-! ### Runs -/

/-- The memory, the bodies that were handed out and not freed, all that were handed out, all whose
    packages were read, and those of them that are not freed. -/
structure State where
  memory : Memory
  live : List Nat
  allocated : List Nat
  reads : List Nat
  held : List Nat

inductive Act
  | alloc (length : Nat)
  | read
  | free (buff : Nat)

/-- One call; `none` when it never ends, or frees what is not live. -/
def step (s : State) : Act → Option State
  | .alloc length => (ring_buff_alloc s.memory length).map (fun result => match result with
    | (none,memory) => { s with memory }
    | (some buff,memory) => { s with memory, live := buff :: s.live, allocated := s.allocated ++ [buff] })
  | .read => (ring_cache_read_package s.memory).map (fun result => match result with
    | (none,memory) => { s with memory }
    | (some package,memory) => { s with
        memory, reads := s.reads ++ [package + sizeofPackage], held := (package + sizeofPackage) :: s.held })
  | .free buff => if buff ∈ s.live then some { s with
      memory := ring_buff_free s.memory buff, live := s.live.erase buff, held := s.held.erase buff } else none

/-- A buffer behind `ring_buff_head_init`. -/
structure Started (length : Nat) (s : State) : Prop where
  memory : ∃ m, s.memory = ring_buff_head_init m length
  fits : sizeofCache + sizeofPackage ≤ length
  word : length < modulus
  live : s.live = []
  allocated : s.allocated = []
  reads : s.reads = []
  held : s.held = []

/-- The request with its header is a word, and the package that is freed is not the only one. -/
def Tame (s : State) : Act → Prop
  | .alloc length => ALIGN length sizeofLong + sizeofPackage < modulus
  | .read => True
  | .free buff => load s.memory (sub buff sizeofPackage) .next_head ≠ sub buff sizeofPackage

instance (s : State) (act : Act) : Decidable (Tame s act) :=
  match act with
  | .alloc _ => inferInstanceAs (Decidable (_ < _))
  | .read => inferInstanceAs (Decidable True)
  | .free _ => inferInstanceAs (Decidable (_ ≠ _))

inductive TameRun (start : State) : State → Prop
  | start : TameRun start start
  | act {s s' : State} {act : Act} (run : TameRun start s) (tame : Tame s act) (done : step s act = some s') :
      TameRun start s'

/-- The size of the package with the body `buff`. -/
def bodySize (m : Memory) (buff : Nat) : Nat := load m (buff - sizeofPackage) .package_size

/-- From the first head on the packages tile the buffer in address order, the last one is linked to
    the first one, and the bodies of live packages are in the buffer and apart. -/
structure Structured (length : Nat) (s : State) (l : List Nat) : Prop where
  first : l.head? = some cache_head_ring_package
  tiles : List.IsChain (fun a b => b = a + sizeofPackage + load s.memory a .package_size) (l ++ [length])
  links : List.IsChain (fun a b => load s.memory a .next_head = b) (l ++ [cache_head_ring_package])
  inverse : ∀ h ∈ l, load s.memory (load s.memory h .next_head) .prev_head = h ∧
    load s.memory (load s.memory h .prev_head) .next_head = h
  sum : (l.map (fun h => load s.memory h .package_size + sizeofPackage)).sum = length - sizeofCache
  offset : ∀ h ∈ l, load s.memory h .package_offset = h + sizeofPackage
  read : cache_read_pos s.memory ∈ l
  write : cache_write_pos s.memory ∈ l
  inside : ∀ buff ∈ s.live, sizeofCache + sizeofPackage ≤ buff ∧ buff + bodySize s.memory buff ≤ length
  disjoint : s.live.Pairwise (fun a b => a + bodySize s.memory a ≤ b ∨ b + bodySize s.memory b ≤ a)

/-- The live packages are those whose flag is set. -/
structure Inv (length : Nat) (s : State) (l : List Nat) : Prop where
  tiled : Tiled s.memory length l
  nodup : s.live.Nodup
  live : ∀ buff, buff ∈ s.live ↔ ∃ h ∈ l, buff = h + sizeofPackage ∧ load s.memory h .valid_flag ≠ 0

section Runs
variable {start s s' : State} {act : Act} {length : Nat} {l : List Nat}

theorem tiles_sum {m : Memory} {l : List Nat} : ∀ {first : Nat}, l.head? = some first →
    List.IsChain (fun a b => b = a + sizeofPackage + load m a .package_size) (l ++ [length]) →
    (l.map (fun h => load m h .package_size + sizeofPackage)).sum + first = length := by
  induction l with
  | nil =>
    intro first front
    cases front
  | cons a l ih =>
    intro first front tiles
    obtain rfl : a = first := Option.some.inj front
    obtain ⟨here,rest⟩ := List.isChain_cons.mp tiles
    rw [List.map_cons,List.sum_cons]
    cases l with
    | nil =>
      have ends := here length rfl
      simp
      omega
    | cons b l =>
      have next : b = a + sizeofPackage + load m a .package_size := here b rfl
      have sum := ih rfl rest
      omega

theorem Inv.structured (inv : Inv length s l) : Structured length s l := by
  have tiled := inv.tiled
  have at_live : ∀ {buff}, buff ∈ s.live → ∃ h ∈ l, buff = h + sizeofPackage ∧ bodySize s.memory buff =
      load s.memory h .package_size := by
    intro buff member
    obtain ⟨h,at_h,rfl,_⟩ := (inv.live buff).mp member
    refine ⟨h,at_h,rfl,?_⟩
    rw [bodySize,Nat.add_sub_cancel]
  refine ⟨tiled.first,tiled.tiles,?_,?_,?_,tiled.offset,tiled.read,tiled.write,?_,?_⟩
  · have way := Circled.way (s := []) (r := l) tiled.circle (fun none => by rw [none] at tiled; cases tiled.first)
    have ends : ([] ++ l).take 1 = [cache_head_ring_package] := by
      rw [List.nil_append,List.take_one,tiled.first]
      rfl
    rwa [ends] at way
  · exact fun h member => ⟨tiled.circle.prev_next member,(tiled.circle.next_prev member).1⟩
  · have sum := tiles_sum tiled.first tiled.tiles
    have front : sizeofCache = cache_head_ring_package := rfl
    omega
  · intro buff member
    obtain ⟨h,at_h,rfl,size⟩ := at_live member
    have low := tiled.low at_h
    have within := tiled.within at_h
    rw [size]
    omega
  · refine inv.nodup.imp_of_mem ?_
    intro a b at_a at_b differ
    obtain ⟨h,at_h,rfl,size_a⟩ := at_live at_a
    obtain ⟨k,at_k,rfl,size_b⟩ := at_live at_b
    rw [size_a,size_b]
    rcases tiled.apart at_h at_k (fun same => differ (by rw [same])) with before | behind <;> omega

/-! ### Each call keeps the invariant -/

theorem mem_replace_iff {x h : Nat} {w : List Nat} (member : x ∈ l) : h ∈ replace x (x :: w) l ↔ h ∈ l ∨ h ∈ w := by
  rw [replace,List.mem_flatMap]
  constructor
  · rintro ⟨y,at_y,found⟩
    split at found
    · rename_i same
      rcases List.mem_cons.mp found with rfl | behind
      · exact .inl member
      · exact .inr behind
    · rw [List.mem_singleton.mp found]
      exact .inl at_y
  · rintro (old | behind)
    · by_cases same : h = x
      · exact ⟨x,member,by rw [if_pos rfl,same]; exact List.mem_cons_self⟩
      · exact ⟨h,old,by rw [if_neg same]; exact List.mem_singleton_self h⟩
    · exact ⟨x,member,by rw [if_pos rfl]; exact List.mem_cons_of_mem x behind⟩

/-- The packages from the one to be read on; the second part begins with the one to be written. -/
theorem Tiled.split {m : Memory} (tiled : Tiled m length l) : ∃ s r : List Nat, l.IsRotated (s ++ r) ∧
    (s ++ r).head? = some (cache_read_pos m) ∧ r.head? = some (cache_write_pos m) := by
  obtain ⟨t,rotated⟩ := front tiled.read
  obtain ⟨s,r,split⟩ := List.append_of_mem (rotated.mem_iff.mp tiled.write)
  rw [split] at rotated
  exact ⟨s,cache_write_pos m :: r,rotated,by rw [← split]; rfl,rfl⟩

theorem Taken.moved {m m' : Memory} {x : Nat} {w : List Nat} (taken : Taken m m' length l x w) (small : Bool) :
    Tiled (move_positions m' x small) length (replace x (x :: w) l) := by
  have member := mem_replace (w := w) taken.member
  obtain ⟨loads,read,write⟩ := move_positions_words taken.tiled member small
  refine taken.tiled.congr (fun h at_h g _ => loads h at_h g) ?_ ?_
  · rw [read]
    split
    · exact member
    · exact taken.tiled.read
  · rw [write]
    exact taken.tiled.circle.next_mem member

/-- The flags after an allocation that took `x`. -/
theorem Taken.flags {m m' : Memory} {x : Nat} {w : List Nat} (taken : Taken m m' length l x w) (small : Bool) :
    (∀ h ∈ l, load (move_positions m' x small) h .valid_flag = if h = x then VALID_FLAG else load m h .valid_flag) ∧
    ∀ h ∈ w, load (move_positions m' x small) h .valid_flag = INVALID_FLAG := by
  obtain ⟨loads,_⟩ := move_positions_words taken.tiled (mem_replace (w := w) taken.member) small
  constructor
  · intro h at_h
    rw [loads h ((mem_replace_iff taken.member).mpr (.inl at_h))]
    exact taken.flag h at_h
  · intro h at_h
    rw [loads h ((mem_replace_iff taken.member).mpr (.inr at_h))]
    exact (taken.rest h at_h).2

theorem taken_inv {m' : Memory} {x : Nat} {w : List Nat} (inv : Inv length s l) (taken : Taken s.memory m' length l x w)
    (small : Bool) : Inv length { s with
      memory := move_positions m' x small, live := (x + sizeofPackage) :: s.live,
      allocated := s.allocated ++ [x + sizeofPackage] } (replace x (x :: w) l) := by
  obtain ⟨flags,rest⟩ := taken.flags small
  have set_flag : VALID_FLAG ≠ 0 := by decide
  refine ⟨taken.moved small,List.nodup_cons.mpr ⟨?_,inv.nodup⟩,?_⟩
  · intro member
    obtain ⟨h,at_h,same,used⟩ := (inv.live _).mp member
    rw [← Nat.add_right_cancel same] at used
    exact used taken.free
  · intro buff
    rw [List.mem_cons,inv.live]
    constructor
    · rintro (rfl | ⟨h,at_h,rfl,used⟩)
      · refine ⟨x,mem_replace taken.member,rfl,?_⟩
        show load (move_positions m' x small) x .valid_flag ≠ 0
        rw [flags x taken.member,if_pos rfl]
        exact set_flag
      · refine ⟨h,(mem_replace_iff taken.member).mpr (.inl at_h),rfl,?_⟩
        show load (move_positions m' x small) h .valid_flag ≠ 0
        rw [flags h at_h]
        split
        · exact set_flag
        · exact used
    · rintro ⟨h,at_h,rfl,used⟩
      replace used : load (move_positions m' x small) h .valid_flag ≠ 0 := used
      rcases (mem_replace_iff taken.member).mp at_h with old | new
      · rw [flags h old] at used
        by_cases same : h = x
        · exact .inl (by rw [same])
        · rw [if_neg same] at used
          exact .inr ⟨h,old,rfl,used⟩
      · exact absurd (rest h new) used

/-- The packages from the one to be read on; the second part begins with the one to be written. -/
theorem Tiled.split_behind {m : Memory} (tiled : Tiled m length l) : ∃ t r : List Nat,
    l.IsRotated (cache_read_pos m :: t ++ r) ∧ cache_write_pos m = r.headD (cache_read_pos m) := by
  obtain ⟨s,r,rotated,at_read,at_write⟩ := tiled.split
  cases s with
  | nil =>
    obtain ⟨t,rfl⟩ := List.head?_eq_some_iff.mp at_write
    have same : cache_write_pos m = cache_read_pos m := Option.some.inj at_read
    exact ⟨t,[],by simpa [same] using rotated,same⟩
  | cons first t =>
    obtain rfl : first = cache_read_pos m := Option.some.inj at_read
    obtain ⟨u,rfl⟩ := List.head?_eq_some_iff.mp at_write
    exact ⟨t,cache_write_pos m :: u,rotated,rfl⟩

/-- Moving the position to be read, and setting a flag that was set. -/
theorem Inv.moved {position : Nat} (inv : Inv length s l) (inside : position ∈ l) :
    Inv length { s with memory := set s.memory .curr_read_pos position } l := by
  have loads : ∀ h ∈ l, ∀ g, load (set s.memory .curr_read_pos position) h g = load s.memory h g :=
    fun h at_h g => load_set inv.tiled.spaced at_h
  refine ⟨inv.tiled.congr (fun h at_h g _ => loads h at_h g) ?_ ?_,inv.nodup,?_⟩
  · rw [cache_read_pos,get_set,if_pos rfl]
    exact inside
  · rw [cache_write_pos,get_set,if_neg (by decide)]
    exact inv.tiled.write
  · intro buff
    rw [inv.live]
    constructor
    · rintro ⟨h,at_h,rfl,used⟩
      exact ⟨h,at_h,rfl,by rw [loads h at_h]; exact used⟩
    · rintro ⟨h,at_h,rfl,used⟩
      exact ⟨h,at_h,rfl,by rw [← loads h at_h]; exact used⟩

theorem Inv.busy {h : Nat} (inv : Inv length s l) (member : h ∈ l) (valid : load s.memory h .valid_flag = VALID_FLAG)
    (reads held : List Nat) :
    Inv length { s with memory := store s.memory h .valid_flag BUSY_FLAG, reads, held } l := by
  refine ⟨inv.tiled.flagged member BUSY_FLAG,inv.nodup,?_⟩
  have same : ∀ k ∈ l, (load (store s.memory h .valid_flag BUSY_FLAG) k .valid_flag ≠ 0 ↔
      load s.memory k .valid_flag ≠ 0) := by
    intro k at_k
    rw [load_store inv.tiled.spaced member at_k]
    by_cases here : k = h
    · rw [if_pos ⟨here,rfl⟩,here,valid]
      decide
    · rw [if_neg (fun both => here both.1)]
  intro buff
  rw [inv.live]
  constructor
  · rintro ⟨k,at_k,rfl,used⟩
    exact ⟨k,at_k,rfl,(same k at_k).mpr used⟩
  · rintro ⟨k,at_k,rfl,used⟩
    exact ⟨k,at_k,rfl,(same k at_k).mp used⟩

/-- Merges drop only packages that are free. -/
theorem Merges.used {m m' : Memory} {l l' : List Nat} (merges : Merges m l m' l') (tiled : Tiled m length l) (h : Nat) :
    h ∈ l' ∧ load m' h .valid_flag ≠ 0 ↔ h ∈ l ∧ load m h .valid_flag ≠ 0 := by
  induction merges with
  | done => rfl
  | merge free_a free_b more ih =>
    rename_i m m' p q l' a b
    rw [ih tiled.merged]
    have merged := merge_merged tiled
    constructor
    · rintro ⟨member,used⟩
      have inside : h ∈ p ++ a :: b :: q := by
        simp only [List.mem_append,List.mem_cons] at member ⊢
        tauto
      rw [merged.flag h inside] at used
      exact ⟨inside,used⟩
    · rintro ⟨member,used⟩
      have other : h ≠ b := fun same => used (same ▸ free_b)
      rw [merged.flag h member]
      refine ⟨?_,used⟩
      simp only [List.mem_append,List.mem_cons] at member ⊢
      tauto

/-- Where a live body's package is. -/
theorem Inv.package {buff : Nat} (inv : Inv length s l) (live : buff ∈ s.live) :
    ∃ h ∈ l, buff = h + sizeofPackage ∧ sub buff sizeofPackage = h ∧ load s.memory h .valid_flag ≠ 0 := by
  obtain ⟨h,at_h,rfl,used⟩ := (inv.live buff).mp live
  have inside := inv.tiled.within at_h
  have word := inv.tiled.word
  refine ⟨h,at_h,rfl,?_,used⟩
  rw [sub_exact (Nat.le_add_left ..) (by omega)]
  exact Nat.add_sub_cancel ..

theorem free_inv {buff : Nat} (inv : Inv length s l) (live : buff ∈ s.live) (tame : Tame s (.free buff)) :
    ∃ l', Inv length { s with
      memory := ring_buff_free s.memory buff, live := s.live.erase buff, held := s.held.erase buff } l' := by
  obtain ⟨h,at_h,rfl,package,used⟩ := inv.package live
  have others : load s.memory h .next_head ≠ h := package ▸ tame
  obtain ⟨l',merges⟩ := free_merges inv.tiled at_h used others
  have cleared := inv.tiled.flagged at_h INVALID_FLAG
  refine ⟨l',merges.tiled cleared,inv.nodup.erase _,?_⟩
  intro buff
  rw [inv.nodup.mem_erase_iff,inv.live]
  constructor
  · rintro ⟨other,k,at_k,rfl,used_k⟩
    have differ : k ≠ h := fun same => other (by rw [same])
    have still : load (store s.memory h .valid_flag INVALID_FLAG) k .valid_flag ≠ 0 := by
      rw [load_store inv.tiled.spaced at_h at_k,if_neg (fun both => differ both.1)]
      exact used_k
    obtain ⟨at_k',used'⟩ := (merges.used cleared k).mpr ⟨at_k,still⟩
    exact ⟨k,at_k',rfl,used'⟩
  · rintro ⟨k,at_k',rfl,used'⟩
    obtain ⟨at_k,still⟩ := (merges.used cleared k).mp ⟨at_k',used'⟩
    rw [load_store inv.tiled.spaced at_h at_k] at still
    have differ : k ≠ h := by
      rintro rfl
      rw [if_pos ⟨rfl,rfl⟩] at still
      exact still rfl
    rw [if_neg (fun both => differ both.1)] at still
    exact ⟨fun same => differ (Nat.add_right_cancel same),k,at_k,rfl,still⟩

theorem read_inv (inv : Inv length s l) : ∃ result, step s .read = some result ∧ Inv length result l := by
  obtain ⟨t,r,rotated,at_write⟩ := inv.tiled.split_behind
  have outcome := read_outcome inv.tiled rotated at_write rfl
  have inside : (t.find? (fun h => load s.memory h .valid_flag = VALID_FLAG)).getD (cache_write_pos s.memory) ∈ l := by
    cases found : t.find? (fun h => load s.memory h .valid_flag = VALID_FLAG) with
    | none => exact inv.tiled.write
    | some h =>
      refine rotated.mem_iff.mpr (List.mem_append_left r (List.mem_cons_of_mem _ ?_))
      exact List.mem_of_find?_eq_some found
  have moved := inv.moved inside
  rw [step,outcome]
  by_cases valid : load s.memory (cache_read_pos s.memory) .valid_flag = VALID_FLAG
  · rw [if_pos valid]
    refine ⟨_,rfl,moved.busy inv.tiled.read ?_ _ _⟩
    show load (set s.memory _ _) _ _ = _
    rw [load_set inv.tiled.spaced inv.tiled.read]
    exact valid
  · rw [if_neg valid]
    exact ⟨_,rfl,moved⟩

theorem alloc_inv {request : Nat} (inv : Inv length s l) (tame : Tame s (.alloc request)) :
    ∃ result l', step s (.alloc request) = some result ∧ Inv length result l' := by
  obtain ⟨before,r,rotated,at_read,at_write⟩ := inv.tiled.split
  obtain ⟨⟨result,memory⟩,done,allocated⟩ := alloc_allocated inv.tiled rotated at_read at_write tame
  rw [step,done]
  cases allocated with
  | refused => exact ⟨_,l,rfl,inv⟩
  | taken vacant split taken => exact ⟨_,_,rfl,taken_inv inv taken _⟩

theorem act_inv (inv : Inv length s l) (tame : Tame s act) (done : step s act = some s') : ∃ l', Inv length s' l' := by
  cases act with
  | alloc request =>
    obtain ⟨result,l',stepped,kept⟩ := alloc_inv inv tame
    rw [stepped] at done
    obtain rfl := Option.some.inj done
    exact ⟨l',kept⟩
  | read =>
    obtain ⟨result,stepped,kept⟩ := read_inv inv
    rw [stepped] at done
    obtain rfl := Option.some.inj done
    exact ⟨l,kept⟩
  | free buff =>
    rw [step] at done
    split at done
    · obtain rfl := Option.some.inj done
      exact free_inv inv ‹_› tame
    · cases done

/-- The words behind `ring_buff_head_init`. -/
theorem init_words (m : Memory) (fits : sizeofCache + sizeofPackage ≤ length) (word : length < modulus) :
    Tiled (ring_buff_head_init m length) length [cache_head_ring_package] ∧
    load (ring_buff_head_init m length) cache_head_ring_package .valid_flag = INVALID_FLAG ∧
    cache_read_pos (ring_buff_head_init m length) = cache_head_ring_package ∧
    cache_write_pos (ring_buff_head_init m length) = cache_head_ring_package := by
  have member : cache_head_ring_package ∈ [cache_head_ring_package] := List.mem_singleton_self _
  have spaced : Spaced [cache_head_ring_package] := by
    refine ⟨fun p at_p => ?_,fun p at_p q at_q differ => ?_⟩
    · rw [List.mem_singleton.mp at_p]
      exact Nat.le_refl _
    · exact absurd ((List.mem_singleton.mp at_p).trans (List.mem_singleton.mp at_q).symm) differ
  have read : cache_read_pos (ring_buff_head_init m length) = cache_head_ring_package := by
    simp [cache_read_pos,ring_buff_head_init,get_store spaced member,get_set]
    rfl
  have write : cache_write_pos (ring_buff_head_init m length) = cache_head_ring_package := by
    simp [cache_write_pos,ring_buff_head_init,get_store spaced member,get_set]
    rfl
  have flag : load (ring_buff_head_init m length) cache_head_ring_package .valid_flag = INVALID_FLAG := by
    simp [ring_buff_head_init,load_store spaced member member]
    rfl
  have next : load (ring_buff_head_init m length) cache_head_ring_package .next_head = cache_head_ring_package := by
    simp [ring_buff_head_init,load_store spaced member member]
    rfl
  have prev : load (ring_buff_head_init m length) cache_head_ring_package .prev_head = cache_head_ring_package := by
    simp [ring_buff_head_init,load_store spaced member member]
    rfl
  have offset : load (ring_buff_head_init m length) cache_head_ring_package .package_offset =
      cache_head_ring_package + sizeofPackage := by
    simp [ring_buff_head_init,load_store spaced member member]
    rfl
  have size : load (ring_buff_head_init m length) cache_head_ring_package .package_size =
      length - sizeofPackage - sizeofCache := by
    have first : sub length sizeofPackage = length - sizeofPackage := sub_exact (by omega) word
    have second : sub (length - sizeofPackage) sizeofCache = length - sizeofPackage - sizeofCache :=
      sub_exact (by omega) (by omega)
    simp [ring_buff_head_init,load_store spaced member member,first,second]
  refine ⟨⟨rfl,?_,?_,?_,?_,?_,word⟩,flag,read,write⟩
  · refine List.isChain_pair.mpr ?_
    rw [size]
    have front : sizeofCache = cache_head_ring_package := rfl
    omega
  · exact List.isChain_pair.mpr ⟨next,prev⟩
  · intro h at_h
    rw [List.mem_singleton.mp at_h]
    exact offset
  · rw [read]
    exact member
  · rw [write]
    exact member

theorem started_inv (started : Started length start) : Inv length start [cache_head_ring_package] := by
  obtain ⟨m,memory⟩ := started.memory
  obtain ⟨tiled,flag,_⟩ := init_words m started.fits started.word
  rw [← memory] at tiled flag
  refine ⟨tiled,started.live ▸ List.nodup_nil,?_⟩
  intro buff
  rw [started.live]
  refine iff_of_false List.not_mem_nil ?_
  rintro ⟨h,at_h,_,used⟩
  rw [List.mem_singleton.mp at_h] at used
  exact used flag

theorem tame_run_inv (started : Started length start) (run : TameRun start s) : ∃ l, Inv length s l := by
  induction run with
  | start => exact ⟨_,started_inv started⟩
  | act _ tame done inv =>
    obtain ⟨l,inv⟩ := inv
    exact act_inv inv tame done

/-- In every state that tame calls reach the packages tile the buffer. -/
theorem tame_run_structured {start s : State} {length : Nat} (started : Started length start) (run : TameRun start s) :
    ∃ l, Structured length s l := by
  obtain ⟨l,inv⟩ := tame_run_inv started run
  exact ⟨l,inv.structured⟩

/-- No tame call of a run loops forever. -/
theorem tame_run_ends (started : Started length start) (run : TameRun start s) :
    (∃ s', step s .read = some s') ∧ ∀ request, Tame s (.alloc request) → ∃ s', step s (.alloc request) = some s' := by
  obtain ⟨l,inv⟩ := tame_run_inv started run
  refine ⟨?_,?_⟩
  · obtain ⟨result,done,_⟩ := read_inv inv
    exact ⟨result,done⟩
  · intro request tame
    obtain ⟨result,_,done,_⟩ := alloc_inv inv tame
    exact ⟨result,done⟩

end Runs

/-- A buffer of 128 bytes. -/
def fresh : State := ⟨ring_buff_head_init (fun _ => 0) 128,[],[],[],[]⟩

theorem fresh_started : Started 128 fresh := ⟨⟨_,rfl⟩,by decide,by decide,rfl,rfl,rfl,rfl⟩

/-- Two packages are allocated and read, and the first one is freed. -/
theorem tame_run_structured_two : ∃ s l, TameRun fresh s ∧ s.live = [64] ∧ Structured 128 s l := by
  have tame : ∀ {s : State} {act : Act} {s' : State}, TameRun fresh s → Tame s act → step s act = some s' →
      TameRun fresh s' := fun run ok done => .act run ok done
  have r₁ := tame .start (show Tame fresh (.alloc 8) by decide) rfl
  have r₂ := tame r₁ (show Tame _ (.alloc 16) by decide) rfl
  have r₃ := tame r₂ (show Tame _ .read from trivial) rfl
  have r₄ := tame r₃ (show Tame _ .read from trivial) rfl
  have r₅ := tame r₄ (show Tame _ (.free 36) by decide) rfl
  obtain ⟨l,structured⟩ := tame_run_structured fresh_started r₅
  exact ⟨_,l,r₅,rfl,structured⟩

/-- One package takes the whole buffer; when it is freed it is merged with itself. -/
theorem whole_package_merges_itself : ∃ acts s, Started 128 fresh ∧ List.foldlM step fresh acts = some s ∧
    load s.memory cache_head_ring_package .package_size = 204 ∧ ¬∃ l, Structured 128 s l := by
  obtain ⟨s,done,big⟩ : ∃ s, List.foldlM step fresh [.alloc 92,.free 36] = some s ∧
    load s.memory cache_head_ring_package .package_size = 204 := ⟨_,rfl,rfl⟩
  refine ⟨[.alloc 92,.free 36],s,fresh_started,done,big,?_⟩
  rintro ⟨l,structured⟩
  obtain ⟨t,rfl⟩ := List.head?_eq_some_iff.mp structured.first
  have sum := structured.sum
  rw [List.map_cons,List.sum_cons,big] at sum
  omega

end GridOS.RingBuff
