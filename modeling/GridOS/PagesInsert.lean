import GridOS.PagesRuns

/-!
Where the clusters of a region end. `km_insert_ram` checks that the start of a region is at a page, but it takes any size:
the last cluster gets every page that the region reaches into, as if the size had been rounded up.
-/
namespace GridOS.Pages
open GridOS.Words GridOS.Bits GridOS.Bitmap

/-- The bytes of the words that hold the bitmap, which begins where the cluster does. -/
def Cluster.bitmap_bytes (c : Cluster) : Nat := (c.bitmap.mask_count + 31) / 32 * 4

/-- The clusters that have been filled in between two memories. -/
def New (s s' : Memory) (ram : Nat) : Prop := s.cur_ram_info ≤ ram ∧ ram < s'.cur_ram_info

/-- The new clusters stay inside the region: their pages, their bitmaps, and neither meets the other. -/
structure Inside (s s' : Memory) (start size : Nat) : Prop where
  pages : ∀ ram, New s s' ram → ∀ i < (s'.static_clusters ram).usbale_count,
    start ≤ (s'.static_clusters ram).page i ∧ (s'.static_clusters ram).page i + PAGE_SIZE ≤ start + size
  bitmaps : ∀ ram, New s s' ram → start ≤ (s'.static_clusters ram).start_pfn * PAGE_SIZE ∧
    (s'.static_clusters ram).start_pfn * PAGE_SIZE + (s'.static_clusters ram).bitmap_bytes ≤ start + size
  unmet : ∀ ram, New s s' ram → ∀ other, New s s' other → ∀ i < (s'.static_clusters ram).usbale_count,
    (s'.static_clusters ram).page i + PAGE_SIZE ≤ (s'.static_clusters other).start_pfn * PAGE_SIZE ∨
      (s'.static_clusters other).start_pfn * PAGE_SIZE + (s'.static_clusters other).bitmap_bytes ≤ (s'.static_clusters ram).page i
  disjoint : ∀ ram, New s s' ram → ∀ other, New s s' other → ram ≠ other →
    (s'.static_clusters ram).Apart (s'.static_clusters other)

/-! ### The clusters of a region -/

/-- The part of the region that the cluster `j` is for. -/
def part (size j : Nat) : Nat := if KM_CLUSTER_SIZE > size - j * KM_CLUSTER_SIZE then size - j * KM_CLUSTER_SIZE else KM_CLUSTER_SIZE

theorem beq_succ (a b : Nat) : (a + 1 == b + 1) = (a == b) := by
  rw [Bool.eq_iff_iff,beq_iff_eq,beq_iff_eq]
  omega

/-- When the loop has gone through all rounds there is a cluster for each part of the region, and those in place
    are as they were. -/
theorem insert_clusters_parts (content : Nat → Words) {k i start size : Nat} {s s' : Memory}
    (done : insert_clusters content k i start size s = (true,s')) (top : start + size ≤ modulus) (word : size < modulus)
    (enough : i = 0 ∨ (i - 1) * KM_CLUSTER_SIZE < size) :
    s'.cur_ram_info = s.cur_ram_info + i ∧ (∀ ram < s.cur_ram_info, s'.static_clusters ram = s.static_clusters ram) ∧
      ∀ j < i, s'.static_clusters (s.cur_ram_info + j) = new_cluster (content (start + j * KM_CLUSTER_SIZE))
        (start + j * KM_CLUSTER_SIZE) (part size j) (j + 1 == i) := by
  induction i generalizing start size s with
  | zero =>
    cases done
    exact ⟨rfl,fun _ _ => rfl,fun j less => absurd less (Nat.not_lt_zero j)⟩
  | succ i ih =>
    have wanted : i * KM_CLUSTER_SIZE < size := by simpa using enough
    rw [insert_clusters] at done
    dsimp only at done
    split at done
    · cases done
    · have first : (if KM_CLUSTER_SIZE > size then size else KM_CLUSTER_SIZE) = part size 0 := by
        rw [part,Nat.zero_mul,Nat.sub_zero]
      rw [first] at done
      have placed : (s.set s.cur_ram_info (new_cluster (content start) start (part size 0) (i == 0))).static_clusters s.cur_ram_info =
          new_cluster (content start) start (part size 0) (i == 0) := Function.update_self ..
      have kept : ∀ ram < s.cur_ram_info, (s.set s.cur_ram_info (new_cluster (content start) start (part size 0) (i == 0))).static_clusters ram =
          s.static_clusters ram := fun ram below => Function.update_of_ne (Nat.ne_of_lt below) ..
      have zeroth : (0 + 1 == i + 1) = (i == 0) := by
        rw [beq_succ,BEq.comm]
      cases i with
      | zero =>
        cases done
        refine ⟨rfl,kept,fun j less => ?_⟩
        obtain rfl : j = 0 := by omega
        rw [Nat.zero_mul,Nat.add_zero,Nat.add_zero,zeroth]
        exact placed
      | succ i =>
        have more : (i + 1) * KM_CLUSTER_SIZE = i * KM_CLUSTER_SIZE + KM_CLUSTER_SIZE := Nat.succ_mul ..
        rw [add_exact (by omega),sub_exact (by omega) word] at done
        obtain ⟨count,old,parts⟩ := ih done (by omega) (by omega) (.inr (by simp; omega))
        dsimp only at count old parts
        refine ⟨by omega,fun ram below => (old ram (by omega)).trans (kept ram below),fun j less => ?_⟩
        cases j with
        | zero =>
          rw [Nat.zero_mul,Nat.add_zero,Nat.add_zero,zeroth,old _ (Nat.lt_succ_self _)]
          exact placed
        | succ j =>
          have later := parts j (by omega)
          have place : start + KM_CLUSTER_SIZE + j * KM_CLUSTER_SIZE = start + (j + 1) * KM_CLUSTER_SIZE := by
            rw [Nat.succ_mul]
            omega
          have rest : part (size - KM_CLUSTER_SIZE) j = part size (j + 1) := by
            rw [part,part,Nat.succ_mul,show size - KM_CLUSTER_SIZE - j * KM_CLUSTER_SIZE =
              size - (j * KM_CLUSTER_SIZE + KM_CLUSTER_SIZE) by omega]
          rw [show s.cur_ram_info + (j + 1) = s.cur_ram_info + 1 + j by omega,later,place,rest,beq_succ (j + 1)]

/-- A cluster for the `t` bytes at `base`: as many pages as they reach into, and the first one is not for use. -/
structure Placed (c : Cluster) (base t : Nat) : Prop where
  start : c.start_pfn * PAGE_SIZE = base
  ends : c.end_pfn * PAGE_SIZE + PAGE_SIZE = base + km_page_round_count t * PAGE_SIZE
  usable : c.usbale_count = km_page_round_count t - 1
  mask : c.bitmap.mask_count = c.usbale_count
  page : ∀ i < c.usbale_count, c.page i = base + (i + 1) * PAGE_SIZE

theorem new_cluster_placed (content : Words) {base t : Nat} (last : Bool) (aligned : PAGE_SIZE ∣ base) (positive : 0 < t)
    (small : t ≤ KM_CLUSTER_SIZE) (top : base + t ≤ modulus) : Placed (new_cluster content base t last) base t := by
  obtain ⟨p,rfl⟩ := aligned
  rw [new_cluster_eq content last positive small top]
  have rounds : 0 < km_page_round_count t := by
    unfold km_page_round_count PAGE_SIZE
    omega
  refine ⟨Nat.mul_comm ..,?_,rfl,rfl,fun i inside => ?_⟩
  · dsimp only
    unfold PAGE_SIZE
    omega
  · dsimp only at inside
    rw [Cluster.page]
    dsimp only
    rw [add_exact]
    · unfold PAGE_SIZE
      omega
    · unfold km_page_round_count PAGE_SIZE at inside
      unfold PAGE_SIZE at *
      omega

/-! ### The region -/

/-- The number of clusters that a region is cut into: none if the rounding up wraps. -/
theorem rounds_cases {size : Nat} (positive : 0 < size) (word : size < modulus) :
    (modulus < size + KM_CLUSTER_SIZE ∧ sub (add size KM_CLUSTER_SIZE) 1 / KM_CLUSTER_SIZE = 0) ∨
      (size + KM_CLUSTER_SIZE ≤ modulus ∧ ∃ i, sub (add size KM_CLUSTER_SIZE) 1 / KM_CLUSTER_SIZE = i + 1 ∧
        i * KM_CLUSTER_SIZE < size ∧ size ≤ (i + 1) * KM_CLUSTER_SIZE) := by
  unfold sub add KM_CLUSTER_SIZE modulus at *
  by_cases wraps : 4294967296 < size + 32 * 1024 * 1024
  · exact .inl ⟨wraps,by omega⟩
  · refine .inr ⟨by omega,(size - 1) / (32 * 1024 * 1024),?_,?_,?_⟩ <;> omega

/-- The parts of a region lie one behind the other, and only the last one is short. -/
theorem part_spec {size i j : Nat} (wanted : i * KM_CLUSTER_SIZE < size) (enough : size ≤ (i + 1) * KM_CLUSTER_SIZE) (less : j ≤ i) :
    0 < part size j ∧ part size j ≤ KM_CLUSTER_SIZE ∧ j * KM_CLUSTER_SIZE + part size j ≤ size ∧
      (j < i → part size j = KM_CLUSTER_SIZE) ∧ (j = i → part size j = size - i * KM_CLUSTER_SIZE) := by
  have below : j * KM_CLUSTER_SIZE ≤ i * KM_CLUSTER_SIZE := Nat.mul_le_mul_right _ less
  have next : j < i → (j + 1) * KM_CLUSTER_SIZE ≤ i * KM_CLUSTER_SIZE := fun before => Nat.mul_le_mul_right _ before
  have one : 0 < KM_CLUSTER_SIZE := by decide
  rw [Nat.succ_mul] at enough next
  rw [part]
  split
  · refine ⟨by omega,by omega,by omega,fun before => ?_,fun same => by rw [same]⟩
    have := next before
    omega
  · refine ⟨one,le_rfl,by omega,fun _ => rfl,fun same => ?_⟩
    subst same
    omega

/-- A region is inserted under a head that is there, or under a new one. -/
theorem insert_ram_clusters (content : Nat → Words) {s s' : Memory} {start size : Nat} {node : Int}
    (done : km_insert_ram content start size node s = (true,s')) : PAGE_SIZE ∣ start ∧ ∃ k s0, s0.cur_ram_info = s.cur_ram_info ∧
      insert_clusters content k (sub (add size KM_CLUSTER_SIZE) 1 / KM_CLUSTER_SIZE) start size s0 = (true,s') := by
  rw [km_insert_ram] at done
  split at done
  · cases done
  · next aligned =>
    refine ⟨Nat.dvd_of_mod_eq_zero (not_not.mp aligned),?_⟩
    dsimp only at done
    split at done
    · exact ⟨_,s,rfl,done⟩
    · split at done
      · cases done
      · refine ⟨_,_,?_,done⟩
        rfl

/-- What the new clusters are when a region has been inserted. -/
theorem insert_ram_parts (content : Nat → Words) {s s' : Memory} {start size : Nat} {node : Int}
    (done : km_insert_ram content start size node s = (true,s')) (positive : 0 < size) (top : start + size ≤ modulus)
    (word : size < modulus) :
    (modulus < size + KM_CLUSTER_SIZE ∧ ∀ ram, ¬New s s' ram) ∨
      (size + KM_CLUSTER_SIZE ≤ modulus ∧ ∃ i, i * KM_CLUSTER_SIZE < size ∧ size ≤ (i + 1) * KM_CLUSTER_SIZE ∧
        (∀ ram, New s s' ram ↔ ∃ j ≤ i, ram = s.cur_ram_info + j) ∧
        ∀ j ≤ i, Placed (s'.static_clusters (s.cur_ram_info + j)) (start + j * KM_CLUSTER_SIZE) (part size j)) := by
  obtain ⟨aligned,k,s0,same,inserted⟩ := insert_ram_clusters content done
  rcases rounds_cases positive word with ⟨wraps,none⟩ | ⟨fits,i,count,wanted,enough⟩
  · rw [none] at inserted
    obtain ⟨total,_⟩ := insert_clusters_parts content inserted top word (.inl rfl)
    refine .inl ⟨wraps,fun ram new => ?_⟩
    obtain ⟨low,high⟩ := new
    omega
  · rw [count] at inserted
    obtain ⟨total,_,parts⟩ := insert_clusters_parts content inserted top word (.inr (by simpa using wanted))
    rw [same] at total parts
    refine .inr ⟨fits,i,wanted,enough,fun ram => ⟨fun new => ?_,?_⟩,fun j less => ?_⟩
    · obtain ⟨low,high⟩ := new
      exact ⟨ram - s.cur_ram_info,by omega,by omega⟩
    · rintro ⟨j,less,rfl⟩
      unfold New
      omega
    · obtain ⟨short,small,within,_⟩ := part_spec wanted enough less
      rw [parts j (by omega)]
      refine new_cluster_placed _ _ (Dvd.dvd.add aligned ?_) short small (by omega)
      exact Dvd.dvd.mul_left (by decide) j

/-! ### The last cluster -/

/-- The pages for use end at the end of the last part, or there are none, if the size is a number of pages or the
    last part is less than one. -/
def Whole (size : Nat) : Prop :=
  PAGE_SIZE ∣ size ∨ size % KM_CLUSTER_SIZE < PAGE_SIZE ∨ modulus < size + KM_CLUSTER_SIZE

section
variable {size i j : Nat} (wanted : i * KM_CLUSTER_SIZE < size) (enough : size ≤ (i + 1) * KM_CLUSTER_SIZE) (less : j ≤ i)

include wanted enough less in
/-- A part in front of the last one has all of its pages. -/
theorem part_pages (whole : PAGE_SIZE ∣ size ∨ size % KM_CLUSTER_SIZE < PAGE_SIZE) :
    km_page_round_count (part size j) = 1 ∨ km_page_round_count (part size j) * PAGE_SIZE = part size j := by
  obtain ⟨short,small,_,full,last⟩ := part_spec wanted enough less
  unfold km_page_round_count
  rcases Nat.lt_or_eq_of_le less with before | same
  · rw [full before]
    exact .inr (by decide)
  · have size_last := last same
    unfold PAGE_SIZE KM_CLUSTER_SIZE at *
    omega

include wanted enough in
/-- The last part of another region has a page that reaches behind its end. -/
theorem part_torn (torn : ¬(PAGE_SIZE ∣ size ∨ size % KM_CLUSTER_SIZE < PAGE_SIZE)) :
    1 < km_page_round_count (part size i) ∧ part size i < km_page_round_count (part size i) * PAGE_SIZE := by
  obtain ⟨short,small,_,_,last⟩ := part_spec wanted enough le_rfl
  have size_last := last rfl
  unfold km_page_round_count
  unfold PAGE_SIZE KM_CLUSTER_SIZE at *
  omega

end

/-- A bitmap is as long as a page at most, and it ends inside its part. -/
theorem placed_bitmap {c : Cluster} {base t : Nat} (placed : Placed c base t) (positive : 0 < t) (small : t ≤ KM_CLUSTER_SIZE) :
    c.bitmap_bytes ≤ t ∧ c.bitmap_bytes ≤ PAGE_SIZE := by
  rw [Cluster.bitmap_bytes,placed.mask,placed.usable,km_page_round_count]
  unfold PAGE_SIZE KM_CLUSTER_SIZE at *
  omega

section
variable {s s' : Memory} {start size i : Nat} (wanted : i * KM_CLUSTER_SIZE < size) (enough : size ≤ (i + 1) * KM_CLUSTER_SIZE)
  (placed : ∀ j ≤ i, Placed (s'.static_clusters (s.cur_ram_info + j)) (start + j * KM_CLUSTER_SIZE) (part size j))

theorem cluster_ahead {j j' : Nat} (before : j < j') : j * KM_CLUSTER_SIZE + KM_CLUSTER_SIZE ≤ j' * KM_CLUSTER_SIZE := by
  rw [← Nat.succ_mul]
  exact Nat.mul_le_mul_right _ before

include placed in
/-- The pages of a part lie behind the page of its bitmap, and end with the last page that the part reaches into. -/
theorem part_page {j p : Nat} (less : j ≤ i) (inside : p < (s'.static_clusters (s.cur_ram_info + j)).usbale_count) :
    start + j * KM_CLUSTER_SIZE + PAGE_SIZE ≤ (s'.static_clusters (s.cur_ram_info + j)).page p ∧
      (s'.static_clusters (s.cur_ram_info + j)).page p + PAGE_SIZE ≤
        start + j * KM_CLUSTER_SIZE + km_page_round_count (part size j) * PAGE_SIZE := by
  have usable := (placed j less).usable
  rw [(placed j less).page p inside]
  unfold PAGE_SIZE at *
  omega

include wanted enough placed in
/-- A part in front of another one ends where the next one begins. -/
theorem part_ends {a b : Nat} (before : a < b) (last : b ≤ i) :
    km_page_round_count (part size a) * PAGE_SIZE = KM_CLUSTER_SIZE ∧
      (s'.static_clusters (s.cur_ram_info + a)).end_pfn < (s'.static_clusters (s.cur_ram_info + b)).start_pfn := by
  obtain ⟨_,_,_,full,_⟩ := part_spec wanted enough (le_trans before.le last)
  have rounds : km_page_round_count KM_CLUSTER_SIZE * PAGE_SIZE = KM_CLUSTER_SIZE := by decide
  have ends := (placed a (le_trans before.le last)).ends
  have starts := (placed b last).start
  have := cluster_ahead before
  rw [full (by omega),rounds] at ends
  refine ⟨by rw [full (by omega),rounds],?_⟩
  unfold PAGE_SIZE at *
  omega

end

/-- Whatever the size is, the bitmaps of the new clusters lie in the region, no page for use meets one of them, and the
    clusters do not meet. -/
theorem insert_unmet (content : Nat → Words) {s s' : Memory} {start size : Nat} {node : Int} (positive : 0 < size)
    (top : start + size ≤ modulus) (word : size < modulus) (done : km_insert_ram content start size node s = (true,s')) :
    (∀ ram, New s s' ram → start ≤ (s'.static_clusters ram).start_pfn * PAGE_SIZE ∧
      (s'.static_clusters ram).start_pfn * PAGE_SIZE + (s'.static_clusters ram).bitmap_bytes ≤ start + size) ∧
    (∀ ram, New s s' ram → ∀ other, New s s' other → ∀ i < (s'.static_clusters ram).usbale_count,
      (s'.static_clusters ram).page i + PAGE_SIZE ≤ (s'.static_clusters other).start_pfn * PAGE_SIZE ∨
        (s'.static_clusters other).start_pfn * PAGE_SIZE + (s'.static_clusters other).bitmap_bytes ≤ (s'.static_clusters ram).page i) ∧
    ∀ ram, New s s' ram → ∀ other, New s s' other → ram ≠ other → (s'.static_clusters ram).Apart (s'.static_clusters other) := by
  rcases insert_ram_parts content done positive top word with ⟨_,none⟩ | ⟨_,i,wanted,enough,new,placed⟩
  · exact ⟨fun ram here => absurd here (none ram),fun ram here => absurd here (none ram),fun ram here => absurd here (none ram)⟩
  have bitmap : ∀ j ≤ i, (s'.static_clusters (s.cur_ram_info + j)).bitmap_bytes ≤ part size j ∧
      (s'.static_clusters (s.cur_ram_info + j)).bitmap_bytes ≤ PAGE_SIZE := by
    intro j less
    obtain ⟨short,small,_⟩ := part_spec wanted enough less
    exact placed_bitmap (placed j less) short small
  have one : PAGE_SIZE ≤ KM_CLUSTER_SIZE := by decide
  refine ⟨fun ram here => ?_,fun ram here other there p inside => ?_,fun ram here other there differ => ?_⟩
  · obtain ⟨j,less,rfl⟩ := (new ram).mp here
    obtain ⟨_,_,within,_⟩ := part_spec wanted enough less
    have bytes := (bitmap j less).1
    rw [(placed j less).start]
    omega
  · obtain ⟨j,less,rfl⟩ := (new ram).mp here
    obtain ⟨j',less',rfl⟩ := (new other).mp there
    obtain ⟨low,high⟩ := part_page placed less inside
    have bytes := (bitmap j' less').2
    rw [(placed j' less').start]
    rcases Nat.lt_trichotomy j j' with before | rfl | after
    · have ends := (part_ends wanted enough placed before less').1
      have := cluster_ahead before
      exact .inl (by omega)
    · exact .inr (by omega)
    · have := cluster_ahead after
      exact .inr (by omega)
  · obtain ⟨j,less,rfl⟩ := (new ram).mp here
    obtain ⟨j',less',rfl⟩ := (new other).mp there
    rcases Nat.lt_or_gt_of_ne (show j ≠ j' by rintro rfl; exact differ rfl) with before | after
    · exact .inl (part_ends wanted enough placed before less').2
    · exact .inr (part_ends wanted enough placed after less).2

/-- When a region has been inserted, its clusters stay inside if and only if the size is a number of pages, or the last
    cluster has no page for use, or there is no cluster because the size is rounded up beyond 2^32. -/
theorem insert_inside_iff (content : Nat → Words) {s s' : Memory} {start size : Nat} {node : Int} (positive : 0 < size)
    (top : start + size ≤ modulus) (word : size < modulus) (done : km_insert_ram content start size node s = (true,s')) :
    Inside s s' start size ↔ Whole size := by
  obtain ⟨bitmaps,unmet,disjoint⟩ := insert_unmet content positive top word done
  rcases insert_ram_parts content done positive top word with ⟨wraps,none⟩ | ⟨fits,i,wanted,enough,new,placed⟩
  · exact ⟨fun _ => .inr (.inr wraps),fun _ => ⟨fun ram here => absurd here (none ram),bitmaps,unmet,disjoint⟩⟩
  constructor
  · intro inside
    by_contra torn
    have torn' : ¬(PAGE_SIZE ∣ size ∨ size % KM_CLUSTER_SIZE < PAGE_SIZE) := fun whole => torn (whole.imp_right .inl)
    obtain ⟨more,beyond⟩ := part_torn wanted enough torn'
    obtain ⟨_,_,_,_,last⟩ := part_spec wanted enough (le_refl i)
    have size_last := last rfl
    have cluster := placed i le_rfl
    have usable := cluster.usable
    have index : (s'.static_clusters (s.cur_ram_info + i)).usbale_count - 1 <
        (s'.static_clusters (s.cur_ram_info + i)).usbale_count := by omega
    have page := (inside.pages _ ((new _).mpr ⟨i,le_rfl,rfl⟩) _ index).2
    rw [cluster.page _ index,usable] at page
    unfold PAGE_SIZE at *
    omega
  · intro whole
    have whole' : PAGE_SIZE ∣ size ∨ size % KM_CLUSTER_SIZE < PAGE_SIZE := by
      rcases whole with pages | short | wraps
      · exact .inl pages
      · exact .inr short
      · omega
    refine ⟨fun ram here p inside => ?_,bitmaps,unmet,disjoint⟩
    obtain ⟨j,less,rfl⟩ := (new ram).mp here
    obtain ⟨_,_,within,_⟩ := part_spec wanted enough less
    obtain ⟨low,high⟩ := part_page placed less inside
    have usable := (placed j less).usable
    rcases part_pages wanted enough less whole' with single | all
    · omega
    · omega

/-- A region of one and a half pages: the page for use reaches behind its end. -/
theorem insert_torn : ∃ s', km_insert_ram (fun _ _ => 0) 1048576 6144 0 km_cluster_init = (true,s') ∧
    ¬Inside km_cluster_init s' 1048576 6144 := by
  refine ⟨(km_insert_ram (fun _ _ => 0) 1048576 6144 0 km_cluster_init).2,by rfl,fun inside => ?_⟩
  have page := (inside.pages 0 ⟨by decide,by decide⟩ 0 (by decide)).2
  exact absurd page (by decide)

/-- Two clusters and 100 bytes, that are a cluster without pages for use. -/
theorem insert_inside_tail : ∃ s', km_insert_ram (fun _ _ => 0) 1048576 67108964 0 km_cluster_init = (true,s') ∧
    Inside km_cluster_init s' 1048576 67108964 := by
  have done : km_insert_ram (fun _ _ => 0) 1048576 67108964 0 km_cluster_init =
      (true,(km_insert_ram (fun _ _ => 0) 1048576 67108964 0 km_cluster_init).2) := by rfl
  exact ⟨_,done,(insert_inside_iff _ (by decide) (by decide) (by decide) done).mpr (.inr (.inl (by decide)))⟩

/-! ### Sizes that are no number of pages -/

/-- The size of the pages that the bytes reach into. -/
def rounded (size : Nat) : Nat := km_page_round_count size * PAGE_SIZE

theorem rounded_bounds (size : Nat) : size ≤ rounded size ∧ rounded size < size + PAGE_SIZE ∧ PAGE_SIZE ∣ rounded size := by
  refine ⟨?_,?_,Nat.dvd_mul_left ..⟩ <;> unfold rounded km_page_round_count PAGE_SIZE <;> omega

/-- Behind a start that is at a page there is room for the rest of the last page. -/
theorem rounded_top {start size : Nat} (aligned : PAGE_SIZE ∣ start) (top : start + size ≤ modulus) : start + rounded size ≤ modulus := by
  obtain ⟨p,rfl⟩ := aligned
  unfold rounded km_page_round_count
  unfold PAGE_SIZE modulus at *
  omega

theorem rounded_chunk (size : Nat) : (if KM_CLUSTER_SIZE > rounded size then rounded size else KM_CLUSTER_SIZE) =
    rounded (if KM_CLUSTER_SIZE > size then size else KM_CLUSTER_SIZE) := by
  unfold rounded km_page_round_count KM_CLUSTER_SIZE PAGE_SIZE
  split <;> split <;> omega

theorem rounded_rest {size : Nat} (more : KM_CLUSTER_SIZE < size) : rounded size - KM_CLUSTER_SIZE = rounded (size - KM_CLUSTER_SIZE) := by
  unfold rounded km_page_round_count KM_CLUSTER_SIZE PAGE_SIZE at *
  omega

/-- A cluster does not tell how far the bytes reach into its last page. -/
theorem new_cluster_rounded (content : Words) {start t : Nat} (last : Bool) (aligned : PAGE_SIZE ∣ start) (positive : 0 < t)
    (small : t ≤ KM_CLUSTER_SIZE) (top : start + t ≤ modulus) :
    new_cluster content start (rounded t) last = new_cluster content start t last := by
  have small' : rounded t ≤ KM_CLUSTER_SIZE := by
    unfold rounded km_page_round_count
    unfold KM_CLUSTER_SIZE PAGE_SIZE at *
    omega
  have count : km_page_round_count (rounded t) = km_page_round_count t := by
    unfold rounded km_page_round_count PAGE_SIZE
    omega
  have top' := rounded_top aligned top
  have longer := (rounded_bounds t).1
  obtain ⟨p,rfl⟩ := aligned
  rw [new_cluster_eq content last (by omega) small' top',new_cluster_eq content last positive small top,count]

theorem insert_clusters_rounded (content : Nat → Words) {k i start size : Nat} {s : Memory} (aligned : PAGE_SIZE ∣ start)
    (top : start + size ≤ modulus) (word : rounded size < modulus) (enough : i = 0 ∨ (i - 1) * KM_CLUSTER_SIZE < size) :
    insert_clusters content k i start (rounded size) s = insert_clusters content k i start size s := by
  induction i generalizing start size s with
  | zero => rfl
  | succ i ih =>
    have wanted : i * KM_CLUSTER_SIZE < size := by simpa using enough
    have longer := (rounded_bounds size).1
    have top' := rounded_top aligned top
    rw [insert_clusters,insert_clusters,rounded_chunk]
    generalize chunk : (if KM_CLUSTER_SIZE > size then size else KM_CLUSTER_SIZE) = t
    have one : 0 < KM_CLUSTER_SIZE := by decide
    have part : t ≤ size ∧ t ≤ KM_CLUSTER_SIZE ∧ 0 < t := by
      subst chunk
      split <;> omega
    rw [new_cluster_rounded (content start) (i == 0) aligned part.2.2 part.2.1 (by omega)]
    dsimp only
    split
    · rfl
    · cases i with
      | zero => rw [insert_clusters,insert_clusters]
      | succ i =>
        have more : (i + 1) * KM_CLUSTER_SIZE = i * KM_CLUSTER_SIZE + KM_CLUSTER_SIZE := Nat.succ_mul ..
        have cluster : PAGE_SIZE ∣ KM_CLUSTER_SIZE := by decide
        have rest := rounded_rest (show KM_CLUSTER_SIZE < size by omega)
        rw [add_exact (by omega),sub_exact (by omega) word,sub_exact (by omega) (by omega),rest]
        exact ih (Dvd.dvd.add aligned cluster) (by omega) (by omega) (.inr (by simp; omega))

/-- A region is inserted as if its size had been rounded up. -/
theorem km_insert_ram_rounded (content : Nat → Words) {start size : Nat} (node : Int) (s : Memory) (aligned : PAGE_SIZE ∣ start)
    (top : start + size ≤ modulus) (word : size < modulus) :
    km_insert_ram content start (rounded size) node s = km_insert_ram content start size node s := by
  have rounds : sub (add (rounded size) KM_CLUSTER_SIZE) 1 / KM_CLUSTER_SIZE = sub (add size KM_CLUSTER_SIZE) 1 / KM_CLUSTER_SIZE := by
    unfold rounded km_page_round_count sub add KM_CLUSTER_SIZE PAGE_SIZE
    unfold modulus at *
    omega
  have inserted (k : Nat) (s : Memory) :
      insert_clusters content k (sub (add size KM_CLUSTER_SIZE) 1 / KM_CLUSTER_SIZE) start (rounded size) s =
        insert_clusters content k (sub (add size KM_CLUSTER_SIZE) 1 / KM_CLUSTER_SIZE) start size s := by
    by_cases fits : rounded size < modulus
    · exact insert_clusters_rounded content aligned top fits (rounds_enough word)
    · -- the rounding up of the number of clusters has wrapped
      have none : sub (add size KM_CLUSTER_SIZE) 1 / KM_CLUSTER_SIZE = 0 := by
        unfold rounded km_page_round_count PAGE_SIZE at fits
        unfold sub add KM_CLUSTER_SIZE
        unfold modulus at *
        omega
      rw [none,insert_clusters,insert_clusters]
  rw [km_insert_ram,km_insert_ram,rounds]
  simp only [inserted]

end GridOS.Pages
