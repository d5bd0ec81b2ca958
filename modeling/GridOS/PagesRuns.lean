import GridOS.Pages

/-!
Who owns a physical page. `Owned` says that the set bits of all clusters are
exactly the pages of the live ranges, that the ranges do not meet, and that the
counters agree with the bitmaps. It holds after every sequence of
`km_insert_ram` on regions that do not meet, and is kept by every allocation
that returns, on any CPU, and by every free of a live range.
-/
namespace GridOS.Pages
open GridOS.Words GridOS.Bits GridOS.Bitmap

/-! ### Clusters -/

/-- The address of the page behind bit `i`. -/
def Cluster.page (c : Cluster) (i : Nat) : Nat := c.ram_base + i * PAGE_SIZE

/-- The counters and the place of a cluster; a cluster that is all bitmap has no page. -/
structure Cluster.Sound (c : Cluster) : Prop where
  mask : c.bitmap.mask_count = c.usbale_count
  free : c.free = (clearBits c.bitmap).card
  top : c.end_pfn * PAGE_SIZE + PAGE_SIZE ≤ modulus
  ends : 0 < c.usbale_count → c.page c.usbale_count = c.end_pfn * PAGE_SIZE + PAGE_SIZE
  starts : 0 < c.usbale_count → c.start_pfn * PAGE_SIZE < c.ram_base
  aligned : 0 < c.usbale_count → PAGE_SIZE ∣ c.ram_base

/-- A range of `e.2` pages at the address `e.1` contains an address. -/
def Covers (e : Nat × Nat) (a : Nat) : Prop := e.1 ≤ a ∧ a < e.1 + e.2 * PAGE_SIZE

/-- The range consists of pages of the cluster. -/
def Cluster.Holds (c : Cluster) (e : Nat × Nat) : Prop := ∃ i, e.1 = c.page i ∧ 0 < e.2 ∧ i + e.2 ≤ c.usbale_count

/-- Two ranges of pages do not meet. -/
def Disjoint (e f : Nat × Nat) : Prop := e.1 + e.2 * PAGE_SIZE ≤ f.1 ∨ f.1 + f.2 * PAGE_SIZE ≤ e.1

/-- No page of one cluster is a page of the other. -/
def Cluster.Apart (c d : Cluster) : Prop := c.end_pfn < d.start_pfn ∨ d.end_pfn < c.start_pfn

/-- The clusters listed under the heads. -/
def listed (s : Memory) : List Nat := s.ram_nodes.flatMap (·.clusters)

/-- The pages of the live ranges are the set bits of the clusters. -/
structure Owned (s : Memory) (live : List (Nat × Nat)) : Prop where
  members : ∀ ram, ram ∈ listed s ↔ ram < s.cur_ram_info
  current : ∀ cpu ram, s.mm_current_cluster cpu = some ram → ram < s.cur_ram_info
  sound : ∀ ram < s.cur_ram_info, (s.static_clusters ram).Sound
  apart : ∀ ram < s.cur_ram_info, ∀ other < s.cur_ram_info, ram ≠ other →
    (s.static_clusters ram).Apart (s.static_clusters other)
  held : ∀ e ∈ live, ∃ ram < s.cur_ram_info, (s.static_clusters ram).Holds e
  bits : ∀ ram < s.cur_ram_info, ∀ i < (s.static_clusters ram).usbale_count,
    test_bit i (s.static_clusters ram).bitmap.bitmap = true ↔ ∃ e ∈ live, Covers e ((s.static_clusters ram).page i)
  disjoint : live.Pairwise Disjoint

theorem sound_page {c : Cluster} (sound : c.Sound) {i : Nat} (inside : i < c.usbale_count) :
    c.start_pfn * PAGE_SIZE < c.page i ∧ c.page i + PAGE_SIZE ≤ c.end_pfn * PAGE_SIZE + PAGE_SIZE := by
  have positive : 0 < c.usbale_count := by omega
  have ends := sound.ends positive
  have starts := sound.starts positive
  unfold Cluster.page PAGE_SIZE at *
  omega

theorem sound_usbale {c : Cluster} (sound : c.Sound) : c.usbale_count * PAGE_SIZE ≤ modulus := by
  rcases Nat.eq_zero_or_pos c.usbale_count with zero | positive
  · rw [zero,Nat.zero_mul]; exact Nat.zero_le _
  · have ends := sound.ends positive
    have top := sound.top
    unfold Cluster.page at ends
    omega

/-- The frame number of a page of a cluster lies between those of the cluster. -/
theorem sound_pfn {c : Cluster} (sound : c.Sound) {i : Nat} (inside : i < c.usbale_count) :
    c.start_pfn ≤ km_page_address_to_pfn (c.page i) ∧ km_page_address_to_pfn (c.page i) ≤ c.end_pfn := by
  have place := sound_page sound inside
  unfold km_page_address_to_pfn PAGE_SIZE at *
  omega

/-- Pages of different clusters are different pages. -/
theorem page_apart {c d : Cluster} (soundC : c.Sound) (soundD : d.Sound) (apart : c.Apart d) {i j : Nat}
    (insideC : i < c.usbale_count) (insideD : j < d.usbale_count) :
    c.page i + PAGE_SIZE ≤ d.page j ∨ d.page j + PAGE_SIZE ≤ c.page i := by
  have placeC := sound_page soundC insideC
  have placeD := sound_page soundD insideD
  unfold Cluster.Apart at apart
  unfold PAGE_SIZE at *
  omega

theorem holds_covers {c : Cluster} {e : Nat × Nat} {i : Nat} (start : e.1 = c.page i) (j : Nat) :
    Covers e (c.page j) ↔ i ≤ j ∧ j < i + e.2 := by
  unfold Covers Cluster.page PAGE_SIZE at *
  omega

/-- A range in one cluster covers no page of another. -/
theorem covers_elsewhere {c d : Cluster} (soundC : c.Sound) (soundD : d.Sound) (apart : c.Apart d) {e : Nat × Nat}
    (holds : c.Holds e) {j : Nat} (insideD : j < d.usbale_count) : ¬ Covers e (d.page j) := by
  obtain ⟨i,start,positive,inside⟩ := holds
  have first := page_apart soundC soundD apart (i := i) (by omega) insideD
  have last := page_apart soundC soundD apart (i := i + e.2 - 1) (by omega) insideD
  have placeC := sound_page soundC (i := i) (by omega)
  have placeL := sound_page soundC (i := i + e.2 - 1) (by omega)
  have placeD := sound_page soundD insideD
  unfold Cluster.Apart at apart
  unfold Covers Cluster.page PAGE_SIZE at *
  omega

instance : Std.Symm Disjoint where
  symm _ _ := Or.symm

theorem disjoint_covers {e f : Nat × Nat} (disjoint : Disjoint e f) {a : Nat} (covers : Covers e a) : ¬ Covers f a := by
  unfold Disjoint at disjoint
  unfold Covers at *
  omega

/-- Ranges in different clusters do not meet. -/
theorem holds_disjoint {c d : Cluster} (soundC : c.Sound) (soundD : d.Sound) (apart : c.Apart d) {e f : Nat × Nat}
    (holdsC : c.Holds e) (holdsD : d.Holds f) : Disjoint e f := by
  obtain ⟨i,startE,positiveE,insideE⟩ := holdsC
  obtain ⟨j,startF,positiveF,insideF⟩ := holdsD
  have firstE := sound_page soundC (i := i) (by omega)
  have lastE := sound_page soundC (i := i + e.2 - 1) (by omega)
  have firstF := sound_page soundD (i := j) (by omega)
  have lastF := sound_page soundD (i := j + f.2 - 1) (by omega)
  unfold Cluster.Apart at apart
  unfold Disjoint Cluster.page PAGE_SIZE at *
  omega

/-- Ranges in one cluster that share no page do not meet. -/
theorem holds_disjoint_same {c : Cluster} {e f : Nat × Nat} (holdsE : c.Holds e) (holdsF : c.Holds f)
    (unshared : ∀ i < c.usbale_count, Covers e (c.page i) → ¬ Covers f (c.page i)) : Disjoint e f := by
  obtain ⟨i,startE,positiveE,insideE⟩ := holdsE
  obtain ⟨j,startF,positiveF,insideF⟩ := holdsF
  by_contra meet
  have common : max i j < i + e.2 ∧ max i j < j + f.2 := by
    unfold Disjoint Cluster.page PAGE_SIZE at *
    omega
  refine unshared (max i j) (by omega) ?_ ?_
  · rw [holds_covers startE]; omega
  · rw [holds_covers startF]; omega

/-! ### Changing one cluster -/

/-- One cluster changes its bits, and the live ranges with it. -/
theorem owned_set {s : Memory} {live live' : List (Nat × Nat)} {ram : Nat} {c : Cluster} (owned : Owned s live)
    (inside : ram < s.cur_ram_info) (startPfn : c.start_pfn = (s.static_clusters ram).start_pfn)
    (endPfn : c.end_pfn = (s.static_clusters ram).end_pfn) (ramBase : c.ram_base = (s.static_clusters ram).ram_base)
    (usbale : c.usbale_count = (s.static_clusters ram).usbale_count) (sound : c.Sound)
    (held : ∀ e ∈ live', e ∈ live ∨ c.Holds e)
    (bits : ∀ i < c.usbale_count, test_bit i c.bitmap.bitmap = true ↔ ∃ e ∈ live', Covers e (c.page i))
    (others : ∀ a, (∀ e, c.Holds e → ¬ Covers e a) → ((∃ e ∈ live', Covers e a) ↔ ∃ e ∈ live, Covers e a))
    (disjoint : live'.Pairwise Disjoint) : Owned (s.set ram c) live' := by
  have same : ∀ other, ((s.set ram c).static_clusters other).start_pfn = (s.static_clusters other).start_pfn ∧
      ((s.set ram c).static_clusters other).end_pfn = (s.static_clusters other).end_pfn ∧
      ((s.set ram c).static_clusters other).ram_base = (s.static_clusters other).ram_base ∧
      ((s.set ram c).static_clusters other).usbale_count = (s.static_clusters other).usbale_count := by
    intro other
    by_cases this : other = ram
    · subst this
      simp only [Memory.set,Function.update_self]
      exact ⟨startPfn,endPfn,ramBase,usbale⟩
    · simp only [Memory.set,Function.update_of_ne this]
      exact ⟨trivial,trivial,trivial,trivial⟩
  have changed : (s.set ram c).static_clusters ram = c := Function.update_self ..
  have unchanged : ∀ other, other ≠ ram → (s.set ram c).static_clusters other = s.static_clusters other :=
    fun other differ => Function.update_of_ne differ ..
  have soundAll : ∀ other < s.cur_ram_info, ((s.set ram c).static_clusters other).Sound := by
    intro other below
    by_cases this : other = ram
    · rw [this,changed]; exact sound
    · rw [unchanged other this]; exact owned.sound other below
  have apart : ∀ one < s.cur_ram_info, ∀ other < s.cur_ram_info, one ≠ other →
      ((s.set ram c).static_clusters one).Apart ((s.set ram c).static_clusters other) := by
    intro one below other below' differ
    unfold Cluster.Apart
    rw [(same one).1,(same one).2.1,(same other).1,(same other).2.1]
    exact owned.apart one below other below' differ
  constructor
  · exact owned.members
  · exact owned.current
  · exact soundAll
  · exact apart
  · intro e member
    rcases held e member with old | new
    · obtain ⟨other,below,i,start,positive,range⟩ := owned.held e old
      refine ⟨other,below,i,?_,positive,?_⟩
      · unfold Cluster.page
        rw [(same other).2.2.1]
        exact start
      · rw [(same other).2.2.2]; exact range
    · exact ⟨ram,inside,by rw [changed]; exact new⟩
  · intro other below i insideI
    by_cases this : other = ram
    · subst this
      rw [changed] at insideI ⊢
      exact bits i insideI
    · rw [others]
      · rw [unchanged other this] at insideI ⊢
        exact owned.bits other below i insideI
      · intro e holds
        have elsewhere := apart ram inside other below (Ne.symm this)
        rw [changed] at elsewhere
        exact covers_elsewhere sound (soundAll other below) elsewhere holds insideI
  · exact disjoint

/-- A cluster changes its hint, its flags or its owner, but no bit. -/
theorem owned_set_same {s : Memory} {live : List (Nat × Nat)} {ram : Nat} {c : Cluster} (owned : Owned s live)
    (inside : ram < s.cur_ram_info) (startPfn : c.start_pfn = (s.static_clusters ram).start_pfn)
    (endPfn : c.end_pfn = (s.static_clusters ram).end_pfn) (ramBase : c.ram_base = (s.static_clusters ram).ram_base)
    (usbale : c.usbale_count = (s.static_clusters ram).usbale_count) (free : c.free = (s.static_clusters ram).free)
    (bitmap : Same (s.static_clusters ram).bitmap c.bitmap) : Owned (s.set ram c) live := by
  have before := owned.sound ram inside
  have page : ∀ i, c.page i = (s.static_clusters ram).page i := by
    intro i
    unfold Cluster.page
    rw [ramBase]
  have sound : c.Sound := by
    constructor
    · rw [bitmap.mask,usbale]; exact before.mask
    · rw [free,before.free,clearBits,clearBits,bitmap.mask,bitmap.bits]
    · rw [endPfn]; exact before.top
    · rw [usbale,endPfn,page]; exact before.ends
    · rw [usbale,startPfn,ramBase]; exact before.starts
    · rw [usbale,ramBase]; exact before.aligned
  refine owned_set owned inside startPfn endPfn ramBase usbale sound (fun e member => .inl member) ?_ (fun a _ => Iff.rfl)
    owned.disjoint
  intro i insideI
  rw [usbale] at insideI
  rw [bitmap.bits,page]
  exact owned.bits ram inside i insideI

theorem owned_current {s : Memory} {live : List (Nat × Nat)} {ram : Nat} (cpu : Nat) (owned : Owned s live)
    (inside : ram < s.cur_ram_info) : Owned (set_current_cluster cpu ram s) live where
  members := owned.members
  current := by
    intro other ram' found
    unfold set_current_cluster at found
    dsimp only at found
    by_cases this : other = cpu
    · rw [this,Function.update_self] at found
      cases found
      exact inside
    · rw [Function.update_of_ne this] at found
      exact owned.current other ram' found
  sound := owned.sound
  apart := owned.apart
  held := owned.held
  bits := owned.bits
  disjoint := owned.disjoint

/-! ### Allocating -/

theorem toInt_positive {count : Nat} (word : count < modulus) (above : 0 < toInt count) : (toInt count).toNat = count := by
  unfold toInt modulus at *
  split at above <;> split <;> omega

theorem alloc_bits_spec {fuel : Nat} {b b' : cl_bitmap} {count r : Nat} (word : count < modulus)
    (done : alloc_bits fuel b count = some (r,b')) :
    Claimed b b' r count ∨ (r = HAL_BITMAP_ALLOC_BIT_ERROR ∧ Same b b') := by
  unfold alloc_bits at done
  split at done
  · rcases restart_scan_spec done with ⟨above,claimed⟩ | error
    · rw [toInt_positive word above] at claimed
      exact .inl claimed
    · exact .inr error
  · next one =>
    have single : count = 1 := by omega
    subst single
    rcases cl_bitmap_alloc_bit_spec b with ⟨bit,got,inside,clear,_⟩ | ⟨got,_⟩
    · rw [got] at done
      cases done
      exact .inl (claimed_one _ inside clear)
    · rw [got] at done
      cases done
      exact .inr ⟨rfl,rfl,rfl⟩

/-- Bits that were clear become a live range. -/
theorem owned_claim {s : Memory} {live : List (Nat × Nat)} {ram count r : Nat} {bitmap : cl_bitmap}
    (owned : Owned s live) (inside : ram < s.cur_ram_info) (positive : 0 < count)
    (claimed : Claimed (s.static_clusters ram).bitmap bitmap r count) :
    Owned (s.set ram { s.static_clusters ram with bitmap, free := sub (s.static_clusters ram).free count })
      (((s.static_clusters ram).page r,count) :: live) := by
  have before := owned.sound ram inside
  have counted := clearBits_claimed claimed
  have usable := sound_usbale before
  have mask := before.mask
  have most := clearBits_card_le (s.static_clusters ram).bitmap
  have within := claimed.within
  have exact : sub (s.static_clusters ram).free count = (clearBits bitmap).card := by
    rw [before.free,sub_exact (by omega) (by unfold PAGE_SIZE at usable; omega)]
    omega
  rw [exact]
  have sound : Cluster.Sound { s.static_clusters ram with bitmap, free := (clearBits bitmap).card } :=
    { before with mask := claimed.mask.trans mask, free := rfl }
  have holds : Cluster.Holds { s.static_clusters ram with bitmap, free := (clearBits bitmap).card }
      ((s.static_clusters ram).page r,count) := ⟨r,rfl,positive,by dsimp only; omega⟩
  have covered : ∀ j, Covers ((s.static_clusters ram).page r,count) ((s.static_clusters ram).page j) ↔
      r ≤ j ∧ j < r + count := holds_covers rfl
  refine owned_set owned inside rfl rfl rfl rfl sound ?_ ?_ ?_ ?_
  · intro e member
    rcases List.mem_cons.mp member with rfl | old
    · exact .inr holds
    · exact .inl old
  · intro i insideI
    dsimp only at insideI ⊢
    rw [claimed.bits,Bool.or_eq_true,decide_eq_true_eq,owned.bits ram inside i insideI,← covered]
    change _ ∨ _ ↔ ∃ e ∈ _, Covers e ((s.static_clusters ram).page i)
    simp only [List.mem_cons,exists_eq_or_imp]
  · intro a elsewhere
    have missed := elsewhere _ holds
    simp only [List.mem_cons,exists_eq_or_imp,missed,false_or]
  · refine List.pairwise_cons.mpr ⟨?_,owned.disjoint⟩
    intro f member
    obtain ⟨other,below,holdsF⟩ := owned.held f member
    by_cases this : other = ram
    · subst this
      refine holds_disjoint_same (c := s.static_clusters other) ⟨r,rfl,positive,by omega⟩ holdsF ?_
      intro i insideI new old
      have set := (owned.bits other below i insideI).mpr ⟨f,member,old⟩
      obtain ⟨low,high⟩ := (covered i).mp new
      rw [claimed.fresh i low high] at set
      cases set
    · exact holds_disjoint before (owned.sound other below) (owned.apart ram inside other below (Ne.symm this))
        ⟨r,rfl,positive,by omega⟩ holdsF

/-- The address of the bits that were claimed is the one of the first page, and it is not 0. -/
theorem claimed_page {c : Cluster} {bitmap : cl_bitmap} {r count : Nat} (sound : c.Sound) (positive : 0 < count)
    (claimed : Claimed c.bitmap bitmap r count) :
    r ≠ HAL_BITMAP_ALLOC_BIT_ERROR ∧ add (r * PAGE_SIZE) c.ram_base = c.page r ∧ c.page r ≠ 0 := by
  have within := claimed.within
  have usable := sound_usbale sound
  have top := sound.top
  rw [sound.mask] at within
  have place := sound_page sound (i := r) (by omega)
  refine ⟨?_,?_,by omega⟩
  · unfold HAL_BITMAP_ALLOC_BIT_ERROR
    unfold PAGE_SIZE modulus at usable
    omega
  · unfold Cluster.page at *
    rw [add_exact (by unfold PAGE_SIZE at *; omega)]
    omega

/-- An attempt in a sound cluster: it is full, or there is no such run of bits and the hint has moved at most, or the bits
    are claimed. -/
theorem allocate_cases {s s' : Memory} {fuel ram count page : Nat} (sound : (s.static_clusters ram).Sound) (positive : 0 < count)
    (word : count < modulus) (done : allocate fuel ram count s = some (page,s')) :
    ((s.static_clusters ram).free = 0 ∧ page = 0 ∧ s' = s) ∨
    (∃ bitmap, alloc_bits fuel (s.static_clusters ram).bitmap count = some (HAL_BITMAP_ALLOC_BIT_ERROR,bitmap) ∧
      Same (s.static_clusters ram).bitmap bitmap ∧ page = 0 ∧ s' = s.set ram { s.static_clusters ram with bitmap }) ∨
    ∃ r bitmap, Claimed (s.static_clusters ram).bitmap bitmap r count ∧ page = (s.static_clusters ram).page r ∧ page ≠ 0 ∧
      s' = s.set ram { s.static_clusters ram with bitmap, free := sub (s.static_clusters ram).free count } := by
  unfold allocate at done
  dsimp only at done
  split at done
  · next empty =>
    cases done
    exact .inl ⟨empty,rfl,rfl⟩
  · cases result : alloc_bits fuel (s.static_clusters ram).bitmap count with
    | none => rw [result] at done; cases done
    | some found =>
      obtain ⟨r,bitmap⟩ := found
      rw [result] at done
      dsimp only at done
      rcases alloc_bits_spec word result with claimed | ⟨error,same⟩
      · obtain ⟨small,address,some⟩ := claimed_page sound positive claimed
        rw [if_neg small,address] at done
        cases done
        exact .inr (.inr ⟨r,bitmap,claimed,rfl,some,rfl⟩)
      · rw [if_pos error] at done
        cases done
        exact .inr (.inl ⟨bitmap,error ▸ rfl,same,rfl,rfl⟩)

/-- `allocate` hands out a range that nobody owns, or nothing. -/
theorem allocate_owned {s s' : Memory} {live : List (Nat × Nat)} {fuel ram count page : Nat} (owned : Owned s live)
    (inside : ram < s.cur_ram_info) (positive : 0 < count) (word : count < modulus)
    (done : allocate fuel ram count s = some (page,s')) :
    s'.cur_ram_info = s.cur_ram_info ∧ Owned s' (if page = 0 then live else (page,count) :: live) := by
  rcases allocate_cases (owned.sound ram inside) positive word done with
    ⟨_,rfl,rfl⟩ | ⟨bitmap,_,same,rfl,rfl⟩ | ⟨r,bitmap,claimed,rfl,some,rfl⟩
  · exact ⟨rfl,owned⟩
  · exact ⟨rfl,owned_set_same owned inside rfl rfl rfl rfl rfl same⟩
  · rw [if_neg some]
    exact ⟨rfl,owned_claim owned inside positive claimed⟩

theorem listed_of_head {s : Memory} {k ram : Nat}
    (member : ram ∈ (s.ram_nodes[k]?.map (·.clusters)).getD []) : ram ∈ listed s := by
  cases found : s.ram_nodes[k]? with
  | none => rw [found] at member; simp at member
  | some head =>
    rw [found] at member
    exact List.mem_flatMap.mpr ⟨head,List.mem_of_getElem? found,by simpa using member⟩

theorem km_cluster_alloc_owned {s : Memory} {live : List (Nat × Nat)} (node : Int) (totally_using : Bool)
    (owned : Owned s live) :
    (km_cluster_alloc node totally_using s).2.cur_ram_info = s.cur_ram_info ∧
      Owned (km_cluster_alloc node totally_using s).2 live ∧
      ∀ ram, (km_cluster_alloc node totally_using s).1 = some ram → ram < s.cur_ram_info := by
  unfold km_cluster_alloc
  dsimp only
  split
  · exact ⟨rfl,owned,by intro ram impossible; cases impossible⟩
  · split
    · exact ⟨rfl,owned,by intro ram impossible; cases impossible⟩
    · next ram found =>
      have inside := (owned.members ram).mp (listed_of_head (List.mem_of_find?_eq_some found))
      refine ⟨rfl,owned_set_same owned inside rfl rfl rfl rfl rfl ⟨rfl,rfl⟩,?_⟩
      intro other same
      cases same
      exact inside

theorem km_get_current_cluster_owned {s : Memory} {live : List (Nat × Nat)} (cpu : Nat) (owned : Owned s live) :
    (km_get_current_cluster cpu s).2.cur_ram_info = s.cur_ram_info ∧ Owned (km_get_current_cluster cpu s).2 live ∧
      ∀ ram, (km_get_current_cluster cpu s).1 = some ram → ram < s.cur_ram_info := by
  unfold km_get_current_cluster
  split
  · next cluster found =>
    refine ⟨rfl,owned,?_⟩
    intro ram same
    cases same
    exact owned.current cpu cluster found
  · obtain ⟨count,after,inside⟩ := km_cluster_alloc_owned cpu false owned
    dsimp only
    split
    · exact ⟨count,after,by intro ram impossible; cases impossible⟩
    · next cluster found =>
      refine ⟨count,owned_current cpu after (by rw [count]; exact inside cluster found),?_⟩
      intro ram same
      cases same
      exact inside cluster found

theorem allocate_in_next_owned {s s' : Memory} {live : List (Nat × Nat)} {fuel cpu next count page : Nat}
    (owned : Owned s live) (inside : next < s.cur_ram_info) (positive : 0 < count) (word : count < modulus)
    (done : allocate_in_next fuel cpu next count s = some (page,s')) :
    Owned s' (if page = 0 then live else (page,count) :: live) :=
  (allocate_owned (owned_current cpu owned inside) inside positive word done).2

/-- An allocation on any CPU hands out a range that nobody owns, or nothing. -/
theorem allocate_page_owned {s s' : Memory} {live : List (Nat × Nat)} {fuel cpu count page : Nat} (owned : Owned s live)
    (positive : 0 < count) (word : count < modulus) (done : allocate_page fuel cpu count s = some (page,s')) :
    Owned s' (if page = 0 then live else (page,count) :: live) := by
  obtain ⟨total,current,inside⟩ := km_get_current_cluster_owned cpu owned
  unfold allocate_page at done
  dsimp only at done
  split at done
  · cases done
    exact current
  · next ram found =>
    split at done
    · cases done
    · next page1 s1 first =>
      obtain ⟨total1,owned1⟩ := allocate_owned current (by rw [total]; exact inside ram found) positive word first
      split at done
      · cases done
        exact owned1
      · next none =>
        rw [if_pos (not_not.mp none)] at owned1
        split at done
        · next next before =>
          exact allocate_in_next_owned owned1 ((owned1.members next).mp (listed_of_head (List.mem_of_find?_eq_some before)))
            positive word done
        · obtain ⟨total2,owned2,inside2⟩ := km_cluster_alloc_owned cpu false owned1
          split at done
          · next next fresh =>
            exact allocate_in_next_owned owned2 (by rw [total2]; exact inside2 next fresh) positive word done
          · cases done
            exact owned2

/-! ### Freeing -/

/-- The cluster that a page belongs to is found by its address. -/
theorem km_get_page_node_spec {s : Memory} {live : List (Nat × Nat)} {ram i : Nat} (owned : Owned s live)
    (inside : ram < s.cur_ram_info) (page : i < (s.static_clusters ram).usbale_count) :
    ∃ head ∈ s.ram_nodes, ram ∈ head.clusters ∧
      km_get_page_node ((s.static_clusters ram).page i) s = some (head,ram) := by
  have pfn := sound_pfn (owned.sound ram inside) page
  obtain ⟨home,inNodes,inHome⟩ := List.mem_flatMap.mp ((owned.members ram).mpr inside)
  cases found : km_get_page_node ((s.static_clusters ram).page i) s with
  | none =>
    have missed := List.findSome?_eq_none_iff.mp found home inNodes
    rw [Option.map_eq_none_iff,List.find?_eq_none] at missed
    exact absurd (decide_eq_true pfn) (missed ram inHome)
  | some result =>
    obtain ⟨head,member,here⟩ := List.exists_of_findSome?_eq_some found
    obtain ⟨ram',first,rfl⟩ := Option.map_eq_some_iff.mp here
    have inHead := List.mem_of_find?_eq_some first
    have range := List.find?_some first
    rw [decide_eq_true_eq] at range
    have inside' := (owned.members ram').mp (List.mem_flatMap.mpr ⟨head,member,inHead⟩)
    by_cases same : ram' = ram
    · subst same
      exact ⟨head,member,inHead,rfl⟩
    · have apart := owned.apart ram' inside' ram inside same
      unfold Cluster.Apart at apart
      omega

/-- The bits of a live range become clear. -/
theorem owned_release {s : Memory} {live : List (Nat × Nat)} {e : Nat × Nat} {ram i : Nat} {bitmap : cl_bitmap}
    (owned : Owned s live) (member : e ∈ live) (inside : ram < s.cur_ram_info)
    (start : e.1 = (s.static_clusters ram).page i) (positive : 0 < e.2)
    (range : i + e.2 ≤ (s.static_clusters ram).usbale_count)
    (released : Released (s.static_clusters ram).bitmap bitmap i e.2) :
    Owned (s.set ram { s.static_clusters ram with bitmap, free := add (s.static_clusters ram).free e.2 })
      (live.erase e) := by
  have before := owned.sound ram inside
  have usable := sound_usbale before
  have mask := before.mask
  have covered := holds_covers start
  have set : ∀ j, i ≤ j → j < i + e.2 → test_bit j (s.static_clusters ram).bitmap.bitmap = true := by
    intro j low high
    exact (owned.bits ram inside j (by omega)).mpr ⟨e,member,(covered j).mpr ⟨low,high⟩⟩
  have counted := clearBits_claimed (claimed_of_released released (by omega) set)
  have most := clearBits_card_le bitmap
  have exact : add (s.static_clusters ram).free e.2 = (clearBits bitmap).card := by
    rw [released.mask] at most
    rw [before.free,add_exact (by unfold PAGE_SIZE modulus at *; omega)]
    omega
  rw [exact]
  have sound : Cluster.Sound { s.static_clusters ram with bitmap, free := (clearBits bitmap).card } :=
    { before with mask := released.mask.trans mask, free := rfl }
  have ordered : (e :: live.erase e).Pairwise Disjoint :=
    (List.perm_cons_erase member).pairwise_iff (fun {a b} => Or.symm) |>.mp owned.disjoint
  obtain ⟨away,rest⟩ := List.pairwise_cons.mp ordered
  -- `e` is the only live range over its pages
  have split : ∀ a, (∃ f ∈ live, Covers f a) ↔ Covers e a ∨ ∃ f ∈ live.erase e, Covers f a := by
    intro a
    constructor
    · rintro ⟨f,inLive,covers⟩
      rcases List.mem_cons.mp ((List.perm_cons_erase member).subset inLive) with rfl | later
      · exact .inl covers
      · exact .inr ⟨f,later,covers⟩
    · rintro (covers | ⟨f,later,covers⟩)
      · exact ⟨e,member,covers⟩
      · exact ⟨f,List.mem_of_mem_erase later,covers⟩
  refine owned_set owned inside rfl rfl rfl rfl sound (fun f inRest => .inl (List.mem_of_mem_erase inRest)) ?_ ?_ rest
  · intro j insideJ
    change j < (s.static_clusters ram).usbale_count at insideJ
    change test_bit j bitmap.bitmap = true ↔ ∃ f ∈ live.erase e, Covers f ((s.static_clusters ram).page j)
    rw [released.bits j,Bool.and_eq_true,owned.bits ram inside j insideJ,split]
    simp only [Bool.not_eq_true',decide_eq_false_iff_not,← covered]
    constructor
    · rintro ⟨notHere,here | later⟩
      · exact absurd here notHere
      · exact later
    · rintro ⟨f,later,covers⟩
      exact ⟨fun here => disjoint_covers (away f later) here covers,.inr ⟨f,later,covers⟩⟩
  · intro a elsewhere
    rw [split]
    have missed := elsewhere e ⟨i,start,positive,range⟩
    simp only [missed,false_or]

theorem deallocate_page_owned {s : Memory} {live : List (Nat × Nat)} {page count : Nat} (owned : Owned s live)
    (member : (page,count) ∈ live) : Owned (deallocate_page page count s) (live.erase (page,count)) := by
  obtain ⟨ram,inside,i,start,positive,range⟩ := owned.held _ member
  dsimp only at start positive range
  have before := owned.sound ram inside
  have usable := sound_usbale before
  have place := sound_page before (i := i) (by omega)
  have top := before.top
  obtain ⟨head,_,_,found⟩ := km_get_page_node_spec owned inside (i := i) (by omega)
  have bit : sub page (s.static_clusters ram).ram_base / PAGE_SIZE = i := by
    rw [start]
    unfold Cluster.page at *
    rw [sub_exact (by omega) (by unfold PAGE_SIZE at *; omega),Nat.add_sub_cancel_left]
    exact Nat.mul_div_cancel _ (by decide)
  have set : ∀ j, i ≤ j → j < i + count → test_bit j (s.static_clusters ram).bitmap.bitmap = true := by
    intro j low high
    exact (owned.bits ram inside j (by omega)).mpr ⟨_,member,(holds_covers start j).mpr ⟨low,high⟩⟩
  rw [deallocate_page,start,found]
  rw [start] at member bit
  dsimp only
  rw [bit]
  split
  · next single =>
    subst single
    obtain ⟨success,released⟩ := cl_bitmap_dealloc_bit_spec (set i le_rfl (by omega))
    rw [success,if_neg (by simp)]
    exact owned_release owned member inside rfl positive range released
  · have value : (toInt count).toNat = count := by
      unfold PAGE_SIZE modulus at usable
      unfold toInt
      rw [if_pos (by omega),Int.toNat_natCast]
    rw [value]
    exact owned_release owned member inside rfl positive range (cl_bitmap_dealloc_consistent_bits_spec set)

/-! ### Inserting RAM -/

/-- A region of RAM, its address and its bytes. -/
def Within (c : Cluster) (region : Nat × Nat) : Prop :=
  region.1 ≤ c.start_pfn * PAGE_SIZE ∧ c.end_pfn * PAGE_SIZE + PAGE_SIZE ≤ region.1 + region.2

theorem round_up_size {page_count : Nat} (positive : 0 < page_count) (small : page_count ≤ 8192) :
    km_page_round_count (cl_bitmap_calc_size page_count) = 1 := by
  unfold km_page_round_count cl_bitmap_calc_size PAGE_SIZE
  split <;> omega

/-- The cluster of `t` bytes at the page `p`: it takes the pages that the bytes reach into, and the first of them holds
    the bitmap. -/
theorem new_cluster_eq (content : Words) {p t : Nat} (last : Bool) (positive : 0 < t) (small : t ≤ KM_CLUSTER_SIZE)
    (top : PAGE_SIZE * p + t ≤ modulus) : new_cluster content (PAGE_SIZE * p) t last = { zero_cluster with
      start_pfn := p, end_pfn := p + km_page_round_count t - 1, ram_base := add (PAGE_SIZE * p) (1 * PAGE_SIZE)
      bitmap := cl_bitmap_init zero_cluster.bitmap content (km_page_round_count t - 1)
      usbale_count := km_page_round_count t - 1, free := km_page_round_count t - 1, is_end_node := last } := by
  generalize rounds : km_page_round_count t = n
  have bounds : n * 4096 < t + 4096 ∧ t ≤ n * 4096 := by
    unfold km_page_round_count PAGE_SIZE at rounds
    omega
  obtain ⟨low,high⟩ := bounds
  have first : km_page_address_to_pfn (PAGE_SIZE * p) = p := by
    unfold km_page_address_to_pfn PAGE_SIZE; omega
  have final : km_page_address_to_pfn (sub (add (PAGE_SIZE * p) t) 1) = p + n - 1 := by
    unfold km_page_address_to_pfn sub add PAGE_SIZE modulus at *
    omega
  have count : add (sub (p + n - 1) p) 1 = n := by
    unfold PAGE_SIZE at *
    unfold modulus at top
    rw [sub_exact (by omega) (by unfold modulus; omega),add_exact (by unfold modulus; omega)]
    omega
  have one : km_page_round_count (cl_bitmap_calc_size n) = 1 := round_up_size (by omega)
    (by unfold KM_CLUSTER_SIZE at small; omega)
  have usable : sub n 1 = n - 1 := sub_exact (by omega) (by unfold KM_CLUSTER_SIZE at small; unfold modulus; omega)
  unfold new_cluster
  dsimp only
  rw [first,final,count,one,usable]

/-- A cluster carved out of a region: one page of bitmap, the rest free. -/
theorem new_cluster_sound (content : Words) {start t : Nat} (last : Bool) (aligned : PAGE_SIZE ∣ start)
    (pages : PAGE_SIZE ∣ t) (positive : 0 < t) (small : t ≤ KM_CLUSTER_SIZE) (top : start + t ≤ modulus) :
    (new_cluster content start t last).Sound ∧ Within (new_cluster content start t last) (start,t) ∧
      ∀ i < (new_cluster content start t last).usbale_count,
        test_bit i (new_cluster content start t last).bitmap.bitmap = false := by
  obtain ⟨p,rfl⟩ := aligned
  obtain ⟨n,rfl⟩ := pages
  have count : km_page_round_count (PAGE_SIZE * n) = n := by
    unfold km_page_round_count PAGE_SIZE
    omega
  rw [new_cluster_eq content last positive small top,count]
  have clear : ∀ i < n - 1, test_bit i (cl_bitmap_init zero_cluster.bitmap content (n - 1)).bitmap = false :=
    fun i inside => cl_bitmap_init_clear _ _ inside
  have all : clearBits (cl_bitmap_init zero_cluster.bitmap content (n - 1)) = Finset.range (n - 1) := by
    refine Finset.filter_true_of_mem ?_
    intro i inside
    exact clear i (Finset.mem_range.mp inside)
  have base : 0 < n - 1 → add (PAGE_SIZE * p) (1 * PAGE_SIZE) = PAGE_SIZE * p + PAGE_SIZE := by
    intro some
    rw [Nat.one_mul]
    refine add_exact ?_
    unfold PAGE_SIZE modulus at *
    omega
  refine ⟨?_,?_,clear⟩
  · constructor
    · rfl
    · dsimp only
      rw [all,Finset.card_range]
    · unfold PAGE_SIZE at *; dsimp only; omega
    · intro some
      unfold Cluster.page
      dsimp only at some ⊢
      rw [base some]
      unfold PAGE_SIZE at *
      omega
    · intro some
      dsimp only at some ⊢
      rw [base some]
      unfold PAGE_SIZE
      omega
    · intro some
      dsimp only at some ⊢
      rw [base some]
      exact Dvd.dvd.add (Nat.dvd_mul_right ..) (Nat.dvd_refl _)
  · unfold Within PAGE_SIZE at *
    dsimp only
    omega

/-- The clusters in place keep clear of the `size` bytes at `start`. -/
def Avoids (s : Memory) (start size : Nat) : Prop := ∀ ram < s.cur_ram_info,
  (s.static_clusters ram).end_pfn * PAGE_SIZE + PAGE_SIZE ≤ start ∨
    start + size ≤ (s.static_clusters ram).start_pfn * PAGE_SIZE

theorem add_cluster_members {nodes : List ClusterHead} {k : Nat} (ram : Nat) (inside : k < nodes.length) (x : Nat) :
    x ∈ (add_cluster nodes k ram).flatMap (·.clusters) ↔ x ∈ nodes.flatMap (·.clusters) ∨ x = ram := by
  have whole : nodes = nodes.take k ++ nodes[k] :: nodes.drop (k+1) := by simp
  rw [add_cluster,List.modify_eq_take_cons_drop inside]
  conv_rhs => rw [whole]
  simp only [List.flatMap_append,List.flatMap_cons,List.mem_append,List.mem_singleton]
  tauto

/-- One more cluster, all of its pages free. -/
theorem owned_insert {s : Memory} {live : List (Nat × Nat)} {k start t : Nat} (content : Words) (last : Bool)
    (owned : Owned s live)
    (inside : k < s.ram_nodes.length) (avoids : Avoids s start t) (aligned : PAGE_SIZE ∣ start) (pages : PAGE_SIZE ∣ t)
    (positive : 0 < t) (small : t ≤ KM_CLUSTER_SIZE) (top : start + t ≤ modulus) :
    Owned { s.set s.cur_ram_info (new_cluster content start t last) with
      cur_ram_info := s.cur_ram_info + 1
      ram_nodes := add_cluster s.ram_nodes k s.cur_ram_info } live := by
  obtain ⟨sound,within,clear⟩ := new_cluster_sound content last aligned pages positive small top
  generalize new_cluster content start t last = c at *
  have new : Function.update s.static_clusters s.cur_ram_info c s.cur_ram_info = c := Function.update_self ..
  have old : ∀ ram < s.cur_ram_info, Function.update s.static_clusters s.cur_ram_info c ram = s.static_clusters ram :=
    fun ram below => Function.update_of_ne (Nat.ne_of_lt below) ..
  have newApart : ∀ ram < s.cur_ram_info, (s.static_clusters ram).Apart c := by
    intro ram below
    have := avoids ram below
    unfold Within at within
    unfold Cluster.Apart PAGE_SIZE at *
    dsimp only at within
    omega
  constructor
  · intro ram
    change ram ∈ (add_cluster s.ram_nodes k s.cur_ram_info).flatMap (·.clusters) ↔ ram < s.cur_ram_info + 1
    rw [add_cluster_members _ inside]
    have members := owned.members ram
    unfold listed at members
    rw [members]
    omega
  · intro cpu ram found
    have := owned.current cpu ram found
    dsimp only
    omega
  · intro ram below
    dsimp only [Memory.set] at below ⊢
    by_cases this : ram = s.cur_ram_info
    · rw [this,new]; exact sound
    · rw [old ram (by omega)]; exact owned.sound ram (by omega)
  · intro ram below other below' differ
    dsimp only [Memory.set] at below below' ⊢
    by_cases this : ram = s.cur_ram_info
    · rw [this,new,old other (by omega)]
      exact (newApart other (by omega)).symm
    · by_cases that : other = s.cur_ram_info
      · rw [that,new,old ram (by omega)]
        exact newApart ram (by omega)
      · rw [old ram (by omega),old other (by omega)]
        exact owned.apart ram (by omega) other (by omega) differ
  · intro e member
    obtain ⟨ram,below,holds⟩ := owned.held e member
    refine ⟨ram,Nat.lt_succ_of_lt below,?_⟩
    dsimp only [Memory.set]
    rwa [old ram below]
  · intro ram below i insideI
    dsimp only [Memory.set] at below insideI ⊢
    by_cases this : ram = s.cur_ram_info
    · rw [this,new] at insideI ⊢
      rw [clear i insideI]
      -- the live ranges are in other clusters
      simp only [Bool.false_eq_true,false_iff,not_exists,not_and]
      intro e member
      obtain ⟨other,below',holds⟩ := owned.held e member
      exact covers_elsewhere (owned.sound other below') sound (newApart other below') holds insideI
    · rw [old ram (by omega)] at insideI ⊢
      exact owned.bits ram (by omega) i insideI
  · exact owned.disjoint

/-- The size of the first cluster of a region for which `i + 1` more are wanted. -/
theorem chunk_spec {size i : Nat} (pages : PAGE_SIZE ∣ size) (wanted : i * KM_CLUSTER_SIZE < size) :
    let t := if KM_CLUSTER_SIZE > size then size else KM_CLUSTER_SIZE
    t ≤ size ∧ t ≤ KM_CLUSTER_SIZE ∧ 0 < t ∧ PAGE_SIZE ∣ t ∧ (0 < i → t = KM_CLUSTER_SIZE) := by
  have one : 0 < KM_CLUSTER_SIZE := by decide
  have cluster : PAGE_SIZE ∣ KM_CLUSTER_SIZE := by decide
  dsimp only
  split
  · next short =>
    refine ⟨le_rfl,short.le,by omega,pages,?_⟩
    intro more
    have : KM_CLUSTER_SIZE ≤ i * KM_CLUSTER_SIZE := Nat.le_mul_of_pos_left _ more
    omega
  · exact ⟨by omega,le_rfl,one,cluster,fun _ => rfl⟩

/-- Behind the new cluster there are those that were there. -/
theorem set_cases (s : Memory) (c : Cluster) {ram : Nat} (below : ram < s.cur_ram_info + 1) :
    (ram < s.cur_ram_info ∧ (s.set s.cur_ram_info c).static_clusters ram = s.static_clusters ram) ∨
      (s.set s.cur_ram_info c).static_clusters ram = c := by
  by_cases this : ram = s.cur_ram_info
  · rw [this]
    exact .inr (Function.update_self ..)
  · exact .inl ⟨by omega,Function.update_of_ne this ..⟩

/-- The clusters of a region: they keep clear of what was there, and lie inside. -/
theorem insert_clusters_owned (content : Nat → Words) {live : List (Nat × Nat)} {k i start size : Nat} {s : Memory}
    (owned : Owned s live)
    (inside : k < s.ram_nodes.length) (avoids : Avoids s start size) (aligned : PAGE_SIZE ∣ start)
    (pages : PAGE_SIZE ∣ size) (top : start + size ≤ modulus) (word : size < modulus)
    (enough : i = 0 ∨ (i - 1) * KM_CLUSTER_SIZE < size) :
    Owned (insert_clusters content k i start size s).2 live ∧
      ∀ ram < (insert_clusters content k i start size s).2.cur_ram_info,
        (ram < s.cur_ram_info ∧
          (insert_clusters content k i start size s).2.static_clusters ram = s.static_clusters ram) ∨
        Within ((insert_clusters content k i start size s).2.static_clusters ram) (start,size) := by
  induction i generalizing start size s with
  | zero => exact ⟨owned,fun ram below => .inl ⟨below,rfl⟩⟩
  | succ i ih =>
    have wanted : i * KM_CLUSTER_SIZE < size := by simpa using enough
    rw [insert_clusters]
    dsimp only
    split
    · exact ⟨owned,fun ram below => .inl ⟨below,rfl⟩⟩
    · generalize chunk : (if KM_CLUSTER_SIZE > size then size else KM_CLUSTER_SIZE) = t
      obtain ⟨le,small,positive,whole,full⟩ := chunk_spec pages wanted
      rw [chunk] at le small positive whole full
      have here : Avoids s start t := by
        intro ram below
        rcases avoids ram below with low | high
        · exact .inl low
        · exact .inr (by omega)
      have inserted := owned_insert (content start) (i == 0) owned inside here aligned whole positive small (by omega)
      have within := (new_cluster_sound (content start) (i == 0) aligned whole positive small (by omega)).2.1
      generalize new_cluster (content start) start t (i == 0) = c at *
      have grown : Within c (start,size) := by
        unfold Within at *
        dsimp only at *
        omega
      cases i with
      | zero =>
        refine ⟨inserted,fun ram below => ?_⟩
        change ram < s.cur_ram_info + 1 at below
        change (ram < s.cur_ram_info ∧ (s.set s.cur_ram_info c).static_clusters ram = s.static_clusters ram) ∨
          Within ((s.set s.cur_ram_info c).static_clusters ram) (start,size)
        rcases set_cases s c below with kept | placed
        · exact .inl kept
        · rw [placed]
          exact .inr grown
      | succ i =>
        have isFull := full (by omega)
        subst isFull
        have more : (i + 1) * KM_CLUSTER_SIZE = i * KM_CLUSTER_SIZE + KM_CLUSTER_SIZE := Nat.succ_mul ..
        rw [add_exact (by omega),sub_exact (by omega) (by omega)]
        have later : Avoids { s.set s.cur_ram_info c with
            cur_ram_info := s.cur_ram_info + 1
            ram_nodes := add_cluster s.ram_nodes k s.cur_ram_info } (start + KM_CLUSTER_SIZE) (size - KM_CLUSTER_SIZE) := by
          intro ram below
          change ram < s.cur_ram_info + 1 at below
          dsimp only
          rcases set_cases s c below with ⟨earlier,kept⟩ | placed
          · rw [kept]
            rcases avoids ram earlier with low | high
            · exact .inl (by omega)
            · exact .inr (by omega)
          · rw [placed]
            unfold Within at within
            dsimp only at within
            exact .inl within.2
        obtain ⟨after,clusters⟩ := ih inserted (by simpa [add_cluster] using inside) later
          (Dvd.dvd.add aligned whole) (Nat.dvd_sub pages whole) (by omega) (by omega) (.inr (by simp; omega))
        refine ⟨after,fun ram below => ?_⟩
        rcases clusters ram below with ⟨early,same⟩ | inRest
        · change ram < s.cur_ram_info + 1 at early
          rw [same]
          dsimp only
          rcases set_cases s c early with kept | placed
          · exact .inl kept
          · rw [placed]
            exact .inr grown
        · refine .inr ?_
          unfold Within at *
          dsimp only at *
          omega

/-- The number of rounds never exceeds the clusters of the region, even when the
    rounding up of `size` wraps. -/
theorem rounds_enough {size : Nat} (word : size < modulus) :
    sub (add size KM_CLUSTER_SIZE) 1 / KM_CLUSTER_SIZE = 0 ∨
      (sub (add size KM_CLUSTER_SIZE) 1 / KM_CLUSTER_SIZE - 1) * KM_CLUSTER_SIZE < size := by
  unfold sub add KM_CLUSTER_SIZE modulus at *
  omega

/-! ### Runs -/

/-- The memories made by `km_insert_ram` on regions that do not meet. -/
inductive Boot : Memory → List (Nat × Nat) → Prop
  | init : Boot km_cluster_init []
  | insert {s : Memory} {regions : List (Nat × Nat)} {start size : Nat} (content : Nat → Words) (node : Int)
      (boot : Boot s regions) (aligned : PAGE_SIZE ∣ start) (pages : PAGE_SIZE ∣ size) (word : size < modulus)
      (top : start + size ≤ modulus)
      (apart : ∀ region ∈ regions, region.1 + region.2 ≤ start ∨ start + size ≤ region.1) :
      Boot (km_insert_ram content start size node s).2 ((start,size) :: regions)

/-- The memories reached by allocations that return, on any CPU, and frees of live
    ranges, with the live ranges: an address and a number of pages each. -/
inductive Run : Memory → List (Nat × Nat) → Prop
  | boot {s : Memory} {regions : List (Nat × Nat)} (boot : Boot s regions) : Run s []
  | alloc {s s' : Memory} {live : List (Nat × Nat)} {fuel cpu count page : Nat} (run : Run s live)
      (positive : 0 < count) (word : count < modulus) (done : allocate_page fuel cpu count s = some (page,s')) :
      Run s' (if page = 0 then live else (page,count) :: live)
  | free {s : Memory} {live : List (Nat × Nat)} {page count : Nat} (run : Run s live) (owned : (page,count) ∈ live) :
      Run (deallocate_page page count s) (live.erase (page,count))

theorem owned_head {s : Memory} {live : List (Nat × Nat)} (owned : Owned s live) (node : Int) :
    Owned { s with ram_nodes := s.ram_nodes ++ [⟨node,[]⟩] } live where
  members := by
    intro ram
    have members := owned.members ram
    unfold listed at *
    simpa using members
  current := owned.current
  sound := owned.sound
  apart := owned.apart
  held := owned.held
  bits := owned.bits
  disjoint := owned.disjoint

/-- The RAM of a region that keeps clear of the clusters in place. -/
theorem km_insert_ram_owned (content : Nat → Words) {s : Memory} {live : List (Nat × Nat)} {start size : Nat} (node : Int)
    (owned : Owned s live) (avoids : Avoids s start size) (aligned : PAGE_SIZE ∣ start) (pages : PAGE_SIZE ∣ size)
    (word : size < modulus) (top : start + size ≤ modulus) :
    Owned (km_insert_ram content start size node s).2 live ∧
      ∀ ram < (km_insert_ram content start size node s).2.cur_ram_info,
        (ram < s.cur_ram_info ∧
          (km_insert_ram content start size node s).2.static_clusters ram = s.static_clusters ram) ∨
        Within ((km_insert_ram content start size node s).2.static_clusters ram) (start,size) := by
  rw [km_insert_ram,if_neg (not_not.mpr (Nat.mod_eq_zero_of_dvd aligned))]
  dsimp only
  split
  · next k found =>
    exact insert_clusters_owned content owned (List.findIdx?_eq_some_iff_getElem.mp found).1 avoids aligned pages top word
      (rounds_enough word)
  · split
    · exact ⟨owned,fun ram below => .inl ⟨below,rfl⟩⟩
    · exact insert_clusters_owned content (owned_head owned node) (by simp) avoids aligned pages top word
        (rounds_enough word)

theorem init_owned : Owned km_cluster_init [] where
  members := by
    intro ram
    simp [listed,km_cluster_init]
  current := by intro cpu ram found; cases found
  sound := fun ram below => absurd below (Nat.not_lt_zero _)
  apart := fun ram below => absurd below (Nat.not_lt_zero _)
  held := by intro e member; cases member
  bits := fun ram below => absurd below (Nat.not_lt_zero _)
  disjoint := .nil

theorem boot_owned {s : Memory} {regions : List (Nat × Nat)} (boot : Boot s regions) :
    Owned s [] ∧ ∀ ram < s.cur_ram_info, ∃ region ∈ regions, Within (s.static_clusters ram) region := by
  induction boot with
  | init =>
    exact ⟨init_owned,fun ram below => absurd below (Nat.not_lt_zero _)⟩
  | insert content node boot aligned pages word top apart ih =>
    rename_i s regions start size
    obtain ⟨owned,inRegions⟩ := ih
    have avoids : Avoids s start size := by
      intro ram below
      obtain ⟨region,member,within⟩ := inRegions ram below
      have := apart region member
      unfold Within at within
      omega
    obtain ⟨after,places⟩ := km_insert_ram_owned content node owned avoids aligned pages word top
    refine ⟨after,fun ram below => ?_⟩
    rcases places ram below with ⟨early,same⟩ | here
    · obtain ⟨region,member,within⟩ := inRegions ram early
      exact ⟨region,by simp [member],by rw [same]; exact within⟩
    · exact ⟨_,by simp,here⟩

theorem run_owned {s : Memory} {live : List (Nat × Nat)} (run : Run s live) : Owned s live := by
  induction run with
  | boot boot => exact (boot_owned boot).1
  | alloc run positive word done ih => exact allocate_page_owned ih positive word done
  | free run owned ih => exact deallocate_page_owned ih owned

/-- In every state of every run each live range lies in one cluster, which is found from
    any of its pages, the ranges do not meet, and the free counters are right. -/
theorem run_ownership {s : Memory} {live : List (Nat × Nat)} (run : Run s live) :
    live.Pairwise (fun e f => e.1 + e.2 * PAGE_SIZE ≤ f.1 ∨ f.1 + f.2 * PAGE_SIZE ≤ e.1) ∧
      (∀ e ∈ live, ∃ ram < s.cur_ram_info, (s.static_clusters ram).ram_base ≤ e.1 ∧
        e.1 + e.2 * PAGE_SIZE ≤ (s.static_clusters ram).end_pfn * PAGE_SIZE + PAGE_SIZE ∧
        ∀ i < e.2, ∃ head ∈ s.ram_nodes, ram ∈ head.clusters ∧
          km_get_page_node (e.1 + i * PAGE_SIZE) s = some (head,ram)) ∧
      ∀ ram < s.cur_ram_info, (s.static_clusters ram).free =
        ((Finset.range (s.static_clusters ram).usbale_count).filter
          (fun i => test_bit i (s.static_clusters ram).bitmap.bitmap = false)).card := by
  have owned := run_owned run
  refine ⟨owned.disjoint,?_,?_⟩
  · intro e member
    obtain ⟨ram,below,i,start,positive,range⟩ := owned.held e member
    have sound := owned.sound ram below
    have last := sound_page sound (i := i + e.2 - 1) (by omega)
    refine ⟨ram,below,?_,?_,?_⟩
    · rw [start]; exact Nat.le_add_right ..
    · unfold Cluster.page PAGE_SIZE at *
      omega
    · intro j inside
      have page : e.1 + j * PAGE_SIZE = (s.static_clusters ram).page (i + j) := by
        unfold Cluster.page PAGE_SIZE at *
        omega
      rw [page]
      exact km_get_page_node_spec owned below (by omega)
  · intro ram below
    have sound := owned.sound ram below
    rw [sound.free,clearBits,sound.mask]

/-- Two pages out of a region of four, whose first page holds the bitmap; the third one was taken and given back. -/
theorem run_ownership_first_range : ∃ s head ram,
    Run s [(1052672,2)] ∧ km_get_page_node 1056768 s = some (head,ram) := by
  have pages : (allocate_page 1 0 2 (km_insert_ram (fun _ _ => 0) 1048576 16384 0 km_cluster_init).2).bind (fun a =>
      (allocate_page 1 0 1 a.2).map (fun b => (a.1,b.1))) = some (1052672,1060864) := by decide +kernel
  obtain ⟨⟨page,s⟩,first,pages⟩ := Option.bind_eq_some_iff.mp pages
  obtain ⟨⟨page',s'⟩,second,answer⟩ := Option.map_eq_some_iff.mp pages
  obtain ⟨rfl,rfl⟩ := Prod.mk.inj answer
  have boot : Boot _ [(1048576,16384)] := .insert (fun _ _ => 0) 0 .init (by decide) (by decide) (by decide) (by decide)
    (by simp)
  have both : Run s' [(1060864,1),(1052672,2)] :=
    .alloc (.alloc (.boot boot) (by decide) (by decide) first) (by decide) (by decide) second
  have run : Run (deallocate_page 1060864 1 s') [(1052672,2)] := .free both (by simp)
  obtain ⟨ram,below,_,_,found⟩ := (run_ownership run).2.1 (1052672,2) (by simp)
  obtain ⟨head,_,_,node⟩ := found 1 (by decide)
  exact ⟨_,head,ram,run,node⟩

end GridOS.Pages
