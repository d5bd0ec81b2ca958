import GridOS.PagesRuns

/-!
What `deallocate_page` does with a range that is not a live one. The bits are given back one by one up to the first that is
clear already; for a single page the answer of the bitmap decides whether a page is counted, and for several pages
all of them are counted, whatever has been given back.
-/
namespace GridOS.Pages
open GridOS.Words GridOS.Bits GridOS.Bitmap

/-- The free pages among those for use. -/
def Cluster.clear_pages (c : Cluster) : Nat := ((Finset.range c.usbale_count).filter (fun i => test_bit i c.bitmap.bitmap = false)).card

/-- The counters of the free pages are right, and no bit of a page outside the range has changed. -/
structure Accounted (s s' : Memory) (page count : Nat) : Prop where
  free : ∀ ram ∈ listed s, (s'.static_clusters ram).free = (s'.static_clusters ram).clear_pages
  outside : ∀ ram ∈ listed s, ∀ i < (s.static_clusters ram).usbale_count,
    (∀ j < count, km_page_address_to_pfn ((s.static_clusters ram).page i) ≠ km_page_address_to_pfn page + j) →
      test_bit i (s'.static_clusters ram).bitmap.bitmap = test_bit i (s.static_clusters ram).bitmap.bitmap

/-- The bit of an address, which is none of the pages for use if the address lies in front of them. -/
def Cluster.bit (c : Cluster) (page : Nat) : Nat := sub page c.ram_base / PAGE_SIZE

/-- A single page is one for use, or its bit is clear; or all of the bits are set and belong to pages for use. -/
def Cluster.Takes (c : Cluster) (page count : Nat) : Prop :=
  (count = 1 ∧ (c.bit page < c.usbale_count ∨ test_bit (c.bit page) c.bitmap.bitmap = false)) ∨
    ∀ i, c.bit page ≤ i → i < c.bit page + count → i < c.usbale_count ∧ test_bit i c.bitmap.bitmap = true

/-! ### One cluster -/

section
variable {c : Cluster} {page count : Nat} (sound : c.Sound)

include sound in
/-- The free pages are the clear bits of the map. -/
theorem clear_pages_card : c.clear_pages = (clearBits c.bitmap).card := by
  rw [Cluster.clear_pages,clearBits,sound.mask]

include sound in
/-- From the bit of an address on, the bits are those of the pages behind it. -/
theorem bit_page (word : page < modulus) {i : Nat} (inside : i < c.usbale_count) (behind : c.bit page ≤ i) :
    km_page_address_to_pfn (c.page i) = km_page_address_to_pfn page + (i - c.bit page) := by
  have positive : 0 < c.usbale_count := by omega
  have ends := sound.ends positive
  have top := sound.top
  obtain ⟨r,base⟩ := sound.aligned positive
  have low : c.ram_base < modulus := by
    unfold Cluster.page PAGE_SIZE at ends
    unfold PAGE_SIZE at top
    omega
  by_cases above : c.ram_base ≤ page
  · have bit : c.bit page = (page - c.ram_base) / PAGE_SIZE := by rw [Cluster.bit,sub_exact above word]
    unfold km_page_address_to_pfn Cluster.page
    rw [bit] at behind ⊢
    unfold PAGE_SIZE at *
    omega
  · -- the difference wraps, and there is no page for use so far behind the base
    have bit : c.bit page = (page + (modulus - c.ram_base)) / PAGE_SIZE := by
      rw [Cluster.bit,sub,Nat.mod_eq_of_lt low,Nat.mod_eq_of_lt (by omega)]
    rw [bit] at behind
    unfold Cluster.page at ends
    unfold PAGE_SIZE at *
    omega

end

/-- The cluster that is found by an address is a listed one. -/
theorem found_listed {s : Memory} {page ram : Nat} {head : ClusterHead} (found : km_get_page_node page s = some (head,ram)) :
    ram ∈ listed s := by
  obtain ⟨other,member,here⟩ := List.exists_of_findSome?_eq_some found
  obtain ⟨ram',first,same⟩ := Option.map_eq_some_iff.mp here
  cases same
  exact List.mem_flatMap.mpr ⟨_,member,List.mem_of_find?_eq_some first⟩

/-- When the first `k` bits of the range have been given back, all that matters is the counter. -/
theorem released_accounted {s : Memory} {page count ram k free : Nat} {bitmap : cl_bitmap}
    (sound : ∀ ram ∈ listed s, (s.static_clusters ram).Sound) (word : page < modulus) (member : ram ∈ listed s) (few : k ≤ count)
    (set : ∀ i, (s.static_clusters ram).bit page ≤ i → i < (s.static_clusters ram).bit page + k →
      test_bit i (s.static_clusters ram).bitmap.bitmap = true)
    (released : Released (s.static_clusters ram).bitmap bitmap ((s.static_clusters ram).bit page) k) :
    Accounted s (s.set ram { s.static_clusters ram with bitmap, free }) page count ↔ free = (s.static_clusters ram).free +
      (min ((s.static_clusters ram).bit page + k) (s.static_clusters ram).usbale_count - (s.static_clusters ram).bit page) := by
  have here : (s.set ram { s.static_clusters ram with bitmap, free }).static_clusters ram = { s.static_clusters ram with bitmap, free } :=
    Function.update_self ..
  have elsewhere : ∀ other, other ≠ ram →
      (s.set ram { s.static_clusters ram with bitmap, free }).static_clusters other = s.static_clusters other :=
    fun other differ => Function.update_of_ne differ ..
  have before := sound ram member
  have counted := clearBits_released released set
  rw [before.mask,← before.free] at counted
  have pages : Cluster.clear_pages { s.static_clusters ram with bitmap, free } = (clearBits bitmap).card := by
    rw [Cluster.clear_pages,clearBits,released.mask,before.mask]
  constructor
  · intro accounted
    have right := accounted.free ram member
    rw [here,pages,counted] at right
    exact right
  · intro right
    refine ⟨fun other inside => ?_,fun other inside i use outside => ?_⟩
    · by_cases same : other = ram
      · rw [same,here,pages,counted]
        exact right
      · rw [elsewhere other same,clear_pages_card (sound other inside)]
        exact (sound other inside).free
    · by_cases same : other = ram
      · subst same
        rw [here,released.bits,decide_eq_false,Bool.not_false,Bool.true_and]
        rintro ⟨low,high⟩
        exact outside (i - (s.static_clusters other).bit page) (by omega) (bit_page before word use low)
      · rw [elsewhere other same]

section
variable {s : Memory} {page ram : Nat} {head : ClusterHead} (sound : ∀ ram ∈ listed s, (s.static_clusters ram).Sound)
  (word : page < modulus) (found : km_get_page_node page s = some (head,ram))

include sound found in
theorem found_few : (s.static_clusters ram).free ≤ (s.static_clusters ram).usbale_count ∧
    (s.static_clusters ram).usbale_count ≤ 1048576 := by
  have before := sound ram (found_listed found)
  have usable := sound_usbale before
  refine ⟨?_,by unfold PAGE_SIZE modulus at usable; omega⟩
  rw [before.free,← before.mask]
  exact clearBits_card_le _

include sound word found in
/-- A single page: a clear bit is refused, and a bit that is given back is counted. -/
theorem deallocate_single : Accounted s (deallocate_page page 1 s) page 1 ↔ (s.static_clusters ram).Takes page 1 := by
  have member := found_listed found
  obtain ⟨most,pages⟩ := found_few sound found
  unfold deallocate_page
  rw [found]
  dsimp only
  rw [← Cluster.bit,if_pos rfl]
  cases first : test_bit ((s.static_clusters ram).bit page) (s.static_clusters ram).bitmap.bitmap with
  | false =>
    have refused : cl_bitmap_dealloc_bit (s.static_clusters ram).bitmap ((s.static_clusters ram).bit page) =
        (false,(s.static_clusters ram).bitmap) := if_pos first
    rw [refused,if_pos rfl]
    have nothing : Released (s.static_clusters ram).bitmap (s.static_clusters ram).bitmap ((s.static_clusters ram).bit page) 0 := by
      refine ⟨rfl,fun i => ?_⟩
      rw [decide_eq_false (by omega),Bool.not_false,Bool.true_and]
    refine (released_accounted sound word member (Nat.zero_le 1) (fun i low high => by omega) nothing).trans ?_
    exact ⟨fun _ => .inl ⟨rfl,.inr first⟩,fun _ => by omega⟩
  | true =>
    obtain ⟨freed,released⟩ := cl_bitmap_dealloc_bit_spec first
    rw [freed,if_neg (by simp),add_exact (by unfold modulus; omega)]
    have set : ∀ i, (s.static_clusters ram).bit page ≤ i → i < (s.static_clusters ram).bit page + 1 →
        test_bit i (s.static_clusters ram).bitmap.bitmap = true := by
      intro i low high
      rw [show i = (s.static_clusters ram).bit page by omega]
      exact first
    refine (released_accounted sound word member le_rfl set released).trans ⟨fun right => .inl ⟨rfl,.inl (by omega)⟩,?_⟩
    rintro (⟨_,inside | clear⟩ | all)
    · omega
    · rw [first] at clear
      cases clear
    · have inside := (all _ le_rfl (by omega)).1
      omega

include sound word found in
/-- Several pages: all of them are counted, also those behind the first bit that is clear already. -/
theorem deallocate_several {count : Nat} (word' : count < modulus) (several : count ≠ 1) :
    Accounted s (deallocate_page page count s) page count ↔ (s.static_clusters ram).Takes page count := by
  have member := found_listed found
  obtain ⟨most,pages⟩ := found_few sound found
  unfold deallocate_page
  rw [found]
  dsimp only
  rw [← Cluster.bit,if_neg several]
  obtain ⟨k,few,set,released,stop⟩ := dealloc_bits_prefix (s.static_clusters ram).bitmap (toInt count).toNat ((s.static_clusters ram).bit page)
  have bound : (toInt count).toNat = if count < 2147483648 then count else 0 := by
    unfold toInt
    unfold modulus at word'
    split <;> omega
  rw [bound] at few stop
  refine (released_accounted sound word member (by split at few <;> omega) set released).trans ?_
  by_cases small : count < 2147483648
  · rw [if_pos small] at few stop
    rw [add_exact (by unfold modulus; omega)]
    constructor
    · intro right
      exact .inr fun i low high => ⟨by omega,set i low (by omega)⟩
    · rintro (⟨one,_⟩ | all)
      · exact absurd one several
      · have whole : k = count := by
          by_contra short
          have clear := stop (by omega)
          rw [(all _ (Nat.le_add_right ..) (by omega)).2] at clear
          cases clear
        rcases Nat.eq_zero_or_pos count with none | positive
        · omega
        · have last := (all ((s.static_clusters ram).bit page + count - 1) (by omega) (by omega)).1
          omega
  · -- the number of bits is negative, so that nothing is given back
    rw [if_neg small] at few
    constructor
    · intro right
      unfold add modulus at right
      unfold modulus at word'
      omega
    · rintro (⟨one,_⟩ | all)
      · exact absurd one several
      · have last := (all ((s.static_clusters ram).bit page + count - 1) (by omega) (by omega)).1
        omega

end

/-- In every memory whose counters are right: after any free they are right again, and no page outside the range has changed,
    if and only if the address belongs to no cluster, or its cluster takes the range. -/
theorem deallocate_accounted_iff {s : Memory} {page count : Nat} (sound : ∀ ram ∈ listed s, (s.static_clusters ram).Sound)
    (word : page < modulus) (word' : count < modulus) : Accounted s (deallocate_page page count s) page count ↔
      ∀ head ram, km_get_page_node page s = some (head,ram) → (s.static_clusters ram).Takes page count := by
  cases found : km_get_page_node page s with
  | none =>
    have unchanged : deallocate_page page count s = s := by rw [deallocate_page,found]
    rw [unchanged]
    refine ⟨fun _ head ram same => (by cases same),fun _ => ⟨fun ram member => ?_,fun _ _ _ _ _ => rfl⟩⟩
    rw [clear_pages_card (sound ram member)]
    exact (sound ram member).free
  | some node =>
    obtain ⟨head,ram⟩ := node
    have takes : (∀ head' ram', some (head,ram) = some (head',ram') → (s.static_clusters ram').Takes page count) ↔
        (s.static_clusters ram).Takes page count :=
      ⟨fun all => all head ram rfl,fun here head' ram' same => by cases same; exact here⟩
    rw [takes]
    by_cases one : count = 1
    · subst one
      exact deallocate_single sound word found
    · exact deallocate_several sound word found word' one

/-- A region of four pages, of which the first holds the bitmap and the others are free. -/
def four : Memory := (km_insert_ram (fun _ _ => 0) 1048576 16384 0 km_cluster_init).2

theorem four_sound : ∀ ram ∈ listed four, (four.static_clusters ram).Sound := by
  have avoids : Avoids km_cluster_init 1048576 16384 := fun ram below => absurd below (Nat.not_lt_zero ram)
  have owned := (km_insert_ram_owned (fun _ _ => 0) 0 init_owned avoids (by decide) (by decide) (by decide) (by decide)).1
  exact fun ram member => owned.sound ram ((owned.members ram).mp member)

/-- Two pages that are free are freed: the counter goes from three to five. -/
theorem free_counted_again : ¬Accounted four (deallocate_page 1052672 2 four) 1052672 2 := by
  intro accounted
  have right := accounted.free 0 (by decide)
  exact absurd right (by decide +kernel)

/-- A single page that is free may be freed; and so may the one of the bitmap, whose bit is far behind the map. -/
theorem deallocate_accounted_single : Accounted four (deallocate_page 1052672 1 four) 1052672 1 ∧
    Accounted four (deallocate_page 1048576 1 four) 1048576 1 := by
  refine ⟨(deallocate_accounted_iff four_sound (by decide) (by decide)).mpr ?_,
    (deallocate_accounted_iff four_sound (by decide) (by decide)).mpr ?_⟩
  · intro head ram found
    have node : km_get_page_node 1052672 four = some (⟨0,[0]⟩,0) := by decide +kernel
    rw [node] at found
    cases found
    exact .inl ⟨rfl,.inl (by decide +kernel)⟩
  · intro head ram found
    have node : km_get_page_node 1048576 four = some (⟨0,[0]⟩,0) := by decide +kernel
    rw [node] at found
    cases found
    exact .inl ⟨rfl,.inr (by decide +kernel)⟩

end GridOS.Pages
