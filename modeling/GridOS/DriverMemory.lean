import GridOS.PagesUse

/-!
The memory of the driver subsystem. `allocate_physical_bulk` of `source/kernel/ddk_for_drv.c` hands
a whole cluster to it, but marks the cluster as one that the kernel uses: the slow path of
`allocate_page` takes pages from every such cluster of its node. A run keeps the two apart when
before each allocation the clusters of the drivers come behind others that have the pages.
-/
namespace GridOS.Pages
open GridOS.Words GridOS.Bits GridOS.Bitmap

/-- A TODO in the source. -/
def km_cluster_dealloc_base (_physical_base : Nat) (_force : Bool) (s : Memory) : Memory := s

/-- The start and the size that are returned; `mapped` is whether `km_map_physical` succeeds. -/
def allocate_physical_bulk (mapped : Bool) (s : Memory) : (Nat × Nat) × Memory :=
  let found := km_cluster_alloc (-1) false s
  match found.1 with
  | none => ((0,0),found.2)
  | some ram =>
    let cluster := found.2.static_clusters ram
    if mapped then ((cluster.ram_base,cluster.usbale_count * PAGE_SIZE % modulus),found.2)
    else ((0,0),km_cluster_dealloc_base cluster.ram_base true found.2)

/-- The cluster that a bulk request hands out, with the range that it returns. -/
def handed_out (mapped : Bool) (s : Memory) : List (Nat × Nat × Nat) :=
  match (km_cluster_alloc (-1) false s).1 with
  | none => []
  | some ram => if mapped then [(ram,(allocate_physical_bulk mapped s).1)] else []

/-- Before an allocation: the cluster that is tried first has the pages one behind the other, or every cluster of its node that
    was `given` to the drivers and has as many free pages comes behind another used one that has them. -/
def Spares (given : List (Nat × Nat × Nat)) (cpu count : Nat) (s : Memory) : Prop :=
  ∀ ram, TriedFirst cpu s ram → (s.static_clusters ram).HasRun count ∨
    ∀ d ∈ given, ∀ node, Lists s node ram → Roomy s node ram count d.1 → ∃ other < d.1, Roomy s node ram count other

/-- The memories reached by inserting RAM that keeps clear of the clusters in place, by bulk requests
    and by allocations that spare the drivers, with the ranges that the allocations have returned
    (an address and a number of pages) and the clusters that the drivers were given (with the
    address and the bytes that were returned). -/
inductive DriverRun : Memory → List (Nat × Nat) → List (Nat × Nat × Nat) → Prop
  | init : DriverRun km_cluster_init [] []
  | insert {s : Memory} {live : List (Nat × Nat)} {given : List (Nat × Nat × Nat)} {start size : Nat}
      (content : Nat → Words) (node : Int) (run : DriverRun s live given) (avoids : Avoids s start size)
      (word : size < modulus) (top : start + size ≤ modulus) :
      DriverRun (km_insert_ram content start size node s).2 live given
  | bulk {s : Memory} {live : List (Nat × Nat)} {given : List (Nat × Nat × Nat)} (mapped : Bool)
      (run : DriverRun s live given) :
      DriverRun (allocate_physical_bulk mapped s).2 live (handed_out mapped s ++ given)
  | alloc {s s' : Memory} {live : List (Nat × Nat)} {given : List (Nat × Nat × Nat)} {fuel cpu count page : Nat}
      (run : DriverRun s live given) (positive : 0 < count) (word : count < modulus) (spares : Spares given cpu count s)
      (done : allocate_page fuel cpu count s = some (page,s')) :
      DriverRun s' (if page = 0 then live else (page,count) :: live) given

section Steps
variable {s : Memory} {live : List (Nat × Nat)} {given : List (Nat × Nat × Nat)}

/-- The slow path does not come to a cluster of the drivers. -/
theorem pick_spared {s' : Memory} {fuel cpu count ram next : Nat} (separate : Separate s live given) (positive : 0 < count)
    (word : count < modulus) (spares : Spares given cpu count s) (found : (km_get_current_cluster cpu s).1 = some ram)
    (first : allocate fuel ram count (km_get_current_cluster cpu s).2 = some (0,s'))
    (before : used_before ram count s' = some next) : ∀ d ∈ given, next ≠ d.1 := by
  obtain ⟨separate₀,kernel⟩ := km_get_current_cluster_separate cpu separate
  obtain ⟨total,_,inside⟩ := km_get_current_cluster_owned cpu separate.owned
  have below : ram < (km_get_current_cluster cpu s).2.cur_ram_info := by
    rw [total]
    exact inside ram found
  have sound := separate₀.owned.sound ram below
  have owned := (allocate_owned separate₀.owned below positive word first).2
  rw [if_pos rfl] at owned
  -- no cluster has 2^31 pages
  have small : count < 2147483648 := by
    have listed := listed_of_head (List.mem_of_find?_eq_some before)
    have room := List.find?_some before
    simp only [Bool.and_eq_true,decide_eq_true_eq] at room
    have next_sound := owned.sound next ((owned.members next).mp listed)
    have usable := sound_usbale next_sound
    have few := free_few next_sound
    unfold PAGE_SIZE modulus at usable
    omega
  obtain ⟨refuses,bitmap,same,_⟩ := allocate_null sound positive small first
  rw [same,used_before_hinted] at before
  have tried := (tried_first_iff separate.filed cpu ram).mp found
  rcases spares ram tried with run | behind
  · have alike := km_get_current_cluster_alike cpu s
    exact absurd run ((alike.refuses ram count).mp refuses).1
  · obtain ⟨head,member,listed⟩ := List.mem_flatMap.mp ((separate₀.owned.members ram).mpr below)
    have lists : Lists (km_get_current_cluster cpu s).2 head.node ram := ⟨head,member,rfl,listed⟩
    obtain ⟨roomy,least⟩ := (used_before_spec separate₀.filed lists (kernel ram found).1).1 next before
    intro d driver same
    have lists₀ : Lists s head.node ram := by
      rw [Lists,(km_get_current_cluster_frame cpu s).1] at lists
      exact lists
    obtain ⟨other,less,also⟩ := behind d driver head.node lists₀ (same ▸ (roomy_current found next).mp roomy)
    exact least other (same ▸ less) ((roomy_current found other).mpr also)

/-- A cluster that was not used goes to the drivers. -/
theorem bulk_separate (mapped : Bool) (separate : Separate s live given) :
    Separate (allocate_physical_bulk mapped s).2 live (handed_out mapped s ++ given) := by
  obtain ⟨keeps,current,fresh⟩ := km_cluster_alloc_keeps (-1) false s
  have separate₁ := km_cluster_alloc_separate (-1) false separate
  obtain ⟨count,_,inside⟩ := km_cluster_alloc_owned (-1) false separate.owned
  rw [handed_out]
  cases found : (km_cluster_alloc (-1) false s).1 with
  | none => simpa [allocate_physical_bulk,found] using separate₁
  | some ram =>
    cases mapped with
    | false => simpa [allocate_physical_bulk,found,km_cluster_dealloc_base] using separate₁
    | true =>
      obtain ⟨unused,used⟩ := fresh ram found
      have answer : allocate_physical_bulk true s =
          ((((km_cluster_alloc (-1) false s).2.static_clusters ram).ram_base,
            ((km_cluster_alloc (-1) false s).2.static_clusters ram).usbale_count * PAGE_SIZE % modulus),
            (km_cluster_alloc (-1) false s).2) := by
        simp [allocate_physical_bulk,found]
      rw [answer]
      refine ⟨separate₁.owned,separate₁.filed,separate₁.kept,fun d member => ?_⟩
      rcases List.mem_cons.mp member with rfl | old
      · refine ⟨by rw [count]; exact inside ram found,rfl,Nat.mod_le _ _,used,fun cpu now => ?_,fun e live_now holds => ?_⟩
        · rw [current] at now
          rw [(separate.filed.current cpu ram now).2] at unused
          cases unused
        · have below := inside ram found
          rw [separate.kept e live_now ram below ((keeps.holds below e).mp holds)] at unused
          cases unused
      · exact separate₁.drivers d old

end Steps

theorem driver_run_separate {s : Memory} {live : List (Nat × Nat)} {given : List (Nat × Nat × Nat)}
    (run : DriverRun s live given) : Separate s live given := by
  induction run with
  | init =>
    constructor
    · exact init_owned
    · exact init_filed
    · intro e member
      cases member
    · intro d member
      cases member
  | insert content node run avoids word top ih => exact km_insert_ram_separate content node ih avoids word top
  | bulk mapped run ih => exact bulk_separate mapped ih
  | alloc run positive word spares done ih =>
    exact allocate_page_separate ih positive word
      (fun _ _ found first _ before => pick_spared ih positive word spares found first before) done

/-- No page of a range that the kernel has allocated is one that the drivers were given. -/
theorem driver_memory_exclusive {s : Memory} {live : List (Nat × Nat)} {given : List (Nat × Nat × Nat)}
    (run : DriverRun s live given) : ∀ e ∈ live, ∀ d ∈ given, ∀ a, Covers e a → ¬(d.2.1 ≤ a ∧ a < d.2.1 + d.2.2) := by
  have separate := driver_run_separate run
  intro e member d given_away a covers inside
  obtain ⟨below,base,size,_,_,not_held⟩ := separate.drivers d given_away
  obtain ⟨ram,below',holds⟩ := separate.owned.held e member
  have differ : d.1 ≠ ram := by
    intro same
    rw [← same] at holds
    exact not_held e member holds
  have whole : (s.static_clusters d.1).Holds (d.2.1,(s.static_clusters d.1).usbale_count) := by
    refine ⟨0,?_,?_,?_⟩
    · simp [Cluster.page,base]
    · by_contra empty
      obtain none : (s.static_clusters d.1).usbale_count = 0 := by omega
      rw [none] at size
      omega
    · simp
  have disjoint := holds_disjoint (separate.owned.sound d.1 below) (separate.owned.sound ram below')
    (separate.owned.apart d.1 below ram below' differ) whole holds
  unfold Covers at covers
  unfold Disjoint at disjoint
  dsimp only at disjoint
  omega

/-- A region with one page beside the bitmap, and one with three. -/
def two_regions : Memory :=
  (km_insert_ram (fun _ _ => 0) 0x200000 0x4000 0 (km_insert_ram (fun _ _ => 0) 0x100000 0x2000 0 km_cluster_init).2).2

/-- A region with two pages beside the bitmap, and one with three. -/
def larger_regions : Memory :=
  (km_insert_ram (fun _ _ => 0) 0x200000 0x4000 0 (km_insert_ram (fun _ _ => 0) 0x100000 0x3000 0 km_cluster_init).2).2

/-- The kernel takes a page of the first region, the drivers the second region, and the kernel takes its other page. -/
theorem driver_memory_exclusive_second_region : ∃ s, DriverRun s [(0x102000,1),(0x101000,1)] [(1,0x201000,0x3000)] ∧
    ¬Covers (0x102000,1) 0x201000 := by
  have answers : (allocate_page 1 0 1 larger_regions).bind (fun r =>
      (allocate_page 1 0 1 (allocate_physical_bulk true r.2).2).map (fun q => (handed_out true r.2,
        [r.1,q.1,((allocate_physical_bulk true r.2).2.static_clusters 0).usbale_count],
        (allocate_physical_bulk true r.2).2.mm_current_cluster 0,
        test_bit 1 ((allocate_physical_bulk true r.2).2.static_clusters 0).bitmap.bitmap))) =
      some ([(1,0x201000,0x3000)],[0x101000,0x102000,2],some 0,false) := by decide +kernel
  obtain ⟨⟨page,s⟩,first,answers⟩ := Option.bind_eq_some_iff.mp answers
  obtain ⟨⟨page',s'⟩,second,answer⟩ := Option.map_eq_some_iff.mp answers
  simp only [Prod.mk.injEq,List.cons.injEq,and_true] at answer second
  obtain ⟨handed,⟨page_is,page_is',usable⟩,current,clear⟩ := answer
  have boot : DriverRun larger_regions [] [] := by
    refine .insert (fun _ _ => 0) 0 (.insert (fun _ _ => 0) 0 .init ?_ (by decide) (by decide)) ?_ (by decide) (by decide)
    · exact fun ram below => absurd below (Nat.not_lt_zero _)
    · unfold Avoids
      decide +kernel
  have alloc := DriverRun.alloc boot (by decide) (by decide) (fun _ _ => .inr fun _ impossible => by cases impossible) first
  have bulk := DriverRun.bulk true alloc
  -- the current cluster still has a page
  have spares : Spares (handed_out true s ++ []) 0 1 (allocate_physical_bulk true s).2 := by
    intro ram tried
    rw [TriedFirst,current] at tried
    obtain same | ⟨none,_⟩ := tried
    · rw [← Option.some.inj same]
      refine .inl ⟨1,by omega,fun i low high => ?_⟩
      rw [show i = 1 by omega]
      exact clear
    · cases none
  have run := DriverRun.alloc bulk (by decide) (by decide) spares second
  rw [handed,page_is,page_is',if_neg (by decide),if_neg (by decide),List.append_nil] at run
  refine ⟨_,run,fun covers => ?_⟩
  exact driver_memory_exclusive run _ (by simp) (1,0x201000,0x3000) (by simp) _ covers (by decide)

/-- When its own page is taken, the kernel hands out the first page that it gave to the drivers. -/
theorem driver_page_allocated_again :
    (allocate_page 1 0 1 two_regions).map (fun first => (allocate_physical_bulk true first.2).1) =
      some (0x201000,0x3000) ∧
    ((allocate_page 1 0 1 two_regions).bind (fun first =>
      allocate_page 1 0 1 (allocate_physical_bulk true first.2).2)).map (·.1) = some 0x201000 := by
  decide +kernel

end GridOS.Pages
