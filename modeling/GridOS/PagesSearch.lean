import GridOS.PagesInsert
import GridOS.BitmapAlloc

/-!
When `allocate_page` gives up. It tries two clusters at most: the current one, and then another one that was used before and
has enough free pages, wherever they are, or else the first one that nobody has. A run of free pages in any other cluster
is not found.
-/
namespace GridOS.Pages
open GridOS.Words GridOS.Bits GridOS.Bitmap GridOS.BitmapScan GridOS.BitmapAlloc

/-- The cluster that a CPU gets in `init_a_cpu`, if there is one. -/
def init_a_cpu (cpu : Nat) (s : Memory) : Memory :=
  let info := km_cluster_alloc 0 false s
  { info.2 with mm_current_cluster := Function.update info.2.mm_current_cluster cpu info.1 }

/-- The memories reached by inserting RAM that keeps clear of the clusters in place, by giving whole clusters to
    anyone, and by allocations on any CPU and frees of live ranges. -/
inductive Reached : Memory → List (Nat × Nat) → Prop
  | init : Reached km_cluster_init []
  | insert {s : Memory} {live : List (Nat × Nat)} {start size : Nat} (content : Nat → Words) (node : Int) (reached : Reached s live)
      (avoids : Avoids s start size) (word : size < modulus) (top : start + size ≤ modulus) :
      Reached (km_insert_ram content start size node s).2 live
  | cluster {s : Memory} {live : List (Nat × Nat)} (node : Int) (totally_using : Bool) (reached : Reached s live) :
      Reached (km_cluster_alloc node totally_using s).2 live
  | cpu {s : Memory} {live : List (Nat × Nat)} (cpu : Nat) (reached : Reached s live) : Reached (init_a_cpu cpu s) live
  | alloc {s s' : Memory} {live : List (Nat × Nat)} {fuel cpu count page : Nat} (reached : Reached s live)
      (positive : 0 < count) (word : count < modulus) (done : allocate_page fuel cpu count s = some (page,s')) :
      Reached s' (if page = 0 then live else (page,count) :: live)
  | free {s : Memory} {live : List (Nat × Nat)} {page count : Nat} (reached : Reached s live) (owned : (page,count) ∈ live) :
      Reached (deallocate_page page count s) (live.erase (page,count))

/-- `count` pages for use, one behind the other, are free. -/
def Cluster.HasRun (c : Cluster) (count : Nat) : Prop :=
  ∃ first, first + count ≤ c.usbale_count ∧ ∀ i, first ≤ i → i < first + count → test_bit i c.bitmap.bitmap = false

/-- The search in the bitmap finds no run, and it ends: all pages are taken, or the last one is free. -/
def Cluster.Refuses (c : Cluster) (count : Nat) : Prop :=
  ¬c.HasRun count ∧
    ((∀ i < c.usbale_count, test_bit i c.bitmap.bitmap = true) ∨ test_bit (c.usbale_count - 1) c.bitmap.bitmap = false)

/-- A cluster of the node that is not totally used. -/
def Serves (s : Memory) (node : Int) (ram : Nat) : Prop :=
  (∃ head ∈ s.ram_nodes, head.node = node ∧ ram ∈ head.clusters) ∧ (s.static_clusters ram).totally_using = false

/-- The clusters that are tried: the current one, or else the first that nobody has, and then the first of the other used
    ones with enough free pages, or else the first that nobody has. -/
def tried (cpu count : Nat) (s : Memory) : List Nat :=
  let current := km_get_current_cluster cpu s
  match current.1 with
  | none => []
  | some ram => ram :: ((used_before ram count current.2).or (km_cluster_alloc cpu false current.2).1).toList

/-- An allocation only returns 0 if no cluster of the node has the pages. -/
def Complete (cpu count : Nat) (s : Memory) : Prop :=
  ∀ fuel s', allocate_page fuel cpu count s = some (0,s') → ∀ ram, Serves s cpu ram → ¬(s.static_clusters ram).HasRun count

/-! ### Reachable memories -/

theorem avoids_rounded {s : Memory} {start size : Nat} (aligned : PAGE_SIZE ∣ start) (avoids : Avoids s start size) :
    Avoids s start (rounded size) := by
  intro ram below
  refine (avoids ram below).imp_right fun high => ?_
  obtain ⟨p,rfl⟩ := aligned
  unfold rounded km_page_round_count
  unfold PAGE_SIZE at *
  omega

/-- RAM of any size. -/
theorem insert_any_owned (content : Nat → Words) {s : Memory} {live : List (Nat × Nat)} {start size : Nat} (node : Int)
    (owned : Owned s live) (avoids : Avoids s start size) (word : size < modulus) (top : start + size ≤ modulus) :
    Owned (km_insert_ram content start size node s).2 live := by
  by_cases aligned : PAGE_SIZE ∣ start
  · rw [← km_insert_ram_rounded content node s aligned top word]
    by_cases fits : rounded size < modulus
    · exact (km_insert_ram_owned content node owned (avoids_rounded aligned avoids) aligned (rounded_bounds size).2.2 fits
        (rounded_top aligned top)).1
    · -- the number of clusters has wrapped
      have whole : rounded size = modulus := by
        have := rounded_top aligned top
        omega
      have none : sub (add (rounded size) KM_CLUSTER_SIZE) 1 / KM_CLUSTER_SIZE = 0 := by
        rw [whole]
        decide
      rw [km_insert_ram,if_neg (not_not.mpr (Nat.mod_eq_zero_of_dvd aligned)),none]
      simp only [insert_clusters]
      split
      · exact owned
      · split
        · exact owned
        · exact owned_head owned node
  · rw [km_insert_ram,if_pos (fun whole => aligned (Nat.dvd_of_mod_eq_zero whole))]
    exact owned

theorem init_a_cpu_owned {s : Memory} {live : List (Nat × Nat)} (cpu : Nat) (owned : Owned s live) : Owned (init_a_cpu cpu s) live := by
  obtain ⟨total,after,inside⟩ := km_cluster_alloc_owned 0 false owned
  unfold init_a_cpu
  dsimp only
  refine ⟨after.members,fun other ram found => ?_,after.sound,after.apart,after.held,after.bits,after.disjoint⟩
  dsimp only at found ⊢
  by_cases this : other = cpu
  · rw [this,Function.update_self] at found
    rw [total]
    exact inside ram found
  · rw [Function.update_of_ne this] at found
    exact after.current other ram found

theorem Reached.owned {s : Memory} {live : List (Nat × Nat)} (reached : Reached s live) : Owned s live := by
  induction reached with
  | init => exact init_owned
  | insert content node reached avoids word top ih => exact insert_any_owned content node ih avoids word top
  | cluster node totally_using reached ih => exact (km_cluster_alloc_owned node totally_using ih).2.1
  | cpu cpu reached ih => exact init_a_cpu_owned cpu ih
  | alloc reached positive word done ih => exact allocate_page_owned ih positive word done
  | free reached owned ih => exact deallocate_page_owned ih owned

/-! ### One cluster -/

section
variable {c : Cluster} {count : Nat}

theorem has_run_iff (mask : c.bitmap.mask_count = c.usbale_count) : c.HasRun count ↔ ∃ first, Free c.bitmap first count := by
  unfold Cluster.HasRun Free
  rw [mask]

/-- A cluster without free pages refuses any number of them. -/
theorem refuses_full (positive : 0 < count) (full : ∀ i < c.usbale_count, test_bit i c.bitmap.bitmap = true) : c.Refuses count := by
  refine ⟨?_,.inl full⟩
  rintro ⟨first,room,clear⟩
  have set := full first (by omega)
  rw [clear first le_rfl (by omega)] at set
  cases set

theorem alloc_bits_one (fuel : Nat) (b : cl_bitmap) : alloc_bits fuel b 1 = some (cl_bitmap_alloc_bit b) := rfl

theorem alloc_bits_more (more : count ≠ 1) (small : count < 2147483648) (fuel : Nat) (b : cl_bitmap) :
    alloc_bits fuel b count = cl_bitmap_alloc_consistant_bits fuel b count := by
  rw [alloc_bits,if_pos more,toInt,if_pos small]

/-- One page is refused exactly when all are taken. -/
theorem alloc_bit_refuses (mask : c.bitmap.mask_count = c.usbale_count) (few : c.usbale_count < modulus) :
    (cl_bitmap_alloc_bit c.bitmap).1 = HAL_BITMAP_ALLOC_BIT_ERROR ↔ c.Refuses 1 := by
  rcases cl_bitmap_alloc_bit_spec c.bitmap with ⟨bit,got,inside,clear,_⟩ | ⟨got,full⟩
  · rw [got]
    constructor
    · intro error
      exact absurd error (bit_valid few (by omega))
    · rintro ⟨none,_⟩
      refine absurd ⟨bit,by omega,fun i low high => ?_⟩ none
      rw [show i = bit by omega]
      exact clear
  · rw [got]
    exact ⟨fun _ => refuses_full Nat.one_pos (by rwa [mask] at full),fun _ => rfl⟩

/-- A search for several pages that has ended without a run could end. -/
theorem search_refuses (mask : c.bitmap.mask_count = c.usbale_count) (positive : (1 : Int) ≤ count) {fuel : Nat} {b' : cl_bitmap}
    (none : ∀ first, ¬Free c.bitmap first count)
    (done : cl_bitmap_alloc_consistant_bits fuel c.bitmap count = some (HAL_BITMAP_ALLOC_BIT_ERROR,b')) : c.Refuses count := by
  refine ⟨fun run => ?_,?_⟩
  · obtain ⟨first,free⟩ := (has_run_iff mask).mp run
    exact none first free
  · by_contra endless
    push Not at endless
    obtain ⟨⟨i,inside,clear⟩,last⟩ := endless
    rw [← mask] at inside last
    have stuck : restart_scan fuel { c.bitmap with last_bit := c.bitmap.last_bit } count false = .none := never_returns positive
      ⟨i,inside,by simpa using clear⟩ (by rwa [Int.toNat_natCast]) (by simpa using last) fuel
    rw [cl_bitmap_alloc_consistant_bits,stuck] at done
    cases done

/-- Several pages are refused exactly when the search ends without a run. -/
theorem alloc_consistant_bits_refuses (mask : c.bitmap.mask_count = c.usbale_count) (few : c.usbale_count < modulus)
    (positive : (1 : Int) ≤ count) :
    (∃ fuel b', cl_bitmap_alloc_consistant_bits fuel c.bitmap count = some (HAL_BITMAP_ALLOC_BIT_ERROR,b')) ↔ c.Refuses count := by
  constructor
  · rintro ⟨fuel,b',done⟩
    cases restart_scan_outcome positive (fun flag => by cases flag) done with
    | found claimed _ =>
      have within := claimed.within
      rw [Int.toNat_natCast] at within
      exact absurd rfl (bit_valid few (by omega : HAL_BITMAP_ALLOC_BIT_ERROR < c.usbale_count))
    | refused _ _ _ none => exact search_refuses mask positive (by rwa [Int.toNat_natCast] at none) done
  · rintro ⟨none,ends⟩
    rw [← mask] at ends
    have returns : ReturnsFrom c.bitmap count c.bitmap.last_bit false :=
      ends.elim (returns_full positive) (returns_clear_end positive)
    obtain ⟨fuel,some⟩ := returns
    obtain ⟨⟨r,b'⟩,done⟩ := Option.isSome_iff_exists.mp some
    cases restart_scan_outcome positive (fun flag => by cases flag) done with
    | found claimed _ =>
      refine absurd ((has_run_iff mask).mpr ⟨r,?_⟩) none
      have within := claimed.within
      have fresh := claimed.fresh
      rw [Int.toNat_natCast] at within fresh
      exact ⟨within,fresh⟩
    | refused error _ _ _ =>
      rw [error] at done
      exact ⟨fuel,b',done⟩

/-- The bits that are asked for are refused exactly when the search ends without a run. -/
theorem alloc_bits_refuses (mask : c.bitmap.mask_count = c.usbale_count) (few : c.usbale_count < modulus) (positive : 0 < count)
    (small : count < 2147483648) :
    (∃ fuel b', alloc_bits fuel c.bitmap count = some (HAL_BITMAP_ALLOC_BIT_ERROR,b')) ↔ c.Refuses count := by
  by_cases one : count = 1
  · subst one
    simp only [alloc_bits_one]
    rw [← alloc_bit_refuses mask few]
    constructor
    · rintro ⟨_,_,same⟩
      rw [Option.some.inj same]
    · intro error
      exact ⟨0,(cl_bitmap_alloc_bit c.bitmap).2,by rw [← error]⟩
  · simp only [alloc_bits_more one small]
    exact alloc_consistant_bits_refuses mask few (by omega)

end

/-! ### One attempt -/

/-- The bits of every cluster are the same. -/
structure Alike (s s' : Memory) : Prop where
  usable : ∀ ram, (s'.static_clusters ram).usbale_count = (s.static_clusters ram).usbale_count
  bits : ∀ ram, (s'.static_clusters ram).bitmap.bitmap = (s.static_clusters ram).bitmap.bitmap

theorem Alike.trans {s s' s'' : Memory} (first : Alike s s') (second : Alike s' s'') : Alike s s'' :=
  ⟨fun ram => (second.usable ram).trans (first.usable ram),fun ram => (second.bits ram).trans (first.bits ram)⟩

theorem Alike.refuses {s s' : Memory} (alike : Alike s s') (ram count : Nat) :
    (s'.static_clusters ram).Refuses count ↔ (s.static_clusters ram).Refuses count := by
  unfold Cluster.Refuses Cluster.HasRun
  rw [alike.usable,alike.bits]

/-- A cluster whose bitmap has another hint. -/
def hinted (s : Memory) (ram : Nat) (bitmap : cl_bitmap) : Memory := s.set ram { s.static_clusters ram with bitmap }

theorem hinted_field {α : Type} (field : Cluster → α) (blind : ∀ c bitmap, field { c with bitmap := bitmap } = field c) (s : Memory)
    (ram : Nat) (bitmap : cl_bitmap) (other : Nat) :
    field ((hinted s ram bitmap).static_clusters other) = field (s.static_clusters other) := by
  by_cases same : other = ram
  · subst same
    rw [hinted,Memory.set]
    dsimp only
    rw [Function.update_self,blind]
  · rw [hinted,Memory.set]
    dsimp only
    rw [Function.update_of_ne same]

theorem hinted_self (s : Memory) (ram : Nat) : hinted s ram (s.static_clusters ram).bitmap = s := by
  rw [hinted,Memory.set]
  exact congrArg (fun clusters => { s with static_clusters := clusters }) (Function.update_eq_self ..)

theorem hinted_alike {s : Memory} {ram : Nat} {bitmap : cl_bitmap} (same : Same (s.static_clusters ram).bitmap bitmap) :
    Alike s (hinted s ram bitmap) := by
  refine ⟨hinted_field (·.usbale_count) (fun _ _ => rfl) s ram bitmap,fun other => ?_⟩
  by_cases here : other = ram
  · subst here
    rw [hinted,Memory.set]
    dsimp only
    rw [Function.update_self]
    exact same.bits
  · rw [hinted,Memory.set]
    dsimp only
    rw [Function.update_of_ne here]

theorem used_before_hinted (s : Memory) (ram : Nat) (bitmap : cl_bitmap) (r count : Nat) :
    used_before r count (hinted s ram bitmap) = used_before r count s := by
  unfold used_before
  rw [hinted_field (·.head) (fun _ _ => rfl),hinted_field (·.real_node) (fun _ _ => rfl)]
  refine List.find?_congr fun next _ => ?_
  rw [hinted_field (·.real_node) (fun _ _ => rfl),hinted_field (·.not_free) (fun _ _ => rfl),
    hinted_field (·.free) (fun _ _ => rfl)]

theorem km_cluster_alloc_hinted (node : Int) (totally_using : Bool) (s : Memory) (ram : Nat) (bitmap : cl_bitmap) :
    (km_cluster_alloc node totally_using (hinted s ram bitmap)).1 = (km_cluster_alloc node totally_using s).1 := by
  have heads : (hinted s ram bitmap).ram_nodes = s.ram_nodes := rfl
  have free (k : Nat) : ((s.ram_nodes[k]?.map (·.clusters)).getD []).find?
      (fun other => !((hinted s ram bitmap).static_clusters other).totally_using && !((hinted s ram bitmap).static_clusters other).not_free) =
      ((s.ram_nodes[k]?.map (·.clusters)).getD []).find?
        (fun other => !(s.static_clusters other).totally_using && !(s.static_clusters other).not_free) := by
    refine List.find?_congr fun other _ => ?_
    rw [hinted_field (·.totally_using) (fun _ _ => rfl),hinted_field (·.not_free) (fun _ _ => rfl)]
  unfold km_cluster_alloc
  dsimp only
  rw [heads]
  cases (s.ram_nodes.findIdx? (·.node == if node = -1 then 0 else node)) with
  | none => rfl
  | some k =>
    dsimp only
    rw [free k]
    cases ((s.ram_nodes[k]?.map (·.clusters)).getD []).find?
      (fun other => !(s.static_clusters other).totally_using && !(s.static_clusters other).not_free) <;> rfl

theorem km_cluster_alloc_alike (node : Int) (totally_using : Bool) (s : Memory) : Alike s (km_cluster_alloc node totally_using s).2 := by
  unfold km_cluster_alloc
  dsimp only
  split
  · exact ⟨fun _ => rfl,fun _ => rfl⟩
  · split
    · exact ⟨fun _ => rfl,fun _ => rfl⟩
    · next ram _ =>
      refine ⟨fun other => ?_,fun other => ?_⟩ <;> by_cases here : other = ram
      · subst here
        simp [Memory.set]
      · simp [Memory.set,here]
      · subst here
        simp [Memory.set]
      · simp [Memory.set,here]

theorem km_get_current_cluster_alike (cpu : Nat) (s : Memory) : Alike s (km_get_current_cluster cpu s).2 := by
  unfold km_get_current_cluster
  split
  · exact ⟨fun _ => rfl,fun _ => rfl⟩
  · have alike := km_cluster_alloc_alike cpu false s
    dsimp only
    split
    · exact alike
    · exact ⟨alike.usable,alike.bits⟩

section
variable {s s' : Memory} {fuel ram count : Nat} (sound : (s.static_clusters ram).Sound) (positive : 0 < count)
  (small : count < 2147483648)

include sound in
theorem sound_few : (s.static_clusters ram).usbale_count < modulus := by
  have usable := sound_usbale sound
  unfold PAGE_SIZE at usable
  unfold modulus at *
  omega

include sound positive small in
/-- An attempt that comes to nothing was refused, and it has moved the hint at most. -/
theorem allocate_null (done : allocate fuel ram count s = some (0,s')) : (s.static_clusters ram).Refuses count ∧
    ∃ bitmap, s' = hinted s ram bitmap ∧ Same (s.static_clusters ram).bitmap bitmap := by
  rcases allocate_cases sound positive (by unfold modulus; omega) done with
    ⟨empty,_,kept⟩ | ⟨bitmap,result,same,_,rfl⟩ | ⟨_,_,_,_,some,_⟩
  · refine ⟨refuses_full positive fun i inside => ?_,_,kept.trans (hinted_self s ram).symm,rfl,rfl⟩
    rw [sound.free,Finset.card_eq_zero] at empty
    have clear : i ∉ clearBits (s.static_clusters ram).bitmap := by simp [empty]
    by_contra unset
    exact clear (Finset.mem_filter.mpr ⟨Finset.mem_range.mpr (by rwa [sound.mask]),by simpa using unset⟩)
  · exact ⟨(alloc_bits_refuses sound.mask (sound_few sound) positive small).mp ⟨fuel,bitmap,result⟩,bitmap,rfl,same⟩
  · exact absurd rfl some

include sound positive small in
/-- An attempt comes to nothing exactly when the cluster refuses. -/
theorem allocate_refuses : (∃ fuel s', allocate fuel ram count s = some (0,s')) ↔ (s.static_clusters ram).Refuses count := by
  refine ⟨fun ⟨fuel,s',done⟩ => (allocate_null sound positive small done).1,fun refuses => ?_⟩
  obtain ⟨fuel,bitmap,result⟩ := (alloc_bits_refuses sound.mask (sound_few sound) positive small).mpr refuses
  unfold allocate
  dsimp only
  by_cases empty : (s.static_clusters ram).free = 0
  · exact ⟨fuel,s,if_pos empty⟩
  · refine ⟨fuel,hinted s ram bitmap,?_⟩
    rw [if_neg empty,result]
    dsimp only
    rw [if_pos rfl]
    rfl

end

theorem allocate_mono {s s' : Memory} {fuel more ram count page : Nat} (less : fuel ≤ more)
    (done : allocate fuel ram count s = some (page,s')) : allocate more ram count s = some (page,s') := by
  unfold allocate at done ⊢
  dsimp only at done ⊢
  split at done
  · next empty => rwa [if_pos empty]
  · next some =>
    rw [if_neg some]
    cases result : alloc_bits fuel (s.static_clusters ram).bitmap count with
    | none => rw [result] at done; cases done
    | some found =>
      have same : alloc_bits more (s.static_clusters ram).bitmap count = .some found := by
        unfold alloc_bits at result ⊢
        split at result
        · next several =>
          rw [if_pos several]
          exact restart_scan_mono less result
        · next one => rwa [if_neg one]
      rw [result] at done
      rwa [same]

/-! ### Both attempts -/

/-- The memory in which the second cluster is tried. -/
def second_memory (cpu ram count : Nat) (s : Memory) : Memory :=
  if (used_before ram count s).isSome then s else (km_cluster_alloc cpu false s).2

/-- The cluster that is tried behind `ram`. -/
def second_cluster (cpu ram count : Nat) (s : Memory) : Option Nat := (used_before ram count s).or (km_cluster_alloc cpu false s).1

/-- What follows when the first cluster has refused. -/
theorem allocate_page_second {s s1 : Memory} {fuel cpu count ram : Nat} (current : (km_get_current_cluster cpu s).1 = some ram)
    (first : allocate fuel ram count (km_get_current_cluster cpu s).2 = some (0,s1)) : allocate_page fuel cpu count s =
      match second_cluster cpu ram count s1 with
      | none => some (0,second_memory cpu ram count s1)
      | some next => allocate fuel next count (set_current_cluster cpu next (second_memory cpu ram count s1)) := by
  unfold allocate_page second_cluster second_memory
  dsimp only
  rw [current]
  dsimp only
  rw [first]
  dsimp only
  rw [if_neg (by simp)]
  cases used_before ram count s1 with
  | some next => rfl
  | none =>
    dsimp only
    cases (km_cluster_alloc cpu false s1).1 <;> rfl

/-- An allocation that returns 0 has tried the first cluster in vain. -/
theorem allocate_page_first {s s' : Memory} {fuel cpu count ram : Nat} (current : (km_get_current_cluster cpu s).1 = some ram)
    (done : allocate_page fuel cpu count s = some (0,s')) :
    ∃ s1, allocate fuel ram count (km_get_current_cluster cpu s).2 = some (0,s1) := by
  unfold allocate_page at done
  dsimp only at done
  rw [current] at done
  dsimp only at done
  split at done
  · cases done
  · next page s1 first =>
    split at done
    · next some =>
      simp only [Option.some.injEq,Prod.mk.injEq] at done
      exact absurd done.1 some
    · next none => exact ⟨s1,by rw [first,not_not.mp none]⟩

theorem second_alike (cpu ram count : Nat) (s : Memory) : Alike s (second_memory cpu ram count s) := by
  unfold second_memory
  split
  · exact ⟨fun _ => rfl,fun _ => rfl⟩
  · exact km_cluster_alloc_alike cpu false s

theorem second_owned {s : Memory} {live : List (Nat × Nat)} (cpu ram count : Nat) (owned : Owned s live) :
    Owned (second_memory cpu ram count s) live ∧
      ∀ next, second_cluster cpu ram count s = some next → next < (second_memory cpu ram count s).cur_ram_info := by
  obtain ⟨total,after,inside⟩ := km_cluster_alloc_owned cpu false owned
  unfold second_memory second_cluster
  cases used : used_before ram count s with
  | some other =>
    refine ⟨owned,fun next same => ?_⟩
    cases same
    exact (owned.members other).mp (listed_of_head (List.mem_of_find?_eq_some used))
  | none =>
    refine ⟨after,fun next same => ?_⟩
    rw [if_neg (by simp),total]
    exact inside next same

/-- An allocation returns 0 exactly when both clusters that it tries refuse. -/
theorem allocate_page_refuses {s : Memory} {live : List (Nat × Nat)} {cpu count : Nat} (owned : Owned s live) (positive : 0 < count)
    (small : count < 2147483648) : (∃ fuel s', allocate_page fuel cpu count s = some (0,s')) ↔
      ∀ ram ∈ tried cpu count s, (s.static_clusters ram).Refuses count := by
  have alike := km_get_current_cluster_alike cpu s
  obtain ⟨total,owned0,inside⟩ := km_get_current_cluster_owned cpu owned
  cases current : (km_get_current_cluster cpu s).1 with
  | none =>
    have none : tried cpu count s = [] := by
      unfold tried
      dsimp only
      rw [current]
    rw [none]
    refine ⟨fun _ _ member => absurd member (by simp),fun _ => ⟨0,(km_get_current_cluster cpu s).2,?_⟩⟩
    unfold allocate_page
    dsimp only
    rw [current]
  | some ram =>
    have both : tried cpu count s = ram :: (second_cluster cpu ram count (km_get_current_cluster cpu s).2).toList := by
      unfold tried second_cluster
      dsimp only
      rw [current]
    have below := inside ram current
    rw [← total] at below
    have sound := owned0.sound ram below
    have word : count < modulus := by unfold modulus; omega
    rw [both,List.forall_mem_cons,← alike.refuses]
    -- what is tried behind the first cluster, and in which memory, does not depend on its hint
    have onward : ∀ {fuel s1}, allocate fuel ram count (km_get_current_cluster cpu s).2 = some (0,s1) →
        second_cluster cpu ram count s1 = second_cluster cpu ram count (km_get_current_cluster cpu s).2 ∧ Alike s s1 ∧ Owned s1 live := by
      intro fuel s1 first
      obtain ⟨_,bitmap,rfl,same⟩ := allocate_null sound positive small first
      refine ⟨?_,alike.trans (hinted_alike same),?_⟩
      · rw [second_cluster,second_cluster,used_before_hinted,km_cluster_alloc_hinted]
      · have after := (allocate_owned owned0 below positive word first).2
        rwa [if_pos rfl] at after
    have next_refuses : ∀ {fuel s1 next}, allocate fuel ram count (km_get_current_cluster cpu s).2 = some (0,s1) →
        second_cluster cpu ram count s1 = some next →
        ((∃ fuel s', allocate fuel next count (set_current_cluster cpu next (second_memory cpu ram count s1)) = some (0,s')) ↔
          (s.static_clusters next).Refuses count) := by
      intro fuel s1 next first second
      obtain ⟨_,alike1,owned1⟩ := onward first
      obtain ⟨owned2,inside2⟩ := second_owned cpu ram count owned1
      have owned3 := owned_current cpu owned2 (inside2 next second)
      rw [allocate_refuses (owned3.sound next (inside2 next second)) positive small]
      exact (alike1.trans (second_alike cpu ram count s1)).refuses next count
    constructor
    · rintro ⟨fuel,s',done⟩
      obtain ⟨s1,first⟩ := allocate_page_first current done
      obtain ⟨selected,_⟩ := onward first
      refine ⟨(allocate_null sound positive small first).1,fun next member => ?_⟩
      rw [Option.mem_toList,← selected] at member
      rw [allocate_page_second current first,member] at done
      exact (next_refuses first member).mp ⟨fuel,s',done⟩
    · rintro ⟨refuses,rest⟩
      obtain ⟨fuel,s1,first⟩ := (allocate_refuses sound positive small).mpr refuses
      obtain ⟨selected,_⟩ := onward first
      cases second : second_cluster cpu ram count s1 with
      | none => exact ⟨fuel,second_memory cpu ram count s1,by rw [allocate_page_second current first,second]⟩
      | some next =>
        have refuses' := rest next (by rw [Option.mem_toList,← selected,second])
        obtain ⟨fuel',s',last⟩ := (next_refuses first second).mpr refuses'
        have first' := allocate_mono (Nat.le_max_left fuel fuel') first
        refine ⟨max fuel fuel',s',?_⟩
        rw [allocate_page_second current first',second]
        exact allocate_mono (Nat.le_max_right fuel fuel') last

/-- No cluster has 2^31 pages. -/
theorem has_run_small {c : Cluster} {count : Nat} (sound : c.Sound) (run : c.HasRun count) : count < 2147483648 := by
  obtain ⟨first,room,_⟩ := run
  have usable := sound_usbale sound
  unfold PAGE_SIZE modulus at usable
  omega

/-- In every reachable memory: a CPU's allocation only returns 0 when no cluster of its node has the pages if and only
    if no cluster has, or one of the clusters that are tried does not refuse, because it has them or because the search in its
    bitmap does not end. -/
theorem allocation_complete_iff {s : Memory} {live : List (Nat × Nat)} (reached : Reached s live) (cpu : Nat) {count : Nat} (positive : 0 < count) :
    Complete cpu count s ↔ (∀ ram, Serves s cpu ram → ¬(s.static_clusters ram).HasRun count) ∨
      ∃ ram ∈ tried cpu count s, ¬(s.static_clusters ram).Refuses count := by
  have owned := reached.owned
  by_cases small : count < 2147483648
  · have refuses := @allocate_page_refuses _ _ cpu _ owned positive small
    constructor
    · intro complete
      rw [or_iff_not_imp_right]
      intro all
      push Not at all
      obtain ⟨fuel,s',done⟩ := refuses.mpr all
      exact complete fuel s' done
    · rintro (none | ⟨ram,member,takes⟩) fuel s' done
      · exact none
      · exact absurd (refuses.mp ⟨fuel,s',done⟩ ram member) takes
  · have none : ∀ ram, Serves s cpu ram → ¬(s.static_clusters ram).HasRun count := by
      rintro ram ⟨⟨head,member,_,inside⟩,_⟩ run
      have listed := (owned.members ram).mp (List.mem_flatMap.mpr ⟨head,member,inside⟩)
      exact small (has_run_small (owned.sound ram listed) run)
    exact ⟨fun _ => .inl none,fun _ _ _ _ => none⟩

/-- Three regions of node 0, with three pages, one page and three pages for use. -/
def three : Memory :=
  (km_insert_ram (fun _ _ => 0) 3145728 16384 0
    (km_insert_ram (fun _ _ => 0) 2097152 8192 0 (km_insert_ram (fun _ _ => 0) 1048576 16384 0 km_cluster_init).2).2).2

theorem three_reached : Reached three [] := by
  refine .insert _ 0 (.insert _ 0 (.insert _ 0 .init ?_ (by decide) (by decide)) ?_ (by decide) (by decide)) ?_ (by decide) (by decide)
  all_goals
    unfold Avoids
    decide +kernel

/-- Two single pages are taken from the first region and one is given back, and two pages are asked for, so that the
    second region becomes current. Two more are then looked for in the first region, whose two free pages do not lie
    together, and nowhere else: the third region belongs to nobody, and all of it is free. -/
theorem used_cluster_in_vain : ∃ s, Reached s [(1056768,1)] ∧ ¬Complete 0 2 s := by
  have run : ((allocate_page 8 0 1 three).bind fun a => (allocate_page 8 0 1 a.2).bind fun b =>
      (allocate_page 8 0 2 (deallocate_page 1052672 1 b.2)).bind fun c => (allocate_page 8 0 2 c.2).map fun d =>
        ([a.1,b.1,c.1,d.1,(c.2.static_clusters 2).usbale_count],c.2.ram_nodes,[(c.2.static_clusters 2).totally_using,
          test_bit 0 (c.2.static_clusters 2).bitmap.bitmap,test_bit 1 (c.2.static_clusters 2).bitmap.bitmap])) =
      some ([1052672,1056768,0,0,3],[⟨0,[0,1,2]⟩],[false,false,false]) := by decide +kernel
  obtain ⟨⟨p,s1⟩,first,run⟩ := Option.bind_eq_some_iff.mp run
  obtain ⟨⟨q,s2⟩,second,run⟩ := Option.bind_eq_some_iff.mp run
  obtain ⟨⟨r,s3⟩,third,run⟩ := Option.bind_eq_some_iff.mp run
  obtain ⟨⟨z,s4⟩,fourth,answer⟩ := Option.map_eq_some_iff.mp run
  simp only [Prod.mk.injEq,List.cons.injEq,and_true] at answer
  obtain ⟨⟨rfl,rfl,rfl,rfl,usable⟩,heads,ordinary,clear0,clear1⟩ := answer
  have one := Reached.alloc three_reached (by decide) (by decide) first
  have two := Reached.alloc one (by decide) (by decide) second
  have freed : Reached (deallocate_page 1052672 1 s2) _ := .free two (by simp)
  have last := Reached.alloc freed (by decide) (by decide) third
  refine ⟨s3,by simpa using last,fun complete => ?_⟩
  refine complete 8 s4 fourth 2 ⟨⟨⟨0,[0,1,2]⟩,by simp [heads],rfl,by simp⟩,ordinary⟩ ⟨0,by omega,fun i _ high => ?_⟩
  interval_cases i
  · exact clear0
  · exact clear1

end GridOS.Pages
