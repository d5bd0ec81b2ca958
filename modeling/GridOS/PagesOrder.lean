import GridOS.PagesUse

/-!
When `allocate_page` finds pages that are there. It tries the current cluster, then one other cluster that is used and has
enough free pages, or else one that nobody has, each time the first in the list of the node. A run of free pages does not
stay hidden when the clusters that come first in the list are not the ones whose free pages lie apart or are too few.
-/
namespace GridOS.Pages
open GridOS.Words GridOS.Bits GridOS.Bitmap

/-- The cluster that is tried first has the pages, or it belongs to the node, and the used clusters with enough free pages
    have them in a run, and the ones that nobody has are large enough, unless they come behind others of their kind. -/
def Ordered (cpu count : Nat) (s : Memory) (first : Nat) : Prop :=
  (s.static_clusters first).HasRun count ∨ Lists s cpu first ∧
    (∀ ram, Roomy s cpu first count ram →
      (s.static_clusters ram).HasRun count ∨ ∃ other < ram, Roomy s cpu first count other) ∧
    ∀ ram, Unused s cpu ram → ram ≠ first →
      count ≤ (s.static_clusters ram).usbale_count ∨ (∃ other < ram, other ≠ first ∧ Unused s cpu other) ∨
        ∃ other, Roomy s cpu first count other

/-- Before an allocation: the clusters are so ordered, or there is none to try first and no used one of the node has enough
    free pages. -/
structure Orderly (cpu count : Nat) (s : Memory) : Prop where
  tried : ∀ first, TriedFirst cpu s first → Ordered cpu count s first
  idle : (∀ first, ¬TriedFirst cpu s first) → ∀ ram, Lists s cpu ram → (s.static_clusters ram).not_free = true →
    (s.static_clusters ram).free < count

theorem Reached.separate {s : Memory} {live : List (Nat × Nat)} (reached : Reached s live) : Separate s live [] := by
  induction reached with
  | init => exact ⟨init_owned,init_filed,nofun,nofun⟩
  | insert content node reached avoids word top ih => exact km_insert_ram_separate content node ih avoids word top
  | cluster node totally_using reached ih => exact km_cluster_alloc_separate node totally_using ih
  | cpu cpu reached ih => exact init_a_cpu_separate cpu ih
  | alloc reached positive word done ih => exact allocate_page_separate ih positive word (fun _ _ _ _ _ _ => nofun) done
  | free reached owned ih => exact deallocate_page_separate ih owned

section Clusters
variable {s : Memory} {live : List (Nat × Nat)} {cpu count ram : Nat} {node : Int}

theorem lists_below (separate : Separate s live []) (lists : Lists s node ram) : ram < s.cur_ram_info := by
  obtain ⟨head,member,_,listed⟩ := lists
  exact separate.filed.below head member ram listed

/-- All pages of a cluster that is not used are free. -/
theorem unused_has_run (separate : Separate s live []) (unused : Unused s node ram)
    (large : count ≤ (s.static_clusters ram).usbale_count) : (s.static_clusters ram).HasRun count := by
  have below := lists_below separate unused.1
  refine ⟨0,by omega,fun i _ high => ?_⟩
  by_contra set
  rw [Bool.not_eq_false] at set
  -- a page that is taken belongs to a live range, and its cluster is used
  obtain ⟨e,member,covers⟩ := (separate.owned.bits ram below i (by omega)).mp set
  obtain ⟨other,below',holds⟩ := separate.owned.held e member
  by_cases same : other = ram
  · have used := separate.kept e member ram below (same ▸ holds)
    rw [unused.2.1] at used
    cases used
  · exact covers_elsewhere (separate.owned.sound other below') (separate.owned.sound ram below)
      (separate.owned.apart other below' ram below same) holds (by omega) covers

/-- A run is made of free pages. -/
theorem has_run_free (separate : Separate s live []) (below : ram < s.cur_ram_info)
    (run : (s.static_clusters ram).HasRun count) : count ≤ (s.static_clusters ram).free := by
  have sound := separate.owned.sound ram below
  obtain ⟨first,room,clear⟩ := run
  have inside : Finset.Ico first (first + count) ⊆ clearBits (s.static_clusters ram).bitmap := by
    intro i member
    rw [Finset.mem_Ico] at member
    rw [clearBits,Finset.mem_filter,Finset.mem_range,sound.mask]
    exact ⟨by omega,clear i member.1 member.2⟩
  have card := Finset.card_le_card inside
  rw [Nat.card_Ico,Nat.add_sub_cancel_left] at card
  rw [sound.free]
  exact card

/-- A cluster of the node with the run is the first one, another used one, or one that nobody has. -/
theorem has_run_cases (separate : Separate s live []) (serves : Serves s cpu ram) (first : Nat)
    (run : (s.static_clusters ram).HasRun count) : ram = first ∨ Roomy s cpu first count ram ∨ Unused s cpu ram := by
  by_cases same : ram = first
  · exact .inl same
  · refine .inr ?_
    cases used : (s.static_clusters ram).not_free with
    | true => exact .inl ⟨serves.1,same,used,has_run_free separate (lists_below separate serves.1) run⟩
    | false => exact .inr ⟨serves.1,used,serves.2⟩

/-- A CPU gets a cluster when there is one that nobody has. -/
theorem current_of_unused (separate : Separate s live []) (unused : Unused s cpu ram) :
    ∃ first, (km_get_current_cluster cpu s).1 = some first := by
  have wanted_cpu : wanted cpu = cpu := if_neg (by omega)
  obtain ⟨_,none⟩ := km_cluster_alloc_spec separate.filed cpu false
  rw [wanted_cpu] at none
  unfold km_get_current_cluster
  cases s.mm_current_cluster cpu with
  | some now => exact ⟨now,rfl⟩
  | none =>
    dsimp only
    cases found : (km_cluster_alloc cpu false s).1 with
    | some first => exact ⟨first,rfl⟩
    | none => exact absurd unused (none found ram)

/-- The least roomy cluster has the run. -/
theorem roomy_has_run {first : Nat}
    (ordered : ∀ ram, Roomy s cpu first count ram →
      (s.static_clusters ram).HasRun count ∨ ∃ other < ram, Roomy s cpu first count other)
    (roomy : Roomy s cpu first count ram) (least : ∀ other < ram, ¬Roomy s cpu first count other) :
    (s.static_clusters ram).HasRun count :=
  (ordered ram roomy).resolve_right fun ⟨other,less,also⟩ => least other less also

/-- The cluster that is tried first is a used one then, and the others that nobody has are the same. -/
theorem unused_current {first : Nat} (separate : Separate s live []) (found : (km_get_current_cluster cpu s).1 = some first)
    (other : Nat) : Unused (km_get_current_cluster cpu s).2 node other ↔ Unused s node other ∧ other ≠ first := by
  obtain ⟨heads,same⟩ := km_get_current_cluster_frame cpu s
  have used := ((km_get_current_cluster_separate cpu separate).2 first found).1
  by_cases here : other = first
  · subst here
    simp [Unused,used]
  · have kept := same other (by rw [found]; exact fun other_is => here (Option.some.inj other_is).symm)
    simp only [Unused,Lists,heads,kept,ne_eq,here,not_false_eq_true,and_true]

end Clusters

/-- In every reachable memory: when the clusters are in order before the call, it only returns 0 when no cluster of the node
    has the pages. -/
theorem orderly_complete {s : Memory} {live : List (Nat × Nat)} (reached : Reached s live) (cpu : Nat) {count : Nat}
    (positive : 0 < count) (orderly : Orderly cpu count s) : Complete cpu count s := by
  have separate := reached.separate
  refine (allocation_complete_iff reached cpu positive).mpr ?_
  rw [or_iff_not_imp_right]
  intro refused ram serves run
  have refuses : ∀ other ∈ tried cpu count s, ¬(s.static_clusters other).HasRun count :=
    fun other member => (not_not.mp fun takes => refused ⟨other,member,takes⟩).1
  cases found : (km_get_current_cluster cpu s).1 with
  | none =>
    have idle : ∀ first, ¬TriedFirst cpu s first := by
      intro first tried
      rw [(tried_first_iff separate.filed cpu first).mpr tried] at found
      cases found
    rcases has_run_cases separate serves s.cur_ram_info run with outside | ⟨lists,_,used,room⟩ | unused
    · exact absurd (lists_below separate serves.1) (by omega)
    · exact absurd (orderly.idle idle ram lists used) (by omega)
    · obtain ⟨first,first_found⟩ := current_of_unused separate unused
      rw [first_found] at found
      cases found
  | some first =>
    have both : tried cpu count s = first :: ((used_before first count (km_get_current_cluster cpu s).2).or
        (km_cluster_alloc cpu false (km_get_current_cluster cpu s).2).1).toList := by
      unfold tried
      dsimp only
      rw [found]
    rw [both,List.forall_mem_cons] at refuses
    obtain ⟨first_refuses,next_refuses⟩ := refuses
    obtain ⟨lists,roomy_ordered,unused_ordered⟩ :=
      (orderly.tried first ((tried_first_iff separate.filed cpu first).mp found)).resolve_left first_refuses
    obtain ⟨separate₀,kernel⟩ := km_get_current_cluster_separate cpu separate
    have lists₀ : Lists (km_get_current_cluster cpu s).2 cpu first := by
      rw [Lists,(km_get_current_cluster_frame cpu s).1]
      exact lists
    obtain ⟨picked,none_roomy⟩ := @used_before_spec _ first count cpu separate₀.filed lists₀ (kernel first found).1
    cases pick : used_before first count (km_get_current_cluster cpu s).2 with
    | some next =>
      obtain ⟨roomy,least⟩ := picked next pick
      refine next_refuses next (by rw [pick]; simp) ?_
      exact roomy_has_run roomy_ordered ((roomy_current found next).mp roomy)
        fun other less also => least other less ((roomy_current found other).mpr also)
    | none =>
      have no_roomy : ∀ other, ¬Roomy s cpu first count other :=
        fun other roomy => none_roomy pick other ((roomy_current found other).mpr roomy)
      have wanted_cpu : wanted cpu = cpu := if_neg (by omega)
      obtain ⟨fresh,none_unused⟩ := km_cluster_alloc_spec separate₀.filed cpu false
      rw [wanted_cpu] at fresh none_unused
      cases alloc : (km_cluster_alloc cpu false (km_get_current_cluster cpu s).2).1 with
      | some next =>
        obtain ⟨unused₀,least⟩ := fresh next alloc
        obtain ⟨unused,other⟩ := (unused_current separate found next).mp unused₀
        refine next_refuses next (by rw [pick,alloc]; simp) ?_
        rcases unused_ordered next unused other with large | ⟨before,less,differ,also⟩ | ⟨roomy,also⟩
        · exact unused_has_run separate unused large
        · exact absurd (least before ((unused_current separate found before).mpr ⟨also,differ⟩)) (by omega)
        · exact absurd also (no_roomy roomy)
      | none =>
        rcases has_run_cases separate serves first run with here | roomy | unused
        · exact first_refuses (here ▸ run)
        · exact no_roomy ram roomy
        · by_cases here : ram = first
          · exact first_refuses (here ▸ run)
          · exact none_unused alloc ram ((unused_current separate found ram).mpr ⟨unused,here⟩)

/-- The first region is taken whole, and each of the others has a page. -/
theorem orderly_complete_three : ∃ s, Reached s [(1052672,3)] ∧ Complete 0 1 s := by
  have run : (allocate_page 8 0 3 three).map (fun a => (a.1,a.2.ram_nodes,a.2.mm_current_cluster 0,
      [(a.2.static_clusters 1).not_free,(a.2.static_clusters 2).not_free],
      [(a.2.static_clusters 1).usbale_count,(a.2.static_clusters 2).usbale_count])) =
      some (1052672,[⟨0,[0,1,2]⟩],some 0,[false,false],[1,3]) := by decide +kernel
  obtain ⟨⟨page,s⟩,done,answer⟩ := Option.map_eq_some_iff.mp run
  simp only [Prod.mk.injEq,List.cons.injEq,and_true] at answer
  obtain ⟨rfl,heads,current,⟨unused1,unused2⟩,usable1,usable2⟩ := answer
  have reached : Reached s [(1052672,3)] := .alloc three_reached (by decide) (by decide) done
  have lists {ram : Nat} : Lists s 0 ram ↔ ram = 0 ∨ ram = 1 ∨ ram = 2 := by simp [Lists,heads]
  refine ⟨s,reached,orderly_complete reached 0 (by decide) ⟨fun first tried => ?_,fun none => ?_⟩⟩
  · rw [TriedFirst,current] at tried
    obtain same | ⟨none,_⟩ := tried
    · rw [← Option.some.inj same]
      refine .inr ⟨lists.mpr (.inl rfl),fun ram roomy => ?_,fun ram unused other => .inl ?_⟩
      · obtain ⟨listed,other,used,_⟩ := roomy
        rcases lists.mp listed with rfl | rfl | rfl
        · exact absurd rfl other
        · rw [unused1] at used
          cases used
        · rw [unused2] at used
          cases used
      · rcases lists.mp unused.1 with rfl | rfl | rfl
        · exact absurd rfl other
        · omega
        · omega
    · cases none
  · exact absurd (.inl current) (none 0)

end GridOS.Pages
