import GridOS.PagesSearch

/-!
Which clusters are in use. The list of a node holds its clusters in the order in which they were
inserted, a used cluster knows its list and its node, and what a CPU has current and what has live
ranges is used. So the picks of `allocate_page` can be told from the clusters alone. Clusters that
were given away whole, of which the kernel is to take no page, stay apart from those of the kernel
in every step that does not pick one of them.
-/
namespace GridOS.Pages
open GridOS.Words GridOS.Bits GridOS.Bitmap

/-- A cluster of the node. -/
def Lists (s : Memory) (node : Int) (ram : Nat) : Prop := ∃ head ∈ s.ram_nodes, head.node = node ∧ ram ∈ head.clusters

/-- A cluster of the node that nobody has. -/
def Unused (s : Memory) (node : Int) (ram : Nat) : Prop :=
  Lists s node ram ∧ (s.static_clusters ram).not_free = false ∧ (s.static_clusters ram).totally_using = false

/-- The cluster that an allocation tries first: the current one, or, if the CPU has none, the first of its node that nobody
    has. -/
def TriedFirst (cpu : Nat) (s : Memory) (ram : Nat) : Prop :=
  s.mm_current_cluster cpu = some ram ∨
    s.mm_current_cluster cpu = none ∧ Unused s cpu ram ∧ ∀ other, Unused s cpu other → ram ≤ other

/-- The nodes have one list each, a cluster is in one of them, in the order of the table, and a used cluster knows which. -/
structure Filed (s : Memory) : Prop where
  nodes : ∀ (k k' : Nat) (head head' : ClusterHead), s.ram_nodes[k]? = some head → s.ram_nodes[k']? = some head' →
    head.node = head'.node → k = k'
  one : ∀ (k k' : Nat) (head head' : ClusterHead), s.ram_nodes[k]? = some head → s.ram_nodes[k']? = some head' →
    ∀ ram ∈ head.clusters, ram ∈ head'.clusters → k = k'
  below : ∀ head ∈ s.ram_nodes, ∀ ram ∈ head.clusters, ram < s.cur_ram_info
  sorted : ∀ head ∈ s.ram_nodes, head.clusters.Pairwise (· < ·)
  place : ∀ (k : Nat) (head : ClusterHead), s.ram_nodes[k]? = some head → ∀ ram ∈ head.clusters, (s.static_clusters ram).not_free = true →
    (s.static_clusters ram).head = k ∧ (s.static_clusters ram).real_node = head.node
  current : ∀ cpu ram, s.mm_current_cluster cpu = some ram →
    ram < s.cur_ram_info ∧ (s.static_clusters ram).not_free = true

theorem free_few {c : Cluster} (sound : c.Sound) : c.free ≤ c.usbale_count := by
  have few := Finset.card_filter_le (Finset.range c.bitmap.mask_count) (fun i => test_bit i c.bitmap.bitmap = false)
  rw [Finset.card_range,sound.mask] at few
  rw [sound.free,clearBits,sound.mask]
  exact few

/-! ### What a search in a list finds -/

section Search
variable {s : Memory} {clusters : List Nat} {test : Nat → Bool} {ram k count : Nat} {head : ClusterHead} {node : Int}

/-- The search in a sorted list finds the least. -/
theorem find_least {p : Nat → Prop} (sorted : clusters.Pairwise (· < ·)) (same : ∀ ram ∈ clusters, test ram = true ↔ p ram) :
    (∀ ram, clusters.find? test = some ram → p ram ∧ ∀ other ∈ clusters, other < ram → ¬p other) ∧
    (clusters.find? test = none → ∀ other ∈ clusters, ¬p other) := by
  refine ⟨fun ram found => ?_,fun none other member holds => ?_⟩
  · have listed := List.mem_of_find?_eq_some found
    refine ⟨(same ram listed).mp (List.find?_some found),fun other member less holds => ?_⟩
    obtain ⟨_,front,rest,split,before⟩ := List.find?_eq_some_iff_append.mp found
    have passes := (same other member).mpr holds
    subst split
    rcases List.mem_append.mp member with early | late
    · have refused := before other early
      rw [passes] at refused
      cases refused
    · rcases List.mem_cons.mp late with rfl | later
      · omega
      · have order := (List.pairwise_append.mp sorted).2.1
        have behind := (List.pairwise_cons.mp order).1 other later
        omega
  · exact List.find?_eq_none.mp none other member ((same other member).mpr holds)

theorem Filed.same_head (filed : Filed s) (at_k : s.ram_nodes[k]? = some head) (lists : Lists s head.node ram) :
    ram ∈ head.clusters := by
  obtain ⟨other,member,same,inside⟩ := lists
  obtain ⟨j,at_j⟩ := List.mem_iff_getElem?.mp member
  obtain rfl := filed.nodes j k other head at_j at_k same
  rw [at_k] at at_j
  obtain rfl := Option.some.inj at_j
  exact inside

theorem clusters_at (at_k : s.ram_nodes[k]? = some head) : (s.ram_nodes[k]?.map (·.clusters)).getD [] = head.clusters := by
  rw [at_k]
  rfl

/-- Another used cluster of the node with enough free pages. -/
def Roomy (s : Memory) (node : Int) (ram count next : Nat) : Prop :=
  Lists s node next ∧ next ≠ ram ∧ (s.static_clusters next).not_free = true ∧ count ≤ (s.static_clusters next).free

/-- The search of `allocate_page` finds the first of the other used clusters with enough free pages. -/
theorem used_before_spec (filed : Filed s) (lists : Lists s node ram) (used : (s.static_clusters ram).not_free = true) :
    (∀ next, used_before ram count s = some next →
      Roomy s node ram count next ∧ ∀ other < next, ¬Roomy s node ram count other) ∧
    (used_before ram count s = none → ∀ other, ¬Roomy s node ram count other) := by
  obtain ⟨head,member,rfl,inside⟩ := lists
  obtain ⟨k,at_k⟩ := List.mem_iff_getElem?.mp member
  obtain ⟨head_is,node_is⟩ := filed.place k head at_k ram inside used
  have test : ∀ next ∈ head.clusters, ((next != ram && (s.static_clusters ram).real_node == (s.static_clusters next).real_node &&
      (s.static_clusters next).not_free && decide ((s.static_clusters next).free ≥ count)) = true ↔
        Roomy s head.node ram count next) := by
    intro next listed
    have lists : Lists s head.node next := ⟨head,member,rfl,listed⟩
    simp only [Bool.and_eq_true,bne_iff_ne,beq_iff_eq,decide_eq_true_eq,Roomy,lists,true_and]
    constructor
    · rintro ⟨⟨⟨other,_⟩,next_used⟩,room⟩
      exact ⟨other,next_used,room⟩
    · rintro ⟨other,next_used,room⟩
      exact ⟨⟨⟨other,by rw [node_is,(filed.place k head at_k next listed next_used).2]⟩,next_used⟩,room⟩
  unfold used_before
  rw [head_is,clusters_at at_k]
  obtain ⟨found,none⟩ := find_least (filed.sorted head member) test
  refine ⟨fun next at_next => ⟨(found next at_next).1,fun other less roomy => ?_⟩,fun absent other roomy => ?_⟩
  · exact (found next at_next).2 other (filed.same_head at_k roomy.1) less roomy
  · exact none absent other (filed.same_head at_k roomy.1) roomy

/-- The node that a request is for. -/
def wanted (node : Int) : Int := if node = -1 then 0 else node

/-- `km_cluster_alloc` finds the first cluster of the node that nobody has. -/
theorem km_cluster_alloc_spec (filed : Filed s) (node : Int) (totally_using : Bool) :
    (∀ ram, (km_cluster_alloc node totally_using s).1 = some ram →
      Unused s (wanted node) ram ∧ ∀ other, Unused s (wanted node) other → ram ≤ other) ∧
    ((km_cluster_alloc node totally_using s).1 = none → ∀ other, ¬Unused s (wanted node) other) := by
  rw [km_cluster_alloc]
  dsimp only
  rw [← wanted]
  cases place : s.ram_nodes.findIdx? (·.node == wanted node) with
  | none =>
    refine ⟨nofun,fun _ other unused => ?_⟩
    obtain ⟨⟨head,member,same,_⟩,_⟩ := unused
    have other_node := List.findIdx?_eq_none_iff.mp place head member
    rw [same,beq_self_eq_true] at other_node
    cases other_node
  | some k =>
    obtain ⟨inside,here,_⟩ := List.findIdx?_eq_some_iff_getElem.mp place
    obtain ⟨head,at_k⟩ : ∃ head, s.ram_nodes[k]? = some head := ⟨_,List.getElem?_eq_getElem inside⟩
    have node_is : head.node = wanted node := by
      rw [List.getElem?_eq_getElem inside] at at_k
      rw [← Option.some.inj at_k]
      exact beq_iff_eq.mp here
    have member := List.mem_of_getElem? at_k
    have test : ∀ ram ∈ head.clusters, ((!(s.static_clusters ram).totally_using && !(s.static_clusters ram).not_free) = true ↔
        Unused s (wanted node) ram) := by
      intro ram listed
      have lists : Lists s (wanted node) ram := ⟨head,member,node_is,listed⟩
      simp only [Bool.and_eq_true,Bool.not_eq_true',Unused,lists,true_and]
      exact and_comm
    have listed {other : Nat} (unused : Unused s (wanted node) other) : other ∈ head.clusters :=
      filed.same_head at_k (node_is ▸ unused.1)
    dsimp only
    rw [clusters_at at_k]
    obtain ⟨found,none⟩ := find_least (filed.sorted head member) test
    cases result : head.clusters.find? (fun ram => !(s.static_clusters ram).totally_using && !(s.static_clusters ram).not_free) with
    | none => exact ⟨nofun,fun _ other unused => none result other (listed unused) unused⟩
    | some first =>
      obtain ⟨unused,least⟩ := found first result
      refine ⟨fun ram same => ?_,nofun⟩
      cases same
      exact ⟨unused,fun other also => Nat.le_of_not_lt fun less => least other (listed also) less also⟩

/-- What is tried first. -/
theorem tried_first_iff (filed : Filed s) (cpu ram : Nat) :
    (km_get_current_cluster cpu s).1 = some ram ↔ TriedFirst cpu s ram := by
  have wanted_cpu : wanted cpu = cpu := if_neg (by omega)
  obtain ⟨least,none⟩ := km_cluster_alloc_spec filed cpu false
  rw [wanted_cpu] at least none
  unfold km_get_current_cluster TriedFirst
  cases s.mm_current_cluster cpu with
  | some now => simp
  | none =>
    dsimp only
    cases found : (km_cluster_alloc cpu false s).1 with
    | none => simpa using fun unused => absurd unused (none found ram)
    | some first =>
      obtain ⟨unused,below⟩ := least first found
      simp only [Option.some.injEq,reduceCtorEq,true_and,false_or]
      constructor
      · rintro rfl
        exact ⟨unused,below⟩
      · rintro ⟨also,least⟩
        exact Nat.le_antisymm (below ram also) (least first unused)

/-- Only the cluster that is allocated changes. -/
theorem km_cluster_alloc_frame (node : Int) (totally_using : Bool) (s : Memory) :
    (km_cluster_alloc node totally_using s).2.ram_nodes = s.ram_nodes ∧ ∀ other,
      (km_cluster_alloc node totally_using s).1 ≠ some other →
        (km_cluster_alloc node totally_using s).2.static_clusters other = s.static_clusters other := by
  rw [km_cluster_alloc]
  dsimp only
  split
  · exact ⟨rfl,fun _ _ => rfl⟩
  · split
    · exact ⟨rfl,fun _ _ => rfl⟩
    · exact ⟨rfl,fun other differ => Function.update_of_ne (fun same => differ (congrArg some same.symm)) ..⟩

theorem km_get_current_cluster_frame (cpu : Nat) (s : Memory) :
    (km_get_current_cluster cpu s).2.ram_nodes = s.ram_nodes ∧ ∀ other, (km_get_current_cluster cpu s).1 ≠ some other →
      (km_get_current_cluster cpu s).2.static_clusters other = s.static_clusters other := by
  obtain ⟨heads,same⟩ := km_cluster_alloc_frame cpu false s
  unfold km_get_current_cluster
  split
  · exact ⟨rfl,fun _ _ => rfl⟩
  · dsimp only
    split
    · next none => exact ⟨heads,fun other _ => same other (by rw [none]; nofun)⟩
    · next ram found => exact ⟨heads,fun other differ => same other (by rw [found]; exact differ)⟩

/-- The other used clusters are the same when the first one is at hand. -/
theorem roomy_current {cpu : Nat} (found : (km_get_current_cluster cpu s).1 = some ram) (other : Nat) :
    Roomy (km_get_current_cluster cpu s).2 node ram count other ↔ Roomy s node ram count other := by
  obtain ⟨heads,same⟩ := km_get_current_cluster_frame cpu s
  unfold Roomy Lists
  rw [heads]
  by_cases here : other = ram
  · simp [here]
  · rw [same other (by rw [found]; exact fun other_is => here (Option.some.inj other_is).symm)]

end Search

/-! ### The lists -/

section Lists
variable {s s' : Memory}

/-- The lists and what the clusters say of them stay. -/
theorem filed_same (filed : Filed s) (heads : s'.ram_nodes = s.ram_nodes) (count : s'.cur_ram_info = s.cur_ram_info)
    (place : ∀ ram, (s'.static_clusters ram).not_free = true → (s.static_clusters ram).not_free = true ∧
      (s'.static_clusters ram).head = (s.static_clusters ram).head ∧
      (s'.static_clusters ram).real_node = (s.static_clusters ram).real_node)
    (current : ∀ cpu ram, s'.mm_current_cluster cpu = some ram →
      ram < s.cur_ram_info ∧ (s'.static_clusters ram).not_free = true) : Filed s' := by
  constructor
  · rw [heads]; exact filed.nodes
  · rw [heads]; exact filed.one
  · rw [heads,count]; exact filed.below
  · rw [heads]; exact filed.sorted
  · rw [heads]
    intro k head at_k ram listed used
    obtain ⟨before,head_is,node_is⟩ := place ram used
    rw [head_is,node_is]
    exact filed.place k head at_k ram listed before
  · rw [count]; exact current

/-- One cluster changes its pages. -/
theorem filed_set {ram : Nat} {c : Cluster} (filed : Filed s) (used : c.not_free = (s.static_clusters ram).not_free)
    (head : c.head = (s.static_clusters ram).head) (node : c.real_node = (s.static_clusters ram).real_node) :
    Filed (s.set ram c) := by
  have same : ∀ other, ((s.set ram c).static_clusters other).not_free = (s.static_clusters other).not_free ∧
      ((s.set ram c).static_clusters other).head = (s.static_clusters other).head ∧
      ((s.set ram c).static_clusters other).real_node = (s.static_clusters other).real_node := by
    intro other
    by_cases here : other = ram
    · subst here
      simp [Memory.set,used,head,node]
    · simp [Memory.set,here]
  refine filed_same filed rfl rfl (fun other now => ?_) (fun cpu other found => ?_)
  · obtain ⟨used,head,node⟩ := same other
    exact ⟨used ▸ now,head,node⟩
  · rw [(same other).1]
    exact filed.current cpu other found

theorem filed_current {ram : Nat} (cpu : Nat) (filed : Filed s) (below : ram < s.cur_ram_info)
    (used : (s.static_clusters ram).not_free = true) : Filed (set_current_cluster cpu ram s) := by
  refine filed_same filed rfl rfl (fun _ now => ⟨now,rfl,rfl⟩) fun other now found => ?_
  by_cases same : other = cpu
  · subst same
    simp only [set_current_cluster,Function.update_self,Option.some.injEq] at found
    exact found ▸ ⟨below,used⟩
  · simp only [set_current_cluster,Function.update_of_ne same] at found
    exact filed.current other now found

theorem allocate_filed {fuel ram count page : Nat} (filed : Filed s) (sound : (s.static_clusters ram).Sound)
    (positive : 0 < count) (word : count < modulus) (done : allocate fuel ram count s = some (page,s')) : Filed s' := by
  rcases allocate_cases sound positive word done with ⟨_,_,rfl⟩ | ⟨bitmap,_,_,_,rfl⟩ | ⟨r,bitmap,_,_,_,rfl⟩
  · exact filed
  · exact filed_set filed rfl rfl rfl
  · exact filed_set filed rfl rfl rfl

theorem deallocate_page_filed (page count : Nat) (filed : Filed s) : Filed (deallocate_page page count s) := by
  rw [deallocate_page]
  split
  · exact filed
  · dsimp only
    split
    · split <;> exact filed_set filed rfl rfl rfl
    · exact filed_set filed rfl rfl rfl

/-- The cluster that is allocated is told its list and its node. -/
theorem km_cluster_alloc_filed (node : Int) (totally_using : Bool) (filed : Filed s) :
    Filed (km_cluster_alloc node totally_using s).2 := by
  rw [km_cluster_alloc]
  dsimp only
  rw [← wanted]
  cases place : s.ram_nodes.findIdx? (·.node == wanted node) with
  | none => exact filed
  | some k =>
    obtain ⟨inside,here,_⟩ := List.findIdx?_eq_some_iff_getElem.mp place
    obtain ⟨head,at_k⟩ : ∃ head, s.ram_nodes[k]? = some head := ⟨_,List.getElem?_eq_getElem inside⟩
    have node_is : head.node = wanted node := by
      rw [List.getElem?_eq_getElem inside] at at_k
      rw [← Option.some.inj at_k]
      exact beq_iff_eq.mp here
    dsimp only
    rw [clusters_at at_k]
    cases found : head.clusters.find? (fun ram => !(s.static_clusters ram).totally_using && !(s.static_clusters ram).not_free) with
    | none => exact filed
    | some ram =>
      have listed := List.mem_of_find?_eq_some found
      have unused := List.find?_some found
      simp only [Bool.and_eq_true,Bool.not_eq_true'] at unused
      refine ⟨filed.nodes,filed.one,filed.below,filed.sorted,fun j other at_j x x_listed used => ?_,fun cpu x current => ?_⟩
      · dsimp only [Memory.set] at at_j used ⊢
        by_cases same : x = ram
        · subst same
          obtain rfl := filed.one j k other head at_j at_k x x_listed listed
          rw [at_k] at at_j
          rw [Function.update_self,← Option.some.inj at_j]
          exact ⟨rfl,node_is.symm⟩
        · rw [Function.update_of_ne same] at used ⊢
          exact filed.place j other at_j x x_listed used
      · dsimp only [Memory.set] at current ⊢
        obtain ⟨below,used⟩ := filed.current cpu x current
        by_cases same : x = ram
        · rw [same,unused.2] at used
          cases used
        · rw [Function.update_of_ne same]
          exact ⟨below,used⟩

/-- What `add_cluster` leaves at a place. -/
theorem add_cluster_at {nodes : List ClusterHead} {k ram j : Nat} {head : ClusterHead}
    (at_j : (add_cluster nodes k ram)[j]? = some head) : ∃ before, nodes[j]? = some before ∧ head.node = before.node ∧
      head.clusters = if j = k then before.clusters ++ [ram] else before.clusters := by
  rw [add_cluster,List.getElem?_modify] at at_j
  obtain ⟨before,found,changed⟩ := Option.map_eq_some_iff.mp at_j
  refine ⟨before,found,?_⟩
  by_cases same : k = j
  · subst same
    rw [if_pos rfl] at changed
    rw [← changed,if_pos rfl]
    exact ⟨rfl,rfl⟩
  · rw [if_neg same] at changed
    rw [← changed,if_neg (Ne.symm same)]
    exact ⟨rfl,rfl⟩

/-- A new cluster comes to the end of one list. -/
theorem filed_insert {k : Nat} {c : Cluster} (filed : Filed s) (unused : c.not_free = false) :
    Filed { s.set s.cur_ram_info c with
      cur_ram_info := s.cur_ram_info + 1
      ram_nodes := add_cluster s.ram_nodes k s.cur_ram_info } := by
  have old {head : ClusterHead} {j ram : Nat} (at_j : s.ram_nodes[j]? = some head) (listed : ram ∈ head.clusters) :
      ram < s.cur_ram_info := filed.below head (List.mem_of_getElem? at_j) ram listed
  have cases {head before : ClusterHead} {j ram : Nat}
      (clusters : head.clusters = if j = k then before.clusters ++ [s.cur_ram_info] else before.clusters)
      (listed : ram ∈ head.clusters) : ram ∈ before.clusters ∨ j = k ∧ ram = s.cur_ram_info := by
    rw [clusters] at listed
    split at listed
    · next same => exact (List.mem_append.mp listed).imp_right fun last => ⟨same,List.mem_singleton.mp last⟩
    · exact .inl listed
  constructor
  · intro j j' head head' at_j at_j' same
    obtain ⟨before,found,node,_⟩ := add_cluster_at at_j
    obtain ⟨before',found',node',_⟩ := add_cluster_at at_j'
    exact filed.nodes j j' before before' found found' (node ▸ node' ▸ same)
  · intro j j' head head' at_j at_j' ram listed listed'
    obtain ⟨before,found,_,clusters⟩ := add_cluster_at at_j
    obtain ⟨before',found',_,clusters'⟩ := add_cluster_at at_j'
    rcases cases clusters listed with here | ⟨here,new⟩
    · rcases cases clusters' listed' with here' | ⟨_,new⟩
      · exact filed.one j j' before before' found found' ram here here'
      · exact absurd (old found here) (by omega)
    · rcases cases clusters' listed' with here' | ⟨here',_⟩
      · exact absurd (old found' here') (by omega)
      · rw [here,here']
  · intro head member ram listed
    obtain ⟨j,at_j⟩ := List.mem_iff_getElem?.mp member
    obtain ⟨before,found,_,clusters⟩ := add_cluster_at at_j
    dsimp only
    rcases cases clusters listed with here | ⟨_,new⟩
    · exact Nat.lt_succ_of_lt (old found here)
    · omega
  · intro head member
    obtain ⟨j,at_j⟩ := List.mem_iff_getElem?.mp member
    obtain ⟨before,found,_,clusters⟩ := add_cluster_at at_j
    have sorted := filed.sorted before (List.mem_of_getElem? found)
    rw [clusters]
    split
    · refine List.pairwise_append.mpr ⟨sorted,List.pairwise_singleton ..,fun ram here new at_end => ?_⟩
      rw [List.mem_singleton.mp at_end]
      exact old found here
    · exact sorted
  · intro j head at_j ram listed used
    obtain ⟨before,found,node,clusters⟩ := add_cluster_at at_j
    dsimp only [Memory.set] at used ⊢
    rcases cases clusters listed with here | ⟨_,new⟩
    · have other := Nat.ne_of_lt (old found here)
      rw [Function.update_of_ne other] at used ⊢
      rw [node]
      exact filed.place j before found ram here used
    · rw [new,Function.update_self,unused] at used
      cases used
  · intro cpu ram current
    dsimp only [Memory.set] at current ⊢
    obtain ⟨below,used⟩ := filed.current cpu ram current
    rw [Function.update_of_ne (Nat.ne_of_lt below)]
    exact ⟨Nat.lt_succ_of_lt below,used⟩

theorem insert_clusters_filed (content : Nat → Words) (k i start size : Nat) (filed : Filed s) :
    Filed (insert_clusters content k i start size s).2 := by
  induction i generalizing start size s with
  | zero => exact filed
  | succ i ih =>
    rw [insert_clusters]
    dsimp only
    split
    · exact filed
    · exact ih _ _ (filed_insert filed rfl)

/-- A node that is not there gets an empty list. -/
theorem filed_head {node : Int} (filed : Filed s) (new : s.ram_nodes.findIdx? (·.node == node) = none) :
    Filed { s with ram_nodes := s.ram_nodes ++ [⟨node,[]⟩] } := by
  have cases {j : Nat} {head : ClusterHead} (at_j : (s.ram_nodes ++ [⟨node,[]⟩])[j]? = some head) :
      s.ram_nodes[j]? = some head ∨ j = s.ram_nodes.length ∧ head = ⟨node,[]⟩ := by
    rw [List.getElem?_append] at at_j
    split at at_j
    · exact .inl at_j
    · next behind =>
      rw [List.getElem?_singleton] at at_j
      split at at_j
      · exact .inr ⟨by omega,(Option.some.inj at_j).symm⟩
      · cases at_j
  have other {j : Nat} {head : ClusterHead} (at_j : s.ram_nodes[j]? = some head) : head.node ≠ node := by
    intro same
    have differ := List.findIdx?_eq_none_iff.mp new head (List.mem_of_getElem? at_j)
    rw [same,beq_self_eq_true] at differ
    cases differ
  constructor
  · intro j j' head head' at_j at_j' same
    rcases cases at_j with here | ⟨here,rfl⟩ <;> rcases cases at_j' with here' | ⟨here',rfl⟩
    · exact filed.nodes j j' head head' here here' same
    · exact absurd same (other here)
    · exact absurd same.symm (other here')
    · rw [here,here']
  · intro j j' head head' at_j at_j' ram listed listed'
    rcases cases at_j with here | ⟨_,rfl⟩
    · rcases cases at_j' with here' | ⟨_,rfl⟩
      · exact filed.one j j' head head' here here' ram listed listed'
      · cases listed'
    · cases listed
  · intro head member ram listed
    rcases List.mem_append.mp member with old | last
    · exact filed.below head old ram listed
    · rw [List.mem_singleton.mp last] at listed
      cases listed
  · intro head member
    rcases List.mem_append.mp member with old | last
    · exact filed.sorted head old
    · rw [List.mem_singleton.mp last]
      exact .nil
  · intro j head at_j ram listed used
    rcases cases at_j with here | ⟨_,rfl⟩
    · exact filed.place j head here ram listed used
    · cases listed
  · exact filed.current

theorem km_insert_ram_filed (content : Nat → Words) (start size : Nat) (node : Int) (filed : Filed s) :
    Filed (km_insert_ram content start size node s).2 := by
  rw [km_insert_ram]
  split
  · exact filed
  · dsimp only
    split
    · exact insert_clusters_filed content _ _ start size filed
    · next new =>
      split
      · exact filed
      · exact insert_clusters_filed content _ _ start size (filed_head filed new)

theorem init_filed : Filed km_cluster_init where
  nodes := by intro k _ _ _ absent; simp [km_cluster_init] at absent
  one := by intro k _ _ _ absent; simp [km_cluster_init] at absent
  below := by intro _ absent; cases absent
  sorted := by intro _ absent; cases absent
  place := by intro k _ absent; simp [km_cluster_init] at absent
  current := by intro _ _ absent; cases absent

end Lists

/-! ### What an allocation changes -/

/-- The number and the places of the clusters stay, and used clusters stay used. -/
structure Keeps (s s' : Memory) : Prop where
  count : s'.cur_ram_info = s.cur_ram_info
  place : ∀ ram < s.cur_ram_info, (s'.static_clusters ram).ram_base = (s.static_clusters ram).ram_base ∧
    (s'.static_clusters ram).usbale_count = (s.static_clusters ram).usbale_count
  used : ∀ ram < s.cur_ram_info, (s.static_clusters ram).not_free = true → (s'.static_clusters ram).not_free = true

theorem Keeps.refl (s : Memory) : Keeps s s := ⟨rfl,fun _ _ => ⟨rfl,rfl⟩,fun _ _ used => used⟩

theorem Keeps.trans {s s' s'' : Memory} (first : Keeps s s') (second : Keeps s' s'') : Keeps s s'' where
  count := second.count.trans first.count
  place ram below := by
    have below' : ram < s'.cur_ram_info := by rwa [first.count]
    exact ⟨(second.place ram below').1.trans (first.place ram below).1,
      (second.place ram below').2.trans (first.place ram below).2⟩
  used ram below used := second.used ram (by rwa [first.count]) (first.used ram below used)

theorem Keeps.holds {s s' : Memory} (keeps : Keeps s s') {ram : Nat} (below : ram < s.cur_ram_info) (e : Nat × Nat) :
    (s'.static_clusters ram).Holds e ↔ (s.static_clusters ram).Holds e := by
  obtain ⟨base,count⟩ := keeps.place ram below
  simp only [Cluster.Holds,Cluster.page,base,count]

/-- A cluster that keeps its place and stays used. -/
theorem keeps_set {s : Memory} {ram : Nat} {c : Cluster} (base : c.ram_base = (s.static_clusters ram).ram_base)
    (count : c.usbale_count = (s.static_clusters ram).usbale_count)
    (used : (s.static_clusters ram).not_free = true → c.not_free = true) : Keeps s (s.set ram c) := by
  refine ⟨rfl,fun other _ => ?_,fun other _ was_used => ?_⟩
  · by_cases same : other = ram
    · subst same
      simp [Memory.set,base,count]
    · simp [Memory.set,same]
  · by_cases same : other = ram
    · subst same
      simpa [Memory.set] using used was_used
    · simpa [Memory.set,same] using was_used

/-- `allocate` takes the pages from the given cluster. -/
theorem allocate_place {s s' : Memory} {live : List (Nat × Nat)} {fuel ram count page : Nat} (owned : Owned s live)
    (inside : ram < s.cur_ram_info) (positive : 0 < count) (word : count < modulus)
    (done : allocate fuel ram count s = some (page,s')) :
    Keeps s s' ∧ s'.mm_current_cluster = s.mm_current_cluster ∧
      (page ≠ 0 → (s.static_clusters ram).Holds (page,count)) := by
  have sound := owned.sound ram inside
  rcases allocate_cases sound positive word done with ⟨_,rfl,rfl⟩ | ⟨bitmap,_,_,rfl,rfl⟩ | ⟨r,bitmap,claimed,rfl,_,rfl⟩
  · exact ⟨.refl _,rfl,fun none => absurd rfl none⟩
  · exact ⟨keeps_set rfl rfl id,rfl,fun none => absurd rfl none⟩
  · refine ⟨keeps_set rfl rfl id,rfl,fun _ => ⟨r,rfl,positive,?_⟩⟩
    rw [← sound.mask]
    exact claimed.within

/-- A cluster that is allocated was not used, and is then unless it is given away whole. -/
theorem km_cluster_alloc_keeps (node : Int) (totally_using : Bool) (s : Memory) :
    Keeps s (km_cluster_alloc node totally_using s).2 ∧
    (km_cluster_alloc node totally_using s).2.mm_current_cluster = s.mm_current_cluster ∧
    ∀ ram, (km_cluster_alloc node totally_using s).1 = some ram → (s.static_clusters ram).not_free = false ∧
      ((km_cluster_alloc node totally_using s).2.static_clusters ram).not_free = !totally_using := by
  rw [km_cluster_alloc]
  dsimp only
  split
  · exact ⟨.refl s,rfl,nofun⟩
  · split
    · exact ⟨.refl s,rfl,nofun⟩
    · next ram found =>
      have unused := List.find?_some found
      simp only [Bool.and_eq_true,Bool.not_eq_true'] at unused
      refine ⟨keeps_set rfl rfl (fun used => ?_),rfl,?_⟩
      · rw [unused.2] at used
        cases used
      · intro other same
        cases same
        exact ⟨unused.2,by simp [Memory.set]⟩

theorem deallocate_page_keeps (page count : Nat) (s : Memory) : Keeps s (deallocate_page page count s) ∧
    (deallocate_page page count s).mm_current_cluster = s.mm_current_cluster := by
  rw [deallocate_page]
  split
  · exact ⟨.refl s,rfl⟩
  · dsimp only
    split
    · split <;> exact ⟨keeps_set rfl rfl id,rfl⟩
    · exact ⟨keeps_set rfl rfl id,rfl⟩

/-! ### The kernel and the clusters given away -/

theorem holds_unique {s : Memory} {live : List (Nat × Nat)} {ram other : Nat} {e : Nat × Nat} (owned : Owned s live)
    (below : ram < s.cur_ram_info) (below' : other < s.cur_ram_info) (holds : (s.static_clusters ram).Holds e)
    (holds' : (s.static_clusters other).Holds e) : ram = other := by
  by_contra differ
  have disjoint := holds_disjoint (owned.sound ram below) (owned.sound other below')
    (owned.apart ram below other below' differ) holds holds'
  obtain ⟨_,_,positive,_⟩ := holds
  unfold Disjoint PAGE_SIZE at disjoint
  omega

/-- The clusters of the kernel, those it has current and those with live ranges, are used ones, and
    what the drivers were given are others. -/
structure Separate (s : Memory) (live : List (Nat × Nat)) (given : List (Nat × Nat × Nat)) : Prop where
  owned : Owned s live
  filed : Filed s
  kept : ∀ e ∈ live, ∀ ram < s.cur_ram_info, (s.static_clusters ram).Holds e → (s.static_clusters ram).not_free = true
  drivers : ∀ d ∈ given, d.1 < s.cur_ram_info ∧ (s.static_clusters d.1).ram_base = d.2.1 ∧
    d.2.2 ≤ (s.static_clusters d.1).usbale_count * PAGE_SIZE ∧ (s.static_clusters d.1).not_free = true ∧
    (∀ cpu, s.mm_current_cluster cpu ≠ some d.1) ∧ ∀ e ∈ live, ¬(s.static_clusters d.1).Holds e

/-- A used cluster that the drivers were not given. -/
def Kernel (s : Memory) (given : List (Nat × Nat × Nat)) (ram : Nat) : Prop :=
  (s.static_clusters ram).not_free = true ∧ ∀ d ∈ given, ram ≠ d.1

/-- Only clusters of the kernel become current, and only their pages are handed out. -/
theorem separate_step {s s' : Memory} {live live' : List (Nat × Nat)} {given : List (Nat × Nat × Nat)}
    (separate : Separate s live given) (keeps : Keeps s s') (owned' : Owned s' live') (filed' : Filed s')
    (current : ∀ cpu ram, s'.mm_current_cluster cpu = some ram → s.mm_current_cluster cpu = some ram ∨ Kernel s' given ram)
    (handed : ∀ e ∈ live', e ∈ live ∨ ∃ ram < s'.cur_ram_info, Kernel s' given ram ∧ (s'.static_clusters ram).Holds e) :
    Separate s' live' given := by
  refine ⟨owned',filed',?_,?_⟩
  · intro e member ram below holds
    rcases handed e member with before | ⟨other,below',kernel,holds'⟩
    · have below₀ : ram < s.cur_ram_info := by rwa [← keeps.count]
      exact keeps.used ram below₀ (separate.kept e before ram below₀ ((keeps.holds below₀ e).mp holds))
    · rw [holds_unique owned' below below' holds holds']
      exact kernel.1
  · intro d member
    obtain ⟨below,base,size,used,not_current,not_held⟩ := separate.drivers d member
    obtain ⟨same_base,same_count⟩ := keeps.place d.1 below
    have below₁ : d.1 < s'.cur_ram_info := by rwa [keeps.count]
    refine ⟨below₁,same_base.trans base,by rwa [same_count],keeps.used d.1 below used,?_,?_⟩
    · intro cpu found
      rcases current cpu d.1 found with before | kernel
      · exact not_current cpu before
      · exact kernel.2 d member rfl
    · intro e live_now holds
      rcases handed e live_now with before | ⟨other,below',kernel,holds'⟩
      · exact not_held e before ((keeps.holds below e).mp holds)
      · exact kernel.2 d member (holds_unique owned' below' below₁ holds' holds)

section Steps
variable {s s' : Memory} {live : List (Nat × Nat)} {given : List (Nat × Nat × Nat)}

/-- A cluster that was not used is not one of the drivers. -/
theorem kernel_of_unused {ram : Nat} (separate : Separate s live given)
    (unused : (s.static_clusters ram).not_free = false) (used : (s'.static_clusters ram).not_free = true) :
    Kernel s' given ram := by
  refine ⟨used,fun d member same => ?_⟩
  obtain ⟨_,_,_,driver,_⟩ := separate.drivers d member
  rw [← same,unused] at driver
  cases driver

theorem kernel_of_current {cpu ram : Nat} (separate : Separate s live given)
    (found : s.mm_current_cluster cpu = some ram) : Kernel s given ram := by
  refine ⟨(separate.filed.current cpu ram found).2,fun d member same => ?_⟩
  obtain ⟨_,_,_,_,not_current,_⟩ := separate.drivers d member
  rw [same] at found
  exact not_current cpu found

theorem km_cluster_alloc_separate (node : Int) (totally_using : Bool) (separate : Separate s live given) :
    Separate (km_cluster_alloc node totally_using s).2 live given := by
  obtain ⟨keeps,current,_⟩ := km_cluster_alloc_keeps node totally_using s
  obtain ⟨_,owned,_⟩ := km_cluster_alloc_owned node totally_using separate.owned
  exact separate_step separate keeps owned (km_cluster_alloc_filed node totally_using separate.filed)
    (fun cpu ram found => .inl (by rwa [← current])) (fun e member => .inl member)

/-- A fresh cluster is one of the kernel. -/
theorem km_cluster_alloc_kernel {node : Int} {ram : Nat} (separate : Separate s live given)
    (found : (km_cluster_alloc node false s).1 = some ram) : Kernel (km_cluster_alloc node false s).2 given ram := by
  obtain ⟨_,_,fresh⟩ := km_cluster_alloc_keeps node false s
  exact kernel_of_unused separate (fresh ram found).1 (fresh ram found).2

theorem set_current_separate {ram : Nat} (cpu : Nat) (separate : Separate s live given) (below : ram < s.cur_ram_info)
    (kernel : Kernel s given ram) : Separate (set_current_cluster cpu ram s) live given := by
  refine separate_step separate ⟨rfl,fun _ _ => ⟨rfl,rfl⟩,fun _ _ used => used⟩ (owned_current cpu separate.owned below)
    (filed_current cpu separate.filed below kernel.1) ?_ (fun e member => .inl member)
  intro other found current
  by_cases same : other = cpu
  · subst same
    simp only [set_current_cluster,Function.update_self,Option.some.injEq] at current
    subst current
    exact .inr kernel
  · simp only [set_current_cluster,Function.update_of_ne same] at current
    exact .inl current

theorem km_get_current_cluster_separate (cpu : Nat) (separate : Separate s live given) :
    Separate (km_get_current_cluster cpu s).2 live given ∧
      ∀ ram, (km_get_current_cluster cpu s).1 = some ram → Kernel (km_get_current_cluster cpu s).2 given ram := by
  rw [km_get_current_cluster]
  split
  · next cluster found =>
    refine ⟨separate,fun ram same => ?_⟩
    cases same
    exact kernel_of_current separate found
  · have after := km_cluster_alloc_separate cpu false separate
    obtain ⟨count,_,inside⟩ := km_cluster_alloc_owned cpu false separate.owned
    dsimp only
    split
    · exact ⟨after,nofun⟩
    · next cluster found =>
      have kernel := km_cluster_alloc_kernel separate found
      refine ⟨set_current_separate cpu after (by rw [count]; exact inside cluster found) kernel,?_⟩
      intro ram same
      cases same
      exact kernel

/-- Pages from a cluster of the kernel. -/
theorem allocate_separate {fuel ram count page : Nat} (separate : Separate s live given) (below : ram < s.cur_ram_info)
    (kernel : Kernel s given ram) (positive : 0 < count) (word : count < modulus)
    (done : allocate fuel ram count s = some (page,s')) :
    Separate s' (if page = 0 then live else (page,count) :: live) given := by
  obtain ⟨keeps,current,place⟩ := allocate_place separate.owned below positive word done
  refine separate_step separate keeps (allocate_owned separate.owned below positive word done).2
    (allocate_filed separate.filed (separate.owned.sound ram below) positive word done) (fun cpu other found => .inl (by rwa [← current])) ?_
  intro e member
  by_cases nothing : page = 0
  · rw [if_pos nothing] at member
    exact .inl member
  · rw [if_neg nothing] at member
    rcases List.mem_cons.mp member with rfl | old
    · exact .inr ⟨ram,by rwa [keeps.count],⟨keeps.used ram below kernel.1,kernel.2⟩,
        (keeps.holds below _).mpr (place nothing)⟩
    · exact .inl old

theorem allocate_in_next_separate {fuel cpu next count page : Nat} (separate : Separate s live given)
    (below : next < s.cur_ram_info) (kernel : Kernel s given next) (positive : 0 < count) (word : count < modulus)
    (done : allocate_in_next fuel cpu next count s = some (page,s')) :
    Separate s' (if page = 0 then live else (page,count) :: live) given :=
  allocate_separate (set_current_separate cpu separate below kernel) below kernel positive word done

/-- An allocation whose pick among the used clusters was not given away. -/
theorem allocate_page_separate {fuel cpu count page : Nat} (separate : Separate s live given) (positive : 0 < count)
    (word : count < modulus)
    (spares : ∀ ram s', (km_get_current_cluster cpu s).1 = some ram →
      allocate fuel ram count (km_get_current_cluster cpu s).2 = some (0,s') →
      ∀ next, used_before ram count s' = some next → ∀ d ∈ given, next ≠ d.1)
    (done : allocate_page fuel cpu count s = some (page,s')) :
    Separate s' (if page = 0 then live else (page,count) :: live) given := by
  obtain ⟨total,_,inside⟩ := km_get_current_cluster_owned cpu separate.owned
  obtain ⟨separate₁,kernel⟩ := km_get_current_cluster_separate cpu separate
  rw [allocate_page] at done
  dsimp only at done
  split at done
  · cases done
    exact separate₁
  · next ram found =>
    split at done
    · cases done
    · next page₁ s₁ first =>
      have separate₂ := allocate_separate separate₁ (by rw [total]; exact inside ram found) (kernel ram found) positive word first
      split at done
      · cases done
        exact separate₂
      · next none =>
        obtain rfl : page₁ = 0 := not_not.mp none
        rw [if_pos rfl] at separate₂
        split at done
        · next next before =>
          -- the cluster was used before, and by the kernel
          have listed := listed_of_head (List.mem_of_find?_eq_some before)
          have used := List.find?_some before
          simp only [Bool.and_eq_true] at used
          exact allocate_in_next_separate separate₂ ((separate₂.owned.members next).mp listed)
            ⟨used.1.2,spares ram s₁ found first next before⟩ positive word done
        · have separate₃ := km_cluster_alloc_separate cpu false separate₂
          obtain ⟨total₂,_,inside₂⟩ := km_cluster_alloc_owned cpu false separate₂.owned
          split at done
          · next next fresh =>
            exact allocate_in_next_separate separate₃ (by rw [total₂]; exact inside₂ next fresh)
              (km_cluster_alloc_kernel separate₂ fresh) positive word done
          · cases done
            exact separate₃

theorem deallocate_page_separate {page count : Nat} (separate : Separate s live given) (member : (page,count) ∈ live) :
    Separate (deallocate_page page count s) (live.erase (page,count)) given := by
  obtain ⟨keeps,current⟩ := deallocate_page_keeps page count s
  exact separate_step separate keeps (deallocate_page_owned separate.owned member)
    (deallocate_page_filed page count separate.filed) (fun cpu ram found => .inl (by rwa [← current]))
    (fun e kept => .inl (List.mem_of_mem_erase kept))

theorem init_a_cpu_separate (cpu : Nat) (separate : Separate s live given) : Separate (init_a_cpu cpu s) live given := by
  have after := km_cluster_alloc_separate 0 false separate
  obtain ⟨count,_,inside⟩ := km_cluster_alloc_owned 0 false separate.owned
  have changed : ∀ other ram, (init_a_cpu cpu s).mm_current_cluster other = some ram →
      (km_cluster_alloc 0 false s).2.mm_current_cluster other = some ram ∨ (km_cluster_alloc 0 false s).1 = some ram := by
    intro other ram found
    by_cases same : other = cpu
    · subst same
      exact .inr (by simpa [init_a_cpu] using found)
    · exact .inl (by simpa [init_a_cpu,same] using found)
  refine separate_step after ⟨rfl,fun _ _ => ⟨rfl,rfl⟩,fun _ _ used => used⟩ (init_a_cpu_owned cpu separate.owned)
    (filed_same after.filed rfl rfl (fun _ now => ⟨now,rfl,rfl⟩) fun other ram found => ?_) (fun other ram found => ?_)
    (fun e member => .inl member)
  · rcases changed other ram found with before | fresh
    · exact after.filed.current other ram before
    · exact ⟨by rw [count]; exact inside ram fresh,(km_cluster_alloc_kernel separate fresh).1⟩
  · exact (changed other ram found).imp_right fun fresh => km_cluster_alloc_kernel separate fresh

end Steps

/-! ### New clusters -/

/-- New clusters come behind the others. -/
structure Grown (s s' : Memory) : Prop where
  grows : s.cur_ram_info ≤ s'.cur_ram_info
  current : s'.mm_current_cluster = s.mm_current_cluster
  same : ∀ ram < s.cur_ram_info, s'.static_clusters ram = s.static_clusters ram

theorem Grown.refl (s : Memory) : Grown s s := ⟨Nat.le_refl _,rfl,fun _ _ => rfl⟩

theorem insert_clusters_grown (content : Nat → Words) (k i start size : Nat) (s : Memory) :
    Grown s (insert_clusters content k i start size s).2 := by
  induction i generalizing start size s with
  | zero => exact .refl s
  | succ i ih =>
    rw [insert_clusters]
    dsimp only
    split
    · exact .refl s
    · generalize new_cluster (content start) start _ (i == 0) = c
      generalize add start KM_CLUSTER_SIZE = start'
      generalize sub size KM_CLUSTER_SIZE = size'
      obtain ⟨grows,current,same⟩ := ih start' size' { s.set s.cur_ram_info c with
        cur_ram_info := s.cur_ram_info + 1
        ram_nodes := add_cluster s.ram_nodes k s.cur_ram_info }
      refine ⟨Nat.le_trans (Nat.le_succ _) grows,current,fun ram below => ?_⟩
      rw [same ram (Nat.lt_succ_of_lt below)]
      exact Function.update_of_ne (Nat.ne_of_lt below) ..

theorem grown_of_head {s s' : Memory} {nodes : List ClusterHead} (grown : Grown { s with ram_nodes := nodes } s') :
    Grown s s' := ⟨grown.grows,grown.current,grown.same⟩

theorem km_insert_ram_grown (content : Nat → Words) (start size : Nat) (node : Int) (s : Memory) :
    Grown s (km_insert_ram content start size node s).2 := by
  rw [km_insert_ram]
  split
  · exact .refl s
  · dsimp only
    generalize sub (add size KM_CLUSTER_SIZE) 1 / KM_CLUSTER_SIZE = rounds
    split
    · exact insert_clusters_grown ..
    · split
      · exact .refl s
      · exact grown_of_head (insert_clusters_grown ..)

/-- The clusters in place do not change, and none of the new ones holds a live range. -/
theorem km_insert_ram_separate (content : Nat → Words) (node : Int) {s : Memory} {live : List (Nat × Nat)}
    {given : List (Nat × Nat × Nat)} {start size : Nat} (separate : Separate s live given) (avoids : Avoids s start size)
    (word : size < modulus) (top : start + size ≤ modulus) :
    Separate (km_insert_ram content start size node s).2 live given := by
  have owned := insert_any_owned content node separate.owned avoids word top
  have filed := km_insert_ram_filed content start size node separate.filed
  obtain ⟨grows,current,same⟩ := km_insert_ram_grown content start size node s
  generalize (km_insert_ram content start size node s).2 = s' at *
  refine ⟨owned,filed,?_,?_⟩
  · intro e member ram below holds
    obtain ⟨old,inside,holds₀⟩ := separate.owned.held e member
    have holds₁ : (s'.static_clusters old).Holds e := by rwa [same old inside]
    obtain rfl := holds_unique owned below (Nat.lt_of_lt_of_le inside grows) holds holds₁
    rw [same ram inside]
    exact separate.kept e member ram inside holds₀
  · intro d member
    obtain ⟨below,rest⟩ := separate.drivers d member
    rw [same d.1 below,current]
    exact ⟨Nat.lt_of_lt_of_le below grows,rest⟩

end GridOS.Pages
