import GridOS.Pages

/-!
What a registration of RAM that fails leaves behind. `km_insert_ram` makes the head of the node first and then one
cluster after the other, and takes nothing back when one of the two static tables is full. The counter of the heads is
the length of their list.
-/
namespace GridOS.Pages
open GridOS.Words GridOS.Bits

/-- The heads, the clusters of each head and the two counters are as before. -/
structure SameTables (s s' : Memory) : Prop where
  heads : s'.ram_nodes = s.ram_nodes
  clusters : s'.cur_ram_info = s.cur_ram_info
  nodes : s'.ram_nodes.length = s.ram_nodes.length

/-- The clusters that a region of the size is cut into. -/
def cluster_count (size : Nat) : Nat := sub (add size KM_CLUSTER_SIZE) 1 / KM_CLUSTER_SIZE

/-- The region does not begin at a page, or its clusters fit into the table, or what is needed first cannot be had: a
    cluster for a node that is there, a head for another one. -/
def Undivided (start size : Nat) (node : Int) (s : Memory) : Prop :=
  start % PAGE_SIZE ≠ 0 ∨ (cluster_count size = 0 ∨ s.cur_ram_info + cluster_count size ≤ KM_MAX_STATIC_RAM_INFO) ∨
    if s.ram_nodes.any (·.node == node) then KM_MAX_STATIC_RAM_INFO ≤ s.cur_ram_info
    else KM_MAX_STATIC_NODE_INFO ≤ s.ram_nodes.length

section
variable (content : Nat → Words) {k i start size : Nat} {s : Memory}

/-- The memory behind one round of the loop that has found a cluster, with `i` rounds ahead. -/
def one_inserted (k i start size : Nat) (s : Memory) : Memory :=
  { s.set s.cur_ram_info (new_cluster (content start) start (if KM_CLUSTER_SIZE > size then size else KM_CLUSTER_SIZE) (i == 0)) with
    cur_ram_info := s.cur_ram_info + 1
    ram_nodes := add_cluster s.ram_nodes k s.cur_ram_info }

theorem insert_clusters_succ : insert_clusters content k (i + 1) start size s =
    if s.cur_ram_info ≥ KM_MAX_STATIC_RAM_INFO then (false,s)
    else insert_clusters content k i (add start KM_CLUSTER_SIZE) (sub size KM_CLUSTER_SIZE) (one_inserted content k i start size s) :=
  rfl

@[simp] theorem one_inserted_cur : (one_inserted content k i start size s).cur_ram_info = s.cur_ram_info + 1 := rfl

@[simp] theorem one_inserted_heads : (one_inserted content k i start size s).ram_nodes.length = s.ram_nodes.length :=
  List.length_modify ..

/-- The loop ends with true exactly when there is a cluster for each round. -/
theorem insert_clusters_true : (insert_clusters content k i start size s).1 = true ↔
    i = 0 ∨ s.cur_ram_info + i ≤ KM_MAX_STATIC_RAM_INFO := by
  induction i generalizing start size s with
  | zero => simp [insert_clusters]
  | succ i ih =>
    rw [insert_clusters_succ]
    split
    · next full =>
      refine iff_of_false (by simp) ?_
      omega
    · next room =>
      rw [ih,one_inserted_cur]
      omega

/-- No round gives a cluster back, and none makes or removes a head. -/
theorem insert_clusters_grows : s.cur_ram_info ≤ (insert_clusters content k i start size s).2.cur_ram_info ∧
    (insert_clusters content k i start size s).2.ram_nodes.length = s.ram_nodes.length := by
  induction i generalizing start size s with
  | zero => exact ⟨le_rfl,rfl⟩
  | succ i ih =>
    rw [insert_clusters_succ]
    split
    · exact ⟨le_rfl,rfl⟩
    · obtain ⟨more,same⟩ := @ih (add start KM_CLUSTER_SIZE) (sub size KM_CLUSTER_SIZE) (one_inserted content k i start size s)
      rw [one_inserted_cur] at more
      rw [one_inserted_heads] at same
      exact ⟨by omega,same⟩

/-- A loop that fails has changed nothing exactly when its first round has found no cluster. -/
theorem insert_clusters_same (failed : (insert_clusters content k i start size s).1 = false) :
    SameTables s (insert_clusters content k i start size s).2 ↔ KM_MAX_STATIC_RAM_INFO ≤ s.cur_ram_info := by
  cases i with
  | zero => cases failed
  | succ i =>
    rw [insert_clusters_succ]
    split
    · next full => exact iff_of_true ⟨rfl,rfl,rfl⟩ full
    · next room =>
      refine iff_of_false (fun same => ?_) room
      have more := (@insert_clusters_grows content k i (add start KM_CLUSTER_SIZE) (sub size KM_CLUSTER_SIZE)
        (one_inserted content k i start size s)).1
      rw [one_inserted_cur,same.clusters] at more
      exact Nat.not_succ_le_self _ more

/-- A registration that fails changes nothing if and only if the region is registered as a whole or not at all. -/
theorem insert_undivided_iff (start size : Nat) (node : Int) (s : Memory) :
    ((km_insert_ram content start size node s).1 = false → SameTables s (km_insert_ram content start size node s).2) ↔
      Undivided start size node s := by
  unfold km_insert_ram Undivided
  rw [← cluster_count]
  by_cases aligned : start % PAGE_SIZE ≠ 0
  · rw [if_pos aligned]
    exact iff_of_true (fun _ => ⟨rfl,rfl,rfl⟩) (.inl aligned)
  rw [if_neg aligned,or_iff_right aligned]
  dsimp only
  have there : s.ram_nodes.any (·.node == node) = (s.ram_nodes.findIdx? (·.node == node)).isSome := List.findIdx?_isSome.symm
  rw [there]
  cases found : s.ram_nodes.findIdx? (·.node == node) with
  | some k =>
    dsimp only
    rw [Option.isSome_some,if_pos rfl,← @insert_clusters_true content k _ start size s,or_iff_not_imp_left,Bool.not_eq_true]
    exact forall_congr' (insert_clusters_same content)
  | none =>
    dsimp only
    rw [Option.isSome_none,if_neg Bool.false_ne_true]
    by_cases full : s.ram_nodes.length ≥ KM_MAX_STATIC_NODE_INFO
    · rw [if_pos full]
      exact iff_of_true (fun _ => ⟨rfl,rfl,rfl⟩) (.inr full)
    · rw [if_neg full,or_iff_left full]
      -- the head that was made stays
      have one_more := (@insert_clusters_grows content s.ram_nodes.length (cluster_count size) start size
        { s with ram_nodes := s.ram_nodes ++ [⟨node,[]⟩] }).2
      have fits := @insert_clusters_true content s.ram_nodes.length (cluster_count size) start size
        { s with ram_nodes := s.ram_nodes ++ [⟨node,[]⟩] }
      rw [List.length_append,List.length_singleton] at one_more
      rw [← fits]
      constructor
      · intro kept
        by_contra failed
        have same := (kept (Bool.not_eq_true _ ▸ failed)).nodes
        omega
      · intro whole failed
        rw [whole] at failed
        cases failed

/-- A region of 33 clusters on an empty memory: 32 of them are registered, and false is returned. -/
theorem insert_divided : (km_insert_ram (fun _ _ => 0) 0 0x42000000 0 km_cluster_init).1 = false ∧
    ¬SameTables km_cluster_init (km_insert_ram (fun _ _ => 0) 0 0x42000000 0 km_cluster_init).2 := by
  have failed : (km_insert_ram (fun _ _ => 0) 0 0x42000000 0 km_cluster_init).1 = false := by decide +kernel
  refine ⟨failed,fun same => ?_⟩
  have one : (km_insert_ram (fun _ _ => 0) 0 0x42000000 0 km_cluster_init).2.ram_nodes.length = 1 := by decide +kernel
  have none : km_cluster_init.ram_nodes.length = 0 := rfl
  have kept := same.nodes
  omega

end

end GridOS.Pages
