import GridOS.Words
import GridOS.Bitmap

/-!
The physical page allocator, `source/kernel/memory/pa.c`. A region of RAM is cut
into clusters of 32 MB; the bitmap of a cluster takes the pages at its head. The
static cluster table is a function, the lists hold indices into it, and every
CPU has its own current cluster. An allocation is `none` when the search in a
bitmap has not ended within the fuel.
-/
namespace GridOS.Pages
open GridOS.Words GridOS.Bits GridOS.Bitmap

def PAGE_SIZE : Nat := 4096
def KM_CLUSTER_SIZE : Nat := 32 * 1024 * 1024
def KM_MAX_STATIC_RAM_INFO : Nat := 32
def KM_MAX_STATIC_NODE_INFO : Nat := 2

/-- `KM_PAGE_ADDRESS_TO_PFN`. -/
def km_page_address_to_pfn (address : Nat) : Nat := address / PAGE_SIZE
/-- `KM_PAGE_ROUND_COUNT`. -/
def km_page_round_count (size : Nat) : Nat := (size + PAGE_SIZE - 1) / PAGE_SIZE
/-- The `int` with the bits of an `unsigned int`. -/
def toInt (count : Nat) : Int := if count < 2147483648 then count else (count : Int) - 4294967296

/-- A `struct km_cluster`; the bits of `flags` are fields. -/
structure Cluster where
  head : Nat
  start_pfn : Nat
  end_pfn : Nat
  ram_base : Nat
  bitmap : cl_bitmap
  real_node : Int
  usbale_count : Nat
  free : Nat
  not_free : Bool
  is_end_node : Bool
  totally_using : Bool

/-- A `struct km_cluster_head`. -/
structure ClusterHead where
  node : Int
  clusters : List Nat
  deriving DecidableEq

structure Memory where
  static_clusters : Nat → Cluster
  cur_ram_info : Nat
  ram_nodes : List ClusterHead
  mm_current_cluster : Nat → Option Nat

def Memory.set (s : Memory) (ram : Nat) (cluster : Cluster) : Memory :=
  { s with static_clusters := Function.update s.static_clusters ram cluster }

/-- The cluster that `memset` leaves. -/
def zero_cluster : Cluster :=
  { head := 0, start_pfn := 0, end_pfn := 0, ram_base := 0,
    bitmap := { bitmap := fun _ => 0, mask_count := 0, last_bit := 0 }, real_node := 0, usbale_count := 0, free := 0,
    not_free := false, is_end_node := false, totally_using := false }

/-- A cluster as `km_insert_ram` fills it in for the `t` bytes at `start`; `content` is
    what the memory there holds. -/
def new_cluster (content : Words) (start t : Nat) (last : Bool) : Cluster :=
  let start_pfn := km_page_address_to_pfn start
  let end_pfn := km_page_address_to_pfn (sub (add start t) 1)
  let page_count := add (sub end_pfn start_pfn) 1
  let bitmap_size := km_page_round_count (cl_bitmap_calc_size page_count)
  let usbale_count := sub page_count bitmap_size
  { zero_cluster with
    start_pfn, end_pfn, ram_base := add start (bitmap_size * PAGE_SIZE),
    bitmap := cl_bitmap_init zero_cluster.bitmap content usbale_count,
    usbale_count, free := usbale_count, is_end_node := last }

/-- `list_add_tail` of a cluster to the list of the `k`-th head. -/
def add_cluster (ram_nodes : List ClusterHead) (k ram : Nat) : List ClusterHead :=
  ram_nodes.modify k (fun head => { head with clusters := head.clusters ++ [ram] })

/-- The loop of `km_insert_ram` over the clusters of a region. -/
def insert_clusters (content : Nat → Words) (k : Nat) : Nat → Nat → Nat → Memory → Bool × Memory
  | 0, _, _, s => (true,s)
  | i+1, start, size, s =>
    let t := if KM_CLUSTER_SIZE > size then size else KM_CLUSTER_SIZE
    if s.cur_ram_info ≥ KM_MAX_STATIC_RAM_INFO then (false,s) else
    let ram := s.cur_ram_info
    let s := { s.set ram (new_cluster (content start) start t (i == 0)) with
      cur_ram_info := ram + 1
      ram_nodes := add_cluster s.ram_nodes k ram }
    insert_clusters content k i (add start KM_CLUSTER_SIZE) (sub size KM_CLUSTER_SIZE) s

def km_insert_ram (content : Nat → Words) (start size : Nat) (node : Int) (s : Memory) : Bool × Memory :=
  if start % PAGE_SIZE ≠ 0 then (false,s) else
  let i := sub (add size KM_CLUSTER_SIZE) 1 / KM_CLUSTER_SIZE
  match s.ram_nodes.findIdx? (·.node == node) with
  | some k => insert_clusters content k i start size s
  | none =>
    if s.ram_nodes.length ≥ KM_MAX_STATIC_NODE_INFO then (false,s) else
    insert_clusters content s.ram_nodes.length i start size { s with ram_nodes := s.ram_nodes ++ [⟨node,[]⟩] }

/-- The cluster found, if any. -/
def km_cluster_alloc (node : Int) (totally_using : Bool) (s : Memory) : Option Nat × Memory :=
  let node := if node = -1 then 0 else node
  match s.ram_nodes.findIdx? (·.node == node) with
  | none => (none,s)
  | some k =>
    match ((s.ram_nodes[k]?.map (·.clusters)).getD []).find?
      (fun ram => !(s.static_clusters ram).totally_using && !(s.static_clusters ram).not_free) with
    | none => (none,s)
    | some ram => (some ram,s.set ram { s.static_clusters ram with
        real_node := node, head := k, not_free := !totally_using, totally_using := totally_using })

def set_current_cluster (cpu ram : Nat) (s : Memory) : Memory :=
  { s with mm_current_cluster := Function.update s.mm_current_cluster cpu (some ram) }

def km_get_current_cluster (cpu : Nat) (s : Memory) : Option Nat × Memory :=
  match s.mm_current_cluster cpu with
  | some cluster => (some cluster,s)
  | none =>
    let found := km_cluster_alloc cpu false s
    match found.1 with
    | none => (none,found.2)
    | some cluster => (some cluster,set_current_cluster cpu cluster found.2)

/-- The head that owns a page and the index of its cluster. -/
def km_get_page_node (page : Nat) (s : Memory) : Option (ClusterHead × Nat) :=
  s.ram_nodes.findSome? (fun node =>
    (node.clusters.find? (fun ram => decide ((s.static_clusters ram).start_pfn ≤ km_page_address_to_pfn page ∧
      (s.static_clusters ram).end_pfn ≥ km_page_address_to_pfn page))).map (fun ram => (node,ram)))

/-- The bits that `allocate` asks the bitmap for. -/
def alloc_bits (fuel : Nat) (b : cl_bitmap) (count : Nat) : Option (Nat × cl_bitmap) :=
  if count ≠ 1 then cl_bitmap_alloc_consistant_bits fuel b (toInt count) else some (cl_bitmap_alloc_bit b)

def allocate (fuel ram count : Nat) (s : Memory) : Option (Nat × Memory) :=
  let cluster := s.static_clusters ram
  if cluster.free = 0 then some (0,s) else
  match alloc_bits fuel cluster.bitmap count with
  | none => none
  | some (page,bitmap) =>
    if page = HAL_BITMAP_ALLOC_BIT_ERROR then some (0,s.set ram { cluster with bitmap })
    else some (add (page * PAGE_SIZE) cluster.ram_base,s.set ram { cluster with bitmap, free := sub cluster.free count })

/-- The search of `allocate_page` among the clusters that were used before. -/
def used_before (ram count : Nat) (s : Memory) : Option Nat :=
  ((s.ram_nodes[(s.static_clusters ram).head]?.map (·.clusters)).getD []).find? (fun next =>
    next != ram && (s.static_clusters ram).real_node == (s.static_clusters next).real_node &&
      (s.static_clusters next).not_free && decide ((s.static_clusters next).free ≥ count))

/-- The second attempt of `allocate_page`, in the cluster that has become current. -/
def allocate_in_next (fuel cpu next count : Nat) (s : Memory) : Option (Nat × Memory) :=
  allocate fuel next count (set_current_cluster cpu next s)

def allocate_page (fuel cpu count : Nat) (s : Memory) : Option (Nat × Memory) :=
  let current := km_get_current_cluster cpu s
  match current.1 with
  | none => some (0,current.2)
  | some ram =>
    match allocate fuel ram count current.2 with
    | none => none
    | some (page,s) =>
      if page ≠ 0 then some (page,s) else
      match used_before ram count s with
      | some next => allocate_in_next fuel cpu next count s
      | none =>
        let fresh := km_cluster_alloc cpu false s
        match fresh.1 with
        | some next => allocate_in_next fuel cpu next count fresh.2
        | none => some (0,fresh.2)

def deallocate_page (page count : Nat) (s : Memory) : Memory :=
  match km_get_page_node page s with
  | none => s
  | some (_,ram) =>
    let cluster := s.static_clusters ram
    let bit := sub page cluster.ram_base / PAGE_SIZE
    if count = 1 then
      let freed := cl_bitmap_dealloc_bit cluster.bitmap bit
      if freed.1 = false then s.set ram { cluster with bitmap := freed.2 }
      else s.set ram { cluster with bitmap := freed.2, free := add cluster.free count }
    else
      s.set ram { cluster with
        bitmap := (cl_bitmap_dealloc_consistent_bits cluster.bitmap (toInt count).toNat bit).2
        free := add cluster.free count }

/-- After `km_cluster_init`, before any RAM is known. -/
def km_cluster_init : Memory :=
  { static_clusters := fun _ => zero_cluster, cur_ram_info := 0, ram_nodes := [], mm_current_cluster := fun _ => none }

end GridOS.Pages
