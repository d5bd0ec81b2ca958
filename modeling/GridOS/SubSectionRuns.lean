import GridOS.SubSection

/-!
Runs that bind segments. `Kept` is what every run keeps: the list of the parent is a circle of
sub-sections, whose member `node` is linked to itself. So `ks_sub_close` changes nothing. The list
is in order when the segments come in order.
-/
namespace GridOS.SubSection
open GridOS.Words GridOS.ListHead GridOS.Vm

/-- The sub-sections of the parent in the order of the list. -/
structure Kept (m : Mem) (parent : Nat) (subs : List Nat) : Prop where
  ring : Ring m (parent + SUBSECTION_HEAD) (subs.map (· + SUBSECTION_LINK))
  apart : (parent :: subs).Pairwise Apart
  nodes : ∀ s ∈ subs, m s = s ∧ m (s + 4) = s

/-- What the searches of `vm.c` take a sub-section for. -/
def seen (m : Mem) (s : Nat) : VmNode := ⟨m (s + SHARE_SIZE),m (s + SHARE_OFFSET),.priv⟩

theorem Apart.symm {p q : Nat} (apart : Apart p q) : Apart q p := Or.symm apart

instance : Std.Symm Apart := ⟨fun _ _ apart => apart.symm⟩

section Parts
variable {m m' : Mem} {fuel parent : Nat} {subs : List Nat}

/-- The list depends on the links and the nodes only. -/
theorem Kept.congr (kept : Kept m parent subs) (same : ∀ q ∈ parent :: subs, ∀ k < START, m' (q + k) = m (q + k)) :
    Kept m' parent subs := by
  refine ⟨kept.ring.congr ?_,kept.apart,?_⟩
  · intro a member
    rcases List.mem_cons.mp member with rfl | member
    · exact ⟨same parent (by simp) 8 (by decide),same parent (by simp) 12 (by decide)⟩
    · obtain ⟨s,inside,rfl⟩ := List.mem_map.mp member
      exact ⟨same s (by simp [inside]) 16 (by decide),same s (by simp [inside]) 20 (by decide)⟩
  · intro s inside
    obtain ⟨forth,back⟩ := kept.nodes s inside
    exact ⟨(same s (by simp [inside]) 0 (by decide)).trans forth,(same s (by simp [inside]) 4 (by decide)).trans back⟩

theorem Kept.list_for_each (kept : Kept m parent subs) (enough : subs.length < fuel) :
    list_for_each fuel (parent + SUBSECTION_HEAD) m = subs.map (· + SUBSECTION_LINK) :=
  kept.ring.list_for_each (by simpa using enough)

theorem Kept.vm_nodes (kept : Kept m parent subs) (enough : subs.length < fuel) :
    vm_nodes fuel (parent + SUBSECTION_HEAD) m = subs.map (seen m) := by
  rw [SubSection.vm_nodes,kept.list_for_each enough,List.map_map]
  rfl

/-- A word of a section that is apart from another one. -/
theorem word_ne {p q j k : Nat} (apart : Apart p q) (left : j < SECTION_SIZE) (right : k < SECTION_SIZE) :
    q + k ≠ p + j := by
  unfold Apart at apart
  omega

/-! ### Closing -/

/-- Unlinking a node that is linked to itself changes nothing. -/
theorem list_del_init_self {entry : Nat} (forth : m entry = entry) (back : m (entry + 4) = entry) :
    list_del_init entry m = m := by
  funext a
  simp only [list_del_init,_list_del,INIT_LIST_HEAD,write_apply,next,prev,forth,back]
  split
  · next here => rw [here,back]
  · split
    · next here => rw [here,forth]
    · rfl

theorem close_from_eq (head fuel pos : Nat) (nodes : ∀ t ∈ links_from head m fuel pos,
      m (list_entry t SUBSECTION_LINK) = list_entry t SUBSECTION_LINK ∧
      m (list_entry t SUBSECTION_LINK + 4) = list_entry t SUBSECTION_LINK) :
    close_from head fuel pos m = ((links_from head m fuel pos).map (list_entry · SUBSECTION_LINK),m) := by
  induction fuel generalizing pos with
  | zero => rfl
  | succ fuel ih =>
    by_cases done : pos = head
    · simp [close_from,links_from,done]
    · rw [links_from,if_neg done] at nodes ⊢
      obtain ⟨forth,back⟩ := nodes pos (by simp)
      have rest := ih (next m pos) (fun t member => nodes t (by simp [member]))
      simp [close_from,done,NODE,list_del_init_self forth back,rest]

/-- `ks_sub_close` closes all sub-sections and leaves the list as it was. -/
theorem Kept.ks_sub_close (kept : Kept m parent subs) (enough : subs.length < fuel) :
    ks_sub_close fuel parent m = (subs,m) := by
  have listed := kept.list_for_each enough
  rw [ListHead.list_for_each] at listed
  rw [SubSection.ks_sub_close,close_from_eq,listed]
  · simp [list_entry,Function.comp_def]
  · intro t member
    rw [listed] at member
    obtain ⟨s,inside,rfl⟩ := List.mem_map.mp member
    simpa [list_entry] using kept.nodes s inside

/-- Only an empty list is closed properly. -/
theorem Kept.closed_iff (kept : Kept m parent subs) (enough : subs.length < fuel) :
    Closed fuel parent m ↔ subs = [] := by
  constructor
  · intro closed
    have empty := closed.empty
    rw [kept.ks_sub_close enough,kept.ring.list_empty] at empty
    simpa using empty
  · rintro rfl
    constructor
    · rw [kept.ks_sub_close enough]
      exact kept.ring.list_empty.mpr rfl
    · rw [kept.ks_sub_close enough]
      simp

/-! ### Creating -/

/-- The object as `ks_sub_create` has it before the search. -/
def prepared (sub : Nat) (m : Mem) : Mem :=
  write (sub + PROT) KM_PROT_READ (write (sub + TYPE) (KS_TYPE_PRIVATE ||| KS_TYPE_ADD_SUB)
    (object_init sub (clear_object sub m)))

theorem prepared_other {sub a : Nat} (outside : a < sub ∨ sub + SECTION_SIZE ≤ a) : prepared sub m a = m a := by
  simp only [prepared,object_init,clear_object,INIT_LIST_HEAD,write_apply,PROT,TYPE,NODE,SUBSECTION_HEAD]
  unfold SECTION_SIZE at *
  repeat rw [if_neg (by omega)]

theorem prepared_node (sub : Nat) : prepared sub m sub = sub ∧ prepared sub m (sub + 4) = sub := by
  constructor
  · simp [prepared,object_init,INIT_LIST_HEAD,write_apply,PROT,TYPE,NODE]
  · simp [prepared,object_init,INIT_LIST_HEAD,write_apply,PROT,TYPE,NODE]

theorem prepared_apart {sub q k : Nat} (apart : Apart sub q) (word : k < SECTION_SIZE) :
    prepared sub m (q + k) = m (q + k) := by
  refine prepared_other ?_
  unfold Apart at apart
  omega

/-- The place that `insert_virtual_space` finds. -/
theorem insert_cases {head : Nat} (who : Nat) {links : List Nat} (ring : Ring m head links) (enough : links.length < fuel) :
    (∃ l r, links = l ++ r ∧ (∀ t ∈ l, stands_behind m who t = false) ∧ (∀ t ∈ r.head?, stands_behind m who t = true) ∧
      insert_virtual_space fuel head who true m = (true,list_add_tail (who + SUBSECTION_LINK) (r.headD head) m)) ∨
    insert_virtual_space fuel head who true m = (false,m) ∧ (∀ t ∈ links, stands_behind m who t = false) ∧
      ∃ t ∈ links.getLast?, ¬m (who + START) ≥ add (m (t + START)) (m (t + SIZE)) := by
  rw [insert_virtual_space,vm_nodes,ring.list_for_each enough]
  cases found : links.find? (stands_behind m who) with
  | some t =>
    obtain ⟨behind,l,r,split,before⟩ := List.find?_eq_some_iff_append.mp found
    refine .inl ⟨l,t :: r,split,fun a member => by simpa using before a member,?_,by simp⟩
    intro a first
    cases first
    exact behind
  | none =>
    have none_behind := List.find?_eq_none.mp found
    dsimp only
    split
    · refine .inl ⟨links,[],by simp,fun t member => by simpa using none_behind t member,by simp,by simp⟩
    · next full =>
      refine .inr ⟨rfl,fun t member => by simpa using none_behind t member,?_⟩
      simp only [List.getLast?_map,Option.mem_def,Option.map_eq_some_iff,not_forall] at full
      obtain ⟨_,⟨t,last,rfl⟩,behind⟩ := full
      exact ⟨t,last,behind⟩

/-- The start and the size of a new sub-section. -/
def placed (sub base size : Nat) (m : Mem) : Mem := write (sub + START) base (write (sub + SIZE) size m)

/-- What `kp_exe_bind` writes into a new sub-section. -/
def finished (seg : Segment) (sub : Nat) (m : Mem) : Mem :=
  write (sub + SHARE_OFFSET) seg.foffset (write (sub + SHARE_SIZE) seg.fsize
    (if seg.writable then write (sub + PROT) (m (sub + PROT) ||| KM_PROT_WRITE) m else m))

/-- The space that the search finds for a segment. -/
def granted (fuel parent : Nat) (seg : Segment) (m : Mem) : Nat :=
  alloc_virtual_space (vm_nodes fuel (parent + SUBSECTION_HEAD) m) (m (parent + START)) (m (parent + SIZE))
    seg.address seg.vsize

theorem bind_segment_eq {seg : Segment} {sub : Nat} (object : seg.object = some sub) :
    bind_segment fuel parent seg m =
      if granted fuel parent seg (prepared sub m) = 0 then (none,prepared sub m)
      else (some sub,finished seg sub (insert_virtual_space fuel (parent + SUBSECTION_HEAD) sub true
        (placed sub (granted fuel parent seg (prepared sub m)) seg.vsize (prepared sub m))).2) := by
  have create : ks_sub_create fuel parent seg.object seg.address seg.vsize m =
      if (km_vm_create_sub fuel parent sub seg.address seg.vsize (prepared sub m)).1 = 0 then
        (none,(km_vm_create_sub fuel parent sub seg.address seg.vsize (prepared sub m)).2)
      else (some sub,(km_vm_create_sub fuel parent sub seg.address seg.vsize (prepared sub m)).2) := by
    rw [object]
    rfl
  rw [bind_segment,create]
  by_cases none : granted fuel parent seg (prepared sub m) = 0
  · have refused : km_vm_create_sub fuel parent sub seg.address seg.vsize (prepared sub m) = (0,prepared sub m) := by
      rw [km_vm_create_sub]
      exact if_pos none
    simp [refused,none]
  · have made : km_vm_create_sub fuel parent sub seg.address seg.vsize (prepared sub m) =
        (granted fuel parent seg (prepared sub m),(insert_virtual_space fuel (parent + SUBSECTION_HEAD) sub true
          (placed sub (granted fuel parent seg (prepared sub m)) seg.vsize (prepared sub m))).2) := by
      rw [km_vm_create_sub]
      exact if_neg none
    simp [made,none,finished]

/-! ### One segment -/

/-- The words of the sections are the same, but for the links of their lists of sub-sections. -/
def Framed (m m' : Mem) (sections : List Nat) : Prop :=
  ∀ q ∈ sections, ∀ k < SECTION_SIZE, k < SUBSECTION_HEAD ∨ START ≤ k → m' (q + k) = m (q + k)

theorem placed_apart {sub q k base size : Nat} (apart : Apart sub q) (word : k < SECTION_SIZE) :
    placed sub base size m (q + k) = m (q + k) := by
  rw [placed,write_apply,if_neg (word_ne apart (by decide) word),write_apply,if_neg (word_ne apart (by decide) word)]

theorem placed_low {sub k base size : Nat} (low : k < START) : placed sub base size m (sub + k) = m (sub + k) := by
  unfold START at low
  rw [placed,write_apply,if_neg (by unfold START; omega),write_apply,if_neg (by unfold SIZE; omega)]

theorem finished_apart {seg : Segment} {sub q k : Nat} (apart : Apart sub q) (word : k < SECTION_SIZE) :
    finished seg sub m (q + k) = m (q + k) := by
  rw [finished,write_apply,if_neg (word_ne apart (by decide) word),write_apply,if_neg (word_ne apart (by decide) word)]
  split
  · rw [write_apply,if_neg (word_ne apart (by decide) word)]
  · rfl

theorem finished_low {seg : Segment} {sub k : Nat} (low : k < TYPE) : finished seg sub m (sub + k) = m (sub + k) := by
  unfold TYPE at low
  rw [finished,write_apply,if_neg (by unfold SHARE_OFFSET; omega),write_apply,if_neg (by unfold SHARE_SIZE; omega)]
  split
  · rw [write_apply,if_neg (by unfold PROT; omega)]
  · rfl

/-- A section that is put among the others changes the links only. -/
theorem list_add_tail_framed {sub : Nat} {l r : List Nat} (kept : Kept m parent (l ++ r)) {q k : Nat}
    (placed : ∀ p ∈ sub :: parent :: (l ++ r), q = p ∨ Apart p q) (word : k < SECTION_SIZE)
    (plain : k < SUBSECTION_HEAD ∨ START ≤ k) :
    list_add_tail (sub + SUBSECTION_LINK) ((r.map (· + SUBSECTION_LINK)).headD (parent + SUBSECTION_HEAD)) m (q + k) =
      m (q + k) := by
  have ring := kept.ring
  rw [List.map_append] at ring
  refine ring.list_add_tail_same ?_
  intro b member
  have section_of : ∃ p ∈ sub :: parent :: (l ++ r), b = p + SUBSECTION_HEAD ∨ b = p + SUBSECTION_LINK := by
    rw [← List.map_append] at member
    rcases List.mem_cons.mp member with rfl | member
    · exact ⟨sub,by simp,.inr rfl⟩
    · rcases List.mem_cons.mp member with rfl | member
      · exact ⟨parent,by simp,.inl rfl⟩
      · obtain ⟨s,inside,rfl⟩ := List.mem_map.mp member
        exact ⟨s,List.mem_cons_of_mem _ (List.mem_cons_of_mem _ inside),.inr rfl⟩
  obtain ⟨p,known,offset⟩ := section_of
  have apart := placed p known
  unfold Apart SECTION_SIZE at *
  unfold SUBSECTION_HEAD SUBSECTION_LINK START at *
  omega

theorem kept_insert {sub : Nat} {l r : List Nat} (kept : Kept m parent (l ++ r))
    (fresh : ∀ q ∈ parent :: (l ++ r), Apart sub q) (node : m sub = sub ∧ m (sub + 4) = sub) :
    Kept (list_add_tail (sub + SUBSECTION_LINK) ((r.map (· + SUBSECTION_LINK)).headD (parent + SUBSECTION_HEAD)) m) parent
      (l ++ sub :: r) := by
  have ring := kept.ring
  rw [List.map_append] at ring
  have spaced : ∀ a ∈ (parent + SUBSECTION_HEAD) :: (l.map (· + SUBSECTION_LINK) ++ r.map (· + SUBSECTION_LINK)),
      Spaced (sub + SUBSECTION_LINK) a := by
    intro a member
    rw [← List.map_append] at member
    rcases List.mem_cons.mp member with rfl | member
    · have apart := fresh parent (by simp)
      unfold Apart SECTION_SIZE at apart
      unfold Spaced SUBSECTION_HEAD SUBSECTION_LINK
      omega
    · obtain ⟨s,inside,rfl⟩ := List.mem_map.mp member
      have apart := fresh s (List.mem_cons_of_mem _ inside)
      unfold Apart SECTION_SIZE at apart
      unfold Spaced SUBSECTION_LINK
      omega
  have order : (parent :: (l ++ sub :: r)).Perm (sub :: parent :: (l ++ r)) :=
    (List.perm_middle.cons parent).trans (.swap sub parent (l ++ r))
  have together : (sub :: parent :: (l ++ r)).Pairwise Apart := List.pairwise_cons.mpr ⟨fresh,kept.apart⟩
  refine ⟨by simpa using ring.list_add_tail spaced,(order.pairwise_iff Apart.symm).mpr together,?_⟩
  intro s member
  have known : s ∈ sub :: parent :: (l ++ r) := order.mem_iff.mp (List.mem_cons_of_mem _ member)
  have same : ∀ k < SUBSECTION_HEAD, list_add_tail (sub + SUBSECTION_LINK)
      ((r.map (· + SUBSECTION_LINK)).headD (parent + SUBSECTION_HEAD)) m (s + k) = m (s + k) := by
    intro k low
    refine list_add_tail_framed kept ?_ (Nat.lt_trans low (by decide)) (.inl low)
    intro p inside
    by_cases equal : s = p
    · exact .inl equal
    · exact .inr (together.forall inside known (Ne.symm equal))
  have was : m s = s ∧ m (s + 4) = s := by
    rcases List.mem_append.mp member with left | right
    · exact kept.nodes s (by simp [left])
    · rcases List.mem_cons.mp right with rfl | right
      · exact node
      · exact kept.nodes s (by simp [right])
  exact ⟨(same 0 (by decide)).trans was.1,(same 4 (by decide)).trans was.2⟩

theorem insert_kept {sub : Nat} (kept : Kept m parent subs) (enough : subs.length < fuel)
    (apart : ∀ q ∈ parent :: subs, Apart sub q) (node : m sub = sub ∧ m (sub + 4) = sub) :
    (∀ q k, (∀ p ∈ sub :: parent :: subs, q = p ∨ Apart p q) → k < SECTION_SIZE → k < SUBSECTION_HEAD ∨ START ≤ k →
      (insert_virtual_space fuel (parent + SUBSECTION_HEAD) sub true m).2 (q + k) = m (q + k)) ∧
    ((∃ l r, subs = l ++ r ∧ Kept (insert_virtual_space fuel (parent + SUBSECTION_HEAD) sub true m).2 parent (l ++ sub :: r) ∧
        ∀ s ∈ r.head?, stands_behind m sub (s + SUBSECTION_LINK) = true) ∨
      Kept (insert_virtual_space fuel (parent + SUBSECTION_HEAD) sub true m).2 parent subs ∧
        ∃ s ∈ subs.getLast?, ¬m (sub + START) ≥ add (m (s + SUBSECTION_LINK + START)) (m (s + SUBSECTION_LINK + SIZE))) := by
  rcases insert_cases sub kept.ring (by simpa using enough) with
    ⟨l,r,split,_,first,inserted⟩ | ⟨inserted,_,t,last,behind⟩
  · obtain ⟨l,r,rfl,rfl,rfl⟩ := List.map_eq_append_iff.mp split
    rw [inserted]
    refine ⟨fun q k placed word plain => list_add_tail_framed kept placed word plain,.inl ⟨l,r,rfl,kept_insert kept apart node,?_⟩⟩
    intro s head
    exact first _ (by rw [List.head?_map]; exact Option.mem_map_of_mem _ head)
  · rw [inserted]
    refine ⟨fun _ _ _ _ _ => rfl,.inr ⟨kept,?_⟩⟩
    rw [List.getLast?_map] at last
    obtain ⟨s,final,rfl⟩ := Option.mem_map.mp last
    exact ⟨s,final,behind⟩

/-- The new sub-section comes in front of the sub-section with this start, as the search reads it. -/
def Before (m : Mem) (base size s : Nat) : Prop := (seen m s).start > base ∧ (seen m s).start ≥ add base size

theorem prepared_kept {sub : Nat} (kept : Kept m parent subs) (fresh : ∀ q ∈ parent :: subs, Apart sub q) :
    Kept (prepared sub m) parent subs :=
  kept.congr (fun q member _ low => prepared_apart (fresh q member) (Nat.lt_trans low (by decide)))

theorem seen_prepared {sub : Nat} (fresh : ∀ q ∈ subs, Apart sub q) : subs.map (seen (prepared sub m)) = subs.map (seen m) := by
  refine List.map_congr_left ?_
  intro s member
  rw [seen,seen,prepared_apart (fresh s member) (by decide),prepared_apart (fresh s member) (by decide)]

/-- The search reads file sizes and offsets for starts and sizes. -/
theorem granted_eq {seg : Segment} {sub : Nat} (kept : Kept m parent subs) (enough : subs.length < fuel)
    (fresh : ∀ q ∈ parent :: subs, Apart sub q) : granted fuel parent seg (prepared sub m) =
      alloc_virtual_space (subs.map (seen m)) (m (parent + START)) (m (parent + SIZE)) seg.address seg.vsize := by
  have apart := fresh parent (by simp)
  rw [granted,(prepared_kept kept fresh).vm_nodes enough,seen_prepared (fun q member => fresh q (by simp [member])),
    prepared_apart apart (by decide),prepared_apart apart (by decide)]

theorem placed_start (sub base size : Nat) : placed sub base size m (sub + START) = base := by
  rw [placed,write_apply,if_pos rfl]

theorem placed_size (sub base size : Nat) : placed sub base size m (sub + SIZE) = size := by
  rw [placed,write_apply,if_neg (by unfold START SIZE; omega),write_apply,if_pos rfl]

theorem finished_kept {seg : Segment} {sub : Nat} (kept : Kept m parent subs)
    (known : ∀ q ∈ parent :: subs, q = sub ∨ Apart sub q) : Kept (finished seg sub m) parent subs := by
  refine kept.congr ?_
  intro q member k low
  rcases known q member with rfl | apart
  · exact finished_low (Nat.lt_trans low (by decide))
  · exact finished_apart apart (Nat.lt_trans low (by decide))

/-- The order in which the search puts a new sub-section. -/
theorem stands_behind_iff {sub s base size : Nat} (apart : Apart sub s) :
    stands_behind (placed sub base size (prepared sub m)) sub (s + SUBSECTION_LINK) = true ↔ Before m base size s := by
  have start : placed sub base size (prepared sub m) (s + SUBSECTION_LINK + START) = m (s + SHARE_SIZE) :=
    (placed_apart (k := SHARE_SIZE) apart (by decide)).trans (prepared_apart apart (by decide))
  simp [stands_behind,km_vm_node,list_entry,NODE,start,placed_start,placed_size,Before,seen]

section Segment
variable {seg : Segment} {sub : Nat} {created : List Nat} (kept : Kept m parent subs) (object : seg.object = some sub)
  (fresh : ∀ q ∈ parent :: created, Apart sub q) (listed : ∀ s ∈ subs, s ∈ created)
include kept object fresh listed

theorem bind_refused (refused : granted fuel parent seg (prepared sub m) = 0) :
    bind_segment fuel parent seg m = (none,prepared sub m) ∧ Kept (prepared sub m) parent subs ∧
      Framed m (prepared sub m) (parent :: created) := by
  refine ⟨by rw [bind_segment_eq object,if_pos refused],prepared_kept kept ?_,?_⟩
  · intro q member
    rcases List.mem_cons.mp member with rfl | inside
    · exact fresh q (by simp)
    · exact fresh q (by simp [listed q inside])
  · intro q member k word _
    exact prepared_apart (fresh q member) word

theorem bind_granted (enough : subs.length < fuel) (separate : (parent :: created).Pairwise Apart)
    (some_space : granted fuel parent seg (prepared sub m) ≠ 0) :
    (bind_segment fuel parent seg m).1 = some sub ∧
    Framed m (bind_segment fuel parent seg m).2 (parent :: created) ∧
    (bind_segment fuel parent seg m).2 (sub + START) = granted fuel parent seg (prepared sub m) ∧
    (bind_segment fuel parent seg m).2 (sub + SIZE) = seg.vsize ∧
    (bind_segment fuel parent seg m).2 (sub + SHARE_SIZE) = seg.fsize ∧
    ((∃ l r, subs = l ++ r ∧ Kept (bind_segment fuel parent seg m).2 parent (l ++ sub :: r) ∧
        ∀ s ∈ r.head?, Before m (granted fuel parent seg (prepared sub m)) seg.vsize s) ∨
      Kept (bind_segment fuel parent seg m).2 parent subs ∧
        ∃ s ∈ subs.getLast?, ¬granted fuel parent seg (prepared sub m) ≥ add (seen m s).start (seen m s).size) := by
  rw [bind_segment_eq object,if_neg some_space]
  generalize granted fuel parent seg (prepared sub m) = base
  have known : ∀ q ∈ parent :: subs, q ∈ parent :: created := by
    intro q member
    rcases List.mem_cons.mp member with rfl | inside
    · exact List.mem_cons_self
    · exact List.mem_cons_of_mem _ (listed q inside)
  have apart : ∀ q ∈ parent :: subs, Apart sub q := fun q member => fresh q (known q member)
  have kept₁ : Kept (placed sub base seg.vsize (prepared sub m)) parent subs :=
    (prepared_kept kept apart).congr (fun q member _ low => placed_apart (apart q member) (Nat.lt_trans low (by decide)))
  have node : placed sub base seg.vsize (prepared sub m) sub = sub ∧
      placed sub base seg.vsize (prepared sub m) (sub + 4) = sub := by
    obtain ⟨forth,back⟩ := prepared_node (m := m) sub
    exact ⟨(placed_low (k := 0) (by decide)).trans forth,(placed_low (by decide)).trans back⟩
  have before : ∀ q ∈ parent :: created, ∀ k < SECTION_SIZE,
      placed sub base seg.vsize (prepared sub m) (q + k) = m (q + k) := fun q member k word =>
    (placed_apart (fresh q member) word).trans (prepared_apart (fresh q member) word)
  obtain ⟨plain,placement⟩ := insert_kept kept₁ enough apart node
  generalize (insert_virtual_space fuel (parent + SUBSECTION_HEAD) sub true
    (placed sub base seg.vsize (prepared sub m))).2 = m₂ at *
  have own : ∀ k < SECTION_SIZE, START ≤ k → m₂ (sub + k) = placed sub base seg.vsize (prepared sub m) (sub + k) := by
    intro k word high
    refine plain sub k ?_ word (.inr high)
    intro p member
    rcases List.mem_cons.mp member with rfl | inside
    · exact .inl rfl
    · exact .inr (apart p inside).symm
  refine ⟨rfl,?_,?_,?_,?_,?_⟩
  · intro q member k word outside
    refine (finished_apart (fresh q member) word).trans ((plain q k ?_ word outside).trans (before q member k word))
    intro p inside
    rcases List.mem_cons.mp inside with rfl | inside
    · exact .inr (fresh q member)
    · by_cases same : q = p
      · exact .inl same
      · exact .inr (separate.forall (known p inside) member (Ne.symm same))
  · exact (finished_low (by decide)).trans ((own _ (by decide) (by decide)).trans (placed_start ..))
  · exact (finished_low (by decide)).trans ((own _ (by decide) (by decide)).trans (placed_size ..))
  · simp [finished,write_apply,SHARE_SIZE,SHARE_OFFSET]
  · rcases placement with ⟨l,r,rfl,kept₂,first⟩ | ⟨kept₂,s,last,behind⟩
    · refine .inl ⟨l,r,rfl,finished_kept kept₂ ?_,?_⟩
      · intro q member
        by_cases same : q = sub
        · exact .inl same
        · refine .inr (apart q ?_)
          simpa [same] using member
      · intro s head
        exact (stands_behind_iff (apart s (by simp [List.mem_of_head? head]))).mp (first s head)
    · refine .inr ⟨finished_kept kept₂ (fun q member => .inr (apart q member)),s,last,?_⟩
      have inside : s ∈ subs := List.mem_of_getLast? last
      have start := before s (by simp [listed s inside]) SHARE_SIZE (by decide)
      have size := before s (by simp [listed s inside]) SHARE_OFFSET (by decide)
      rw [placed_start] at behind
      change ¬base ≥ add (m (s + SHARE_SIZE)) (m (s + SHARE_OFFSET))
      rw [← start,← size]
      exact behind
end Segment

/-- The space of a segment, from what the search reads of the sub-sections in place. -/
def space (m : Mem) (parent : Nat) (subs : List Nat) (seg : Segment) : Nat :=
  alloc_virtual_space (subs.map (seen m)) (m (parent + START)) (m (parent + SIZE)) seg.address seg.vsize

/-- A sub-section for the segment, which is put into the list unless the last one there seems to reach behind it. -/
structure Made (m m' : Mem) (parent : Nat) (subs : List Nat) (seg : Segment) (sub : Nat) : Prop where
  object : seg.object = some sub
  found : space m parent subs seg ≠ 0
  start : m' (sub + START) = space m parent subs seg
  size : m' (sub + SIZE) = seg.vsize
  file : m' (sub + SHARE_SIZE) = seg.fsize
  placement : (∃ l r, subs = l ++ r ∧ Kept m' parent (l ++ sub :: r) ∧
      ∀ s ∈ r.head?, Before m (space m parent subs seg) seg.vsize s) ∨
    Kept m' parent subs ∧ ∃ s ∈ subs.getLast?, ¬space m parent subs seg ≥ add (seen m s).start (seen m s).size

/-- What one segment does. -/
theorem bind_segment_cases {seg : Segment} {created : List Nat} (kept : Kept m parent subs) (enough : subs.length < fuel)
    (fresh : ∀ p ∈ seg.object, ∀ q ∈ parent :: created, Apart p q) (listed : ∀ s ∈ subs, s ∈ created)
    (separate : (parent :: created).Pairwise Apart) :
    Framed m (bind_segment fuel parent seg m).2 (parent :: created) ∧
    ((bind_segment fuel parent seg m).1 = none ∧ Kept (bind_segment fuel parent seg m).2 parent subs ∧
        (seg.object = none ∨ space m parent subs seg = 0) ∨
      ∃ sub, (bind_segment fuel parent seg m).1 = some sub ∧ Made m (bind_segment fuel parent seg m).2 parent subs seg sub) := by
  cases object : seg.object with
  | none =>
    have nothing : bind_segment fuel parent seg m = (none,m) := by
      rw [bind_segment,object]
      rfl
    rw [nothing]
    exact ⟨fun _ _ _ _ _ => rfl,.inl ⟨rfl,kept,.inl rfl⟩⟩
  | some sub =>
    have fresh := fresh sub object
    have apart : ∀ q ∈ parent :: subs, Apart sub q := by
      intro q member
      rcases List.mem_cons.mp member with rfl | inside
      · exact fresh q (by simp)
      · exact fresh q (by simp [listed q inside])
    have found : granted fuel parent seg (prepared sub m) = space m parent subs seg := granted_eq kept enough apart
    by_cases refused : granted fuel parent seg (prepared sub m) = 0
    · obtain ⟨result,kept',framed⟩ := bind_refused kept object fresh listed refused
      rw [result]
      exact ⟨framed,.inl ⟨rfl,kept',.inr (found ▸ refused)⟩⟩
    · obtain ⟨result,framed,start,size,file,placement⟩ := bind_granted kept object fresh listed enough separate refused
      rw [found] at refused start placement
      exact ⟨framed,.inr ⟨sub,result,object,refused,start,size,file,placement⟩⟩

/-! ### Runs -/

theorem space_empty (m : Mem) (parent : Nat) (seg : Segment) : space m parent [] seg =
    check_limit (m (parent + START)) (m (parent + SIZE)) (if seg.address ≠ 0 then seg.address else m (parent + START))
      seg.vsize := by
  simp [space,alloc_virtual_space,walk]

theorem Framed.rejected {sections : List Nat} (framed : Framed m m' (parent :: sections)) (seg : Segment) :
    Rejected parent m' seg ↔ Rejected parent m seg := by
  have start := framed parent (by simp) START (by decide) (by decide)
  have size := framed parent (by simp) SIZE (by decide) (by decide)
  rw [Rejected,Rejected,start,size]

/-- The list is empty exactly when all segments were rejected. -/
theorem bound_kept {created : List Nat} {segments : List Segment} (run : Bound fuel parent m created segments)
    (enough : segments.length < fuel) : ∃ subs, Kept m parent subs ∧ (∀ s ∈ subs, s ∈ created) ∧
      (parent :: created).Pairwise Apart ∧ subs.length ≤ segments.length ∧
      (subs = [] ↔ ∀ seg ∈ segments, Rejected parent m seg) ∧ (subs = [] → created = []) := by
  induction run with
  | start ring => exact ⟨[],⟨ring,by simp,by simp⟩,by simp,by simp,by simp,by simp,by simp⟩
  | segment seg run fresh ih =>
    rename_i m created segments
    rw [List.length_append,List.length_singleton] at enough
    obtain ⟨subs,kept,listed,separate,count,empty,none_made⟩ := ih (by omega)
    have room : subs.length < fuel := by omega
    obtain ⟨framed,outcome⟩ := bind_segment_cases kept room fresh listed separate
    have rejected : (∀ seg' ∈ segments ++ [seg], Rejected parent (bind_segment fuel parent seg m).2 seg') ↔
        (∀ seg' ∈ segments, Rejected parent m seg') ∧ Rejected parent m seg := by
      simp only [framed.rejected,List.mem_append,List.mem_singleton]
      constructor
      · intro all
        exact ⟨fun seg' member => all seg' (.inl member),all seg (.inr rfl)⟩
      · rintro ⟨all,last⟩ seg' (member | rfl)
        · exact all seg' member
        · exact last
    rw [rejected,← empty]
    rcases outcome with ⟨none,kept',refused⟩ | ⟨sub,made,result⟩
    · rw [none,Option.toList_none,List.append_nil]
      refine ⟨subs,kept',listed,separate,by simp; omega,?_,none_made⟩
      constructor
      · rintro rfl
        rw [space_empty] at refused
        exact ⟨rfl,refused⟩
      · exact fun both => both.1
    · rw [made,Option.toList_some]
      have separate' : (parent :: (created ++ [sub])).Pairwise Apart := by
        rw [← List.cons_append]
        refine List.pairwise_append.mpr ⟨separate,by simp,?_⟩
        intro q member s single
        rw [List.mem_singleton.mp single]
        exact (fresh sub result.object q member).symm
      have accepted : ¬(subs = [] ∧ Rejected parent m seg) := by
        rintro ⟨rfl,none | refused⟩
        · exact nomatch none.symm.trans result.object
        · exact result.found (space_empty m parent seg ▸ refused)
      rcases result.placement with ⟨l,r,rfl,kept',_⟩ | ⟨kept',s,last,_⟩
      · refine ⟨l ++ sub :: r,kept',?_,separate',by simp at count ⊢; omega,?_,by simp⟩
        · intro s member
          rcases List.mem_append.mp member with left | right
          · simp [listed s (by simp [left])]
          · rcases List.mem_cons.mp right with rfl | right
            · simp
            · simp [listed s (by simp [right])]
        · exact ⟨fun impossible => by simp at impossible,fun both => absurd both accepted⟩
      · have some_sub : subs ≠ [] := by
          rintro rfl
          cases last
        refine ⟨subs,kept',fun s member => by simp [listed s member],separate',by simp; omega,by simp [some_sub],?_⟩
        exact fun empty => absurd empty some_sub

/-! ### Segments in order -/

/-- The search passes the nodes that do not start behind the desired address. -/
theorem walk_passes {range_start range_len desired size : Nat} (given : desired ≠ 0) {nodes : List VmNode}
    (low : ∀ n ∈ nodes, n.start ≤ desired) (pP : Option VmNode) :
    walk range_start range_len desired size nodes pP desired = ⟨desired,true,nodes.getLast?.or pP⟩ := by
  induction nodes generalizing pP with
  | nil => simp [walk]
  | cons n nodes ih =>
    have here := low n (by simp)
    rw [walk,if_neg (by omega),if_pos given,ih (fun n member => low n (by simp [member])) (some n),List.getLast?_cons]
    cases nodes.getLast? with
    | none => rfl
    | some last => rfl

theorem space_behind {seg : Segment} (given : seg.address ≠ 0) (low : ∀ s ∈ subs, (seen m s).start ≤ seg.address)
    (found : space m parent subs seg ≠ 0) : space m parent subs seg = seg.address ∧
      ∀ s ∈ subs.getLast?, seg.address ≥ add (seen m s).start (seen m s).size := by
  have nodes : ∀ n ∈ subs.map (seen m), n.start ≤ seg.address := by
    intro n member
    obtain ⟨s,inside,rfl⟩ := List.mem_map.mp member
    exact low s inside
  rw [space,alloc_virtual_space,if_pos given,walk_passes given nodes] at found ⊢
  simp only [Option.or_none,true_and] at found ⊢
  split at found
  · exact absurd rfl found
  · next free =>
    rw [if_neg free]
    constructor
    · rw [check_limit] at found ⊢
      split at found
      · next limit => rw [if_pos limit]
      · exact absurd rfl found
    · intro s last
      by_contra late
      exact free ⟨seen m s,by rw [List.getLast?_map]; exact Option.mem_map_of_mem _ last,late⟩

theorem Framed.ascending {sections : List Nat} {segments : List Segment} (framed : Framed m m' (parent :: sections))
    (ascending : Ascending parent m' segments) : Ascending parent m segments := by
  have start := framed parent (by simp) START (by decide) (by decide)
  have size := framed parent (by simp) SIZE (by decide) (by decide)
  refine ⟨?_,ascending.file,ascending.order⟩
  rw [← start,← size]
  exact ascending.within

/-- A sub-section that was made for the segment. -/
structure Holds (m : Mem) (s : Nat) (seg : Segment) : Prop where
  start : m (s + START) = seg.address
  size : m (s + SIZE) = seg.vsize
  file : m (s + SHARE_SIZE) = seg.fsize

theorem Framed.holds {sections : List Nat} {s : Nat} {seg : Segment} (framed : Framed m m' sections) (member : s ∈ sections)
    (holds : Holds m s seg) : Holds m' s seg :=
  ⟨(framed s member START (by decide) (by decide)).trans holds.start,
    (framed s member SIZE (by decide) (by decide)).trans holds.size,
    (framed s member SHARE_SIZE (by decide) (by decide)).trans holds.file⟩

/-- The list has the sub-sections in the order in which they were made. -/
theorem bound_ascending {created : List Nat} {segments : List Segment} (run : Bound fuel parent m created segments)
    (enough : segments.length < fuel) (positive : 0 < m (parent + START)) (ascending : Ascending parent m segments) :
    Kept m parent created ∧ (∀ s ∈ created, ∃ seg ∈ segments, Holds m s seg) ∧ created.length ≤ segments.length ∧
      created.Pairwise (fun s t => m (s + START) + m (s + SIZE) ≤ m (t + START)) := by
  induction run with
  | start ring => exact ⟨⟨ring,by simp,by simp⟩,by simp,by simp,by simp⟩
  | segment seg run fresh ih =>
    rename_i m created segments
    rw [List.length_append,List.length_singleton] at enough
    obtain ⟨subs,kept₀,listed₀,separate,count₀,_⟩ := bound_kept run (by omega)
    have room₀ : subs.length < fuel := by omega
    obtain ⟨framed,_⟩ := bind_segment_cases kept₀ room₀ fresh listed₀ separate
    have ascending := framed.ascending ascending
    rw [framed parent (by simp) START (by decide) (by decide)] at positive
    obtain ⟨kept,holds,count,order⟩ := ih (by omega) positive ⟨fun seg member => ascending.within seg (by simp [member]),
      fun seg member => ascending.file seg (by simp [member]),(List.pairwise_append.mp ascending.order).1⟩
    have room : created.length < fuel := by omega
    have behind : ∀ s ∈ created, m (s + START) + m (s + SIZE) ≤ seg.address ∧ (seen m s).start ≤ seg.address := by
      intro s member
      obtain ⟨seg',earlier,start,size,file⟩ := holds s member
      have small := ascending.file seg' (by simp [earlier])
      have before := (List.pairwise_append.mp ascending.order).2.2 seg' earlier seg (by simp)
      simp only [seen,start,size,file]
      omega
    have holds' : ∀ s ∈ created, ∃ seg' ∈ segments ++ [seg], Holds (bind_segment fuel parent seg m).2 s seg' := by
      intro s member
      obtain ⟨seg',earlier,held⟩ := holds s member
      exact ⟨seg',by simp [earlier],framed.holds (by simp [member]) held⟩
    have word : ∀ s ∈ created, ∀ k < SECTION_SIZE, START ≤ k → (bind_segment fuel parent seg m).2 (s + k) = m (s + k) :=
      fun s member k inside high => framed s (by simp [member]) k inside (.inr high)
    have order' : created.Pairwise (fun s t => (bind_segment fuel parent seg m).2 (s + START) +
        (bind_segment fuel parent seg m).2 (s + SIZE) ≤ (bind_segment fuel parent seg m).2 (t + START)) := by
      refine order.imp_of_mem ?_
      intro s t left right
      rw [word s left START (by decide) (by decide),word s left SIZE (by decide) (by decide),
        word t right START (by decide) (by decide)]
      exact id
    obtain ⟨_,outcome⟩ := bind_segment_cases kept room fresh (fun s member => member) separate
    rcases outcome with ⟨none,kept',_⟩ | ⟨sub,made,result⟩
    · rw [none,Option.toList_none,List.append_nil]
      exact ⟨kept',holds',by simp; omega,order'⟩
    · have given : seg.address ≠ 0 := by
        have := (ascending.within seg (by simp)).1
        omega
      obtain ⟨start,last⟩ := space_behind given (fun s member => (behind s member).2) result.found
      have held : Holds (bind_segment fuel parent seg m).2 sub seg := ⟨result.start.trans start,result.size,result.file⟩
      rw [made,Option.toList_some]
      refine ⟨?_,?_,by simp; omega,?_⟩
      · rcases result.placement with ⟨l,r,split,kept',first⟩ | ⟨_,s,final,late⟩
        · cases r with
          | nil =>
            rw [List.append_nil] at split
            rwa [split]
          | cons s r =>
            have low := (behind s (by simp [split])).2
            have high := (first s rfl).1
            omega
        · rw [start] at late
          exact absurd (last s final) late
      · intro s member
        rcases List.mem_append.mp member with old | new
        · exact holds' s old
        · rw [List.mem_singleton.mp new]
          exact ⟨seg,by simp,held⟩
      · refine List.pairwise_append.mpr ⟨order',by simp,?_⟩
        intro s old t new
        rw [List.mem_singleton.mp new,held.start,word s old START (by decide) (by decide),word s old SIZE (by decide) (by decide)]
        exact (behind s old).1

/-- Sub-sections that are listed in order are found by their addresses. -/
theorem sorted_of_kept {created : List Nat} (kept : Kept m parent created) (room : created.length < fuel)
    (top : m (parent + START) + m (parent + SIZE) < modulus)
    (inside : ∀ s ∈ created, m (parent + START) ≤ m (s + START) ∧
      m (s + START) + m (s + SIZE) ≤ m (parent + START) + m (parent + SIZE))
    (order : created.Pairwise (fun s t => m (s + START) + m (s + SIZE) ≤ m (t + START))) :
    Sorted fuel parent m created := by
  have disjoint : created.Pairwise (fun s t => ∀ a, ¬(Inside m s a ∧ Inside m t a)) := by
    refine order.imp ?_
    rintro s t before a ⟨left,right⟩
    unfold Inside at left right
    omega
  refine ⟨disjoint,inside,?_,?_⟩
  · rw [kept.list_for_each room,List.map_map,List.pairwise_map]
    refine order.imp ?_
    intro s t before
    simp only [Function.comp_apply,list_entry,Nat.add_sub_cancel]
    omega
  · intro a s
    have listed : (created.map (· + SUBSECTION_LINK)).map (list_entry · SUBSECTION_LINK) = created := by
      simp [list_entry,Function.comp_def]
    have test : ∀ t ∈ created, decide (a ≥ m (t + START) ∧ a < add (m (t + START)) (m (t + SIZE))) = true ↔ Inside m t a := by
      intro t member
      have := inside t member
      rw [add_exact (by omega),decide_eq_true_iff]
      rfl
    rw [ks_sub_locate,kept.list_for_each room,listed]
    constructor
    · intro found
      have member := List.mem_of_find?_eq_some found
      have here := List.find?_some found
      exact ⟨member,(test s member).mp here⟩
    · rintro ⟨member,here⟩
      cases found : created.find? (fun sub => decide (a ≥ m (sub + START) ∧ a < add (m (sub + START)) (m (sub + SIZE)))) with
      | none => exact absurd ((test s member).mpr here) (List.find?_eq_none.mp found s member)
      | some t =>
        have member' := List.mem_of_find?_eq_some found
        have here' := List.find?_some found
        have : Std.Symm (fun s t => ∀ a, ¬(Inside m s a ∧ Inside m t a)) := ⟨fun s t apart a both => apart a both.symm⟩
        by_contra differ
        exact disjoint.forall member' member (fun same => differ (congrArg some same)) a ⟨(test t member').mp here',here⟩

/-- The sub-sections of a parent are as they should be, with a list that `ks_sub_close` empties, exactly
    when all segments were rejected. If they come in order, only the closing is wrong. -/
theorem sub_sections_iff {created : List Nat} {segments : List Segment} (run : Bound fuel parent m created segments)
    (enough : segments.length < fuel) (positive : 0 < m (parent + START))
    (top : m (parent + START) + m (parent + SIZE) < modulus) :
    (Sorted fuel parent m created ∧ Closed fuel parent m ↔ ∀ seg ∈ segments, Rejected parent m seg) ∧
      (Ascending parent m segments → Sorted fuel parent m created) := by
  obtain ⟨subs,kept,listed,_,count,empty,none_made⟩ := bound_kept run enough
  have room : subs.length < fuel := by omega
  refine ⟨?_,?_⟩
  · rw [kept.closed_iff room,← empty]
    constructor
    · exact fun both => both.2
    · intro none
      subst none
      rw [none_made rfl]
      exact ⟨sorted_of_kept kept room top (by simp) (by simp),rfl⟩
  · intro ascending
    obtain ⟨kept,holds,count,order⟩ := bound_ascending run enough positive ascending
    refine sorted_of_kept kept (by omega) top ?_ order
    intro s member
    obtain ⟨seg,bound,start,size,_⟩ := holds s member
    rw [start,size]
    exact ascending.within seg bound

end Parts

/-! ### Two images -/

/-- A parent of 64 KiB at 4 MiB, in the section at address 1000. -/
def parent_memory : Mem := fun a =>
  if a = 1008 then 1008 else if a = 1012 then 1008 else if a = 1024 then 0x400000 else if a = 1028 then 0x10000 else 0

theorem parent_memory_ring : Ring parent_memory (1000 + SUBSECTION_HEAD) [] :=
  ⟨List.isChain_pair.mpr ⟨rfl,rfl⟩,by simp⟩

def text_segment : Segment := ⟨some 2000,0x400000,0x3000,0x2800,0,false⟩
def data_segment : Segment := ⟨some 3000,0x404000,0x3000,0x1000,0x3000,true⟩
/-- A segment in the middle of the data. -/
def inner_segment : Segment := ⟨some 4000,0x405000,0x1000,0x1000,0x4000,true⟩

/-- Text and data in order. -/
theorem sub_sections_iff_image : ∃ m, Bound 4 1000 m [2000,3000] [text_segment,data_segment] ∧
    Sorted 4 1000 m [2000,3000] := by
  have text : Bound 4 1000 _ _ [text_segment] := .segment text_segment (.start parent_memory_ring) (by
    unfold Apart
    decide +kernel)
  have run : Bound 4 1000 _ _ [text_segment,data_segment] := .segment data_segment text (by
    unfold Apart
    decide +kernel)
  have created : [] ++ (bind_segment 4 1000 text_segment parent_memory).1.toList ++
      (bind_segment 4 1000 data_segment (bind_segment 4 1000 text_segment parent_memory).2).1.toList = [2000,3000] := by
    decide +kernel
  rw [created] at run
  refine ⟨_,run,(sub_sections_iff run (by decide) (by decide +kernel) (by decide +kernel)).2 ⟨?_,?_,?_⟩⟩
  · decide +kernel
  · decide
  · decide

/-- Data, text and the inner segment are all created: two of them overlap, the list is not sorted, and it still has
    them when they are closed. -/
theorem sub_sections_go_wrong : ∃ m created, Bound 5 1000 m created [data_segment,text_segment,inner_segment] ∧
    (∃ s ∈ created, ∃ t ∈ created, s ≠ t ∧ Inside m s 0x405000 ∧ Inside m t 0x405000) ∧
    (list_for_each 5 (1000 + SUBSECTION_HEAD) m).map (fun t => m (list_entry t SUBSECTION_LINK + START)) =
      [0x404000,0x400000,0x405000] ∧
    list_empty (1000 + SUBSECTION_HEAD) (ks_sub_close 5 1000 m).2 = false ∧ (ks_sub_close 5 1000 m).1 = [3000,2000,4000] := by
  have data : Bound 5 1000 _ _ [data_segment] := .segment data_segment (.start parent_memory_ring) (by
    unfold Apart
    decide +kernel)
  have text : Bound 5 1000 _ _ [data_segment,text_segment] := .segment text_segment data (by
    unfold Apart
    decide +kernel)
  have run : Bound 5 1000 _ _ [data_segment,text_segment,inner_segment] := .segment inner_segment text (by
    unfold Apart
    decide +kernel)
  refine ⟨_,_,run,?_⟩
  unfold Inside
  decide +kernel

end GridOS.SubSection
