import GridOS.ImagePages
import GridOS.FaultRuns
import GridOS.PageShare

/-!
Runs of accesses to images and mapped files. A frame that is not a file's buffer is mapped once, so a page
that a process has written is its own, and every other page follows its file.
-/
namespace GridOS.ImagePages
open GridOS.Words GridOS.Fault GridOS.CopyOnWrite
open GridOS.Walk (PAGE_SIZE PAGE_FLAG_VALID PAGE_FLAG_FROM_OTHER KE_PAGE_INVALID_PTE KE_PAGE_IS_SHARED_FROM KE_PAGE_PHY_FROM_PTE)

variable {layout : Layout} {t₀ : Fault.State}

/-! ### Entries -/

theorem frame_bits {f : Nat} (aligned : f % PAGE_SIZE = 0) (small : f < modulus) : f &&& 0xfffff000 = f := by
  obtain ⟨k,rfl⟩ := Nat.dvd_of_mod_eq_zero aligned
  have bound : k < 2 ^ 20 := by
    rw [PAGE_SIZE,modulus] at small
    omega
  have shifted : PAGE_SIZE * k = k <<< 12 := by
    rw [Nat.shiftLeft_eq,PAGE_SIZE]
    omega
  rw [shifted,show (0xfffff000 : Nat) = (2 ^ 20 - 1) <<< 12 by decide,← Nat.shiftLeft_and_distrib,
    Nat.and_two_pow_sub_one_of_lt_two_pow bound]

/-- The entry of a page that is the process's own. -/
def own_pte (f : Nat) : Nat := f ||| km_arch_get_flags (KM_PROT_READ ||| KM_PROT_WRITE)

theorem own_pte_frame {f : Nat} (aligned : f % PAGE_SIZE = 0) (small : f < modulus) : KE_PAGE_PHY_FROM_PTE (own_pte f) = f := by
  have low : km_arch_get_flags (KM_PROT_READ ||| KM_PROT_WRITE) &&& 0xfffff000 = 0 := by decide
  rw [KE_PAGE_PHY_FROM_PTE,own_pte,Nat.and_or_distrib_right,frame_bits aligned small,low,Nat.or_zero]

theorem own_pte_low {f : Nat} (aligned : f % PAGE_SIZE = 0) (small : f < modulus) {m : Nat} (low : m &&& 0xfffff000 = 0) :
    own_pte f &&& m = 7 &&& m := by
  have apart : f &&& m = 0 := by
    rw [← frame_bits aligned small,Nat.and_assoc,Nat.and_comm _ m,low,Nat.and_zero]
  rw [own_pte,Nat.and_or_distrib_right,apart,Nat.zero_or]
  rfl

theorem shared_pte_low {m : Nat} (src prot : Nat) (low : FRAME_MASK &&& m = 0) :
    shared_pte src prot &&& m = (km_arch_get_flags prot ||| PAGE_FLAG_FROM_OTHER) &&& m := by
  rw [shared_pte,Nat.or_assoc,Nat.and_or_distrib_right,Nat.and_assoc,low,Nat.and_zero,Nat.zero_or]

theorem invalid_iff (pte : Nat) : KE_PAGE_INVALID_PTE pte = true ↔ pte &&& PAGE_FLAG_VALID = 0 := by
  rw [KE_PAGE_INVALID_PTE,Bool.or_eq_true,beq_iff_eq,beq_iff_eq]
  refine ⟨?_,.inr⟩
  rintro (rfl | zero)
  · rfl
  · exact zero

/-- A process that is neither the system nor the file process. -/
def User (p : Nat) : Prop := p ≠ SYSTEM ∧ p ≠ FILE_PROCESS

instance (p : Nat) : Decidable (User p) := inferInstanceAs (Decidable (_ ∧ _))

/-- A frame of the allocator, in the memory that the kernel has mapped. -/
def Frame (f : Nat) : Prop := f ≠ 0 ∧ f % PAGE_SIZE = 0 ∧ f < Vm.Arch.i386.kernel_mem_len

instance (f : Nat) : Decidable (Frame f) := inferInstanceAs (Decidable (_ ∧ _ ∧ _))

theorem Frame.small {f : Nat} (frame : Frame f) : f < modulus := lt_trans frame.2.2 (by decide)

/-- The address is in the file's part of a segment of an image. -/
def FilePart (layout : Layout) (p va : Nat) (seg : Segment) (b : Backing) : Prop :=
  layout p va = some (.exe (some seg) b) ∧ ¬add seg.start seg.size ≤ va

/-- The frames of the buffers of the files. -/
def Backed (layout : Layout) (t₀ : Fault.State) (f : Nat) : Prop :=
  (∃ p va seg b, FilePart layout p va seg b ∧ Buffered t₀ b (source b seg va) ∧ f = buffer t₀ b (source b seg va)) ∨
    ∃ p va b, layout p va = some (.file b) ∧ Buffered t₀ b va ∧ f = buffer t₀ b va

/-- The page of the buffer for an address. -/
def buffer_page (b : Backing) (address : Nat) : Option Nat :=
  if prepare_dbd b address = 0 then none else some (prepare_dbd b address / PAGE_SIZE)

/-- The sections of the processes, and the file process's part with the images, have pages: a page of the
    file process is of one section and has one buffer, a file has whole pages, and no source is at the end
    of the address space. -/
structure Fits (layout : Layout) : Prop where
  one_buffer : ∀ p va seg b p' va' seg' b', FilePart layout p va seg b → FilePart layout p' va' seg' b' →
    source b seg va / PAGE_SIZE = source b' seg' va' / PAGE_SIZE →
    b = b' ∧ buffer_page b (source b seg va) = buffer_page b' (source b' seg' va')
  whole : ∀ p va va' b, va / PAGE_SIZE = va' / PAGE_SIZE → layout p va = some (.file b) → layout p va' = some (.file b)
  room : ∀ p va seg b, FilePart layout p va seg b →
    source b seg va + PAGE_SIZE < modulus ∧ prepare_dbd b (source b seg va) + PAGE_SIZE < modulus
  file_room : ∀ p va b, layout p va = some (.file b) → prepare_dbd b va + PAGE_SIZE < modulus

/-- The page is not one of a file. -/
def NoFile (layout : Layout) (p q : Nat) : Prop := ∀ va b, va / PAGE_SIZE = q → layout p va ≠ some (.file b)

theorem Fits.no_file (fits : Fits layout) {p va : Nat} (other : ∀ b, layout p va ≠ some (.file b)) : NoFile layout p (va / PAGE_SIZE) :=
  fun va' b same found => other b (fits.whole p va' va b same found)

/-- What an entry of a user can be: empty, of a page of its own, or of a buffer, which an image maps to be
    read and a file with the protection of its section. -/
inductive EntryOf (layout : Layout) (t₀ : Fault.State) (p q : Nat) : Nat → Prop
  | empty : EntryOf layout t₀ p q 0
  | own {f : Nat} (frame : Frame f) (other : ¬Backed layout t₀ f) : EntryOf layout t₀ p q (own_pte f)
  | image {src : Nat} (store : Backed layout t₀ (KE_PAGE_PHY_FROM_PTE src)) (image : NoFile layout p q) :
      EntryOf layout t₀ p q (shared_pte src KM_PROT_READ)
  | file {src : Nat} {b : Backing} (found : ∀ va, va / PAGE_SIZE = q → layout p va = some (.file b))
      (store : Readable b.prot → Backed layout t₀ (KE_PAGE_PHY_FROM_PTE src)) : EntryOf layout t₀ p q (shared_pte src b.prot)

/-- The users' part of the tables. -/
def spaces (s : State) : Spaces (Nat × Nat) Nat Content where
  frame k := if User k.1 ∧ KE_PAGE_INVALID_PTE (s.tables.pte k.1 k.2) = false then
    some (KE_PAGE_PHY_FROM_PTE (s.tables.pte k.1 k.2)) else none
  memory := s.memory

/-- A page of the file process is that of the buffer, with the protection of the section there. -/
structure Inv (layout : Layout) (t₀ : Fault.State) (s : State) : Prop where
  system : ∀ q, s.tables.pte SYSTEM q = t₀.pte SYSTEM q
  file : ∀ p va seg b, FilePart layout p va seg b → km_pte_read s.tables FILE_PROCESS (source b seg va) ≠ 0 →
    prepare_dbd b (source b seg va) ≠ 0 ∧
    KE_PAGE_INVALID_PTE (km_pte_read t₀ SYSTEM (prepare_dbd b (source b seg va))) = false ∧
    km_pte_read s.tables FILE_PROCESS (source b seg va) =
      shared_pte (km_pte_read t₀ SYSTEM (prepare_dbd b (source b seg va))) b.prot
  entry : ∀ p q, User p → EntryOf layout t₀ p q (s.tables.pte p q)
  nodup : s.tables.free.Nodup
  frames : ∀ f ∈ s.tables.free, Frame f
  sound : Sound (Backed layout t₀) (· ∈ s.tables.free) (spaces s)

/-- The tables and the frames hold what the processes see. -/
structure Shows (layout : Layout) (t₀ : Fault.State) (s : State) (m : Memory) : Prop where
  inv : Inv layout t₀ s
  views : Views (Backed layout t₀) (spaces s) m.pages
  frames : s.tables.free.length = m.frames

section
variable {s s' : State} {p q va : Nat}

theorem spaces_frame (user : User p) (valid : KE_PAGE_INVALID_PTE (s.tables.pte p q) = false) :
    (spaces s).frame (p,q) = some (KE_PAGE_PHY_FROM_PTE (s.tables.pte p q)) := if_pos ⟨user,valid⟩

theorem spaces_unmapped (invalid : KE_PAGE_INVALID_PTE (s.tables.pte p q) = true) : (spaces s).frame (p,q) = none :=
  if_neg (by simp [invalid])

/-- Tables that differ in an entry of a user. -/
theorem spaces_write {t : Fault.State} {what : Nat} (user : User p)
    (wrote : t.pte = Function.update s.tables.pte p (Function.update (s.tables.pte p) (va / PAGE_SIZE) what)) (m : Nat → Content) :
    spaces ⟨t,m⟩ = ({ spaces s with memory := m } : Spaces (Nat × Nat) Nat Content).map (page_of p va)
      (if KE_PAGE_INVALID_PTE what = false then some (KE_PAGE_PHY_FROM_PTE what) else none) := by
  rw [spaces,Spaces.map,wrote]
  congr 1
  funext k
  by_cases here : k = page_of p va
  · rw [here,Function.update_self]
    simp [page_of,user]
  · rw [Function.update_of_ne here]
    have same : Function.update s.tables.pte p (Function.update (s.tables.pte p) (va / PAGE_SIZE) what) k.1 k.2 =
        s.tables.pte k.1 k.2 := by
      by_cases process : k.1 = p
      · have page : k.2 ≠ va / PAGE_SIZE := fun equal => here (Prod.ext process equal)
        rw [process,Function.update_self,Function.update_of_ne page]
      · rw [Function.update_of_ne process]
    rw [same]
    rfl

/-- Tables that have the users' entries of others. -/
theorem spaces_same {t : Fault.State} (same : ∀ p, User p → t.pte p = s.tables.pte p) (m : Nat → Content) :
    spaces ⟨t,m⟩ = { spaces s with memory := m } := by
  rw [spaces,spaces]
  congr 1
  funext k
  by_cases user : User k.1
  · rw [same k.1 user]
  · exact (if_neg fun both => user both.1).trans (if_neg fun both => user both.1).symm

end

/-! ### Which accesses are let through -/

section
variable {f src prot : Nat} {write : Bool}

theorem own_pte_valid (aligned : f % PAGE_SIZE = 0) (small : f < modulus) : KE_PAGE_INVALID_PTE (own_pte f) = false := by
  rw [← Bool.not_eq_true,invalid_iff,own_pte_low aligned small (by decide)]
  decide

theorem own_pte_permitted (aligned : f % PAGE_SIZE = 0) (small : f < modulus) : permitted (own_pte f) write = true := by
  rw [permitted,own_pte_low aligned small (by decide),own_pte_low aligned small (by decide),own_pte_low aligned small (by decide)]
  cases write <;> rfl

theorem shared_valid : KE_PAGE_INVALID_PTE (shared_pte src prot) = false ↔ Readable prot := by
  have outside : PAGE_FLAG_FROM_OTHER &&& PAGE_FLAG_VALID = 0 := by decide
  rw [← Bool.not_eq_true,invalid_iff,shared_pte_low _ _ (by decide),Nat.and_or_distrib_right,outside,Nat.or_zero]
  rfl

theorem permitted_valid {pte : Nat} (through : permitted pte write = true) : KE_PAGE_INVALID_PTE pte = false := by
  rw [← Bool.not_eq_true,invalid_iff]
  intro zero
  rw [permitted,zero] at through
  cases through

/-- A buffer that is mapped can be read, and written where the protection or the device lets it. -/
theorem shared_permitted (readable : Readable prot) :
    permitted (shared_pte src prot) write = true ↔ (write = true → prot &&& (KM_PROT_WRITE ||| KM_MAP_DEVICE) ≠ 0) := by
  rw [permitted,shared_pte_low _ _ (by decide),shared_pte_low _ _ (by decide),shared_pte_low _ _ (by decide)]
  rw [Readable] at readable
  rw [Nat.and_or_distrib_left,Ne,Nat.or_eq_zero_iff,not_and_or]
  unfold km_arch_get_flags at readable ⊢
  split at readable
  · exact absurd (by decide) readable
  · rename_i some_prot
    rw [if_neg some_prot]
    split at readable
    · rename_i device
      rw [if_pos device]
      cases write <;> simp [device] <;> decide
    · rename_i device
      rw [if_neg device]
      rw [not_ne_iff] at device
      by_cases writes : prot &&& KM_PROT_WRITE ≠ 0
      · rw [if_pos writes]
        cases write <;> simp only [writes,not_false_eq_true,true_or,implies_true,iff_true] <;> split <;> decide
      · rw [if_neg writes] at readable ⊢
        rw [not_ne_iff] at writes
        simp only [writes,device,not_true_eq_false,or_self]
        split at readable
        · rename_i reads
          rw [if_pos reads]
          cases write <;> decide
        · exact absurd (by decide) readable

end

/-! ### Changes of the tables -/

section
variable {s : State} {t : Fault.State} {m : Memory} {p va what : Nat} {write : Bool}

theorem read_update (wrote : t.pte = Function.update s.tables.pte p (Function.update (s.tables.pte p) (va / PAGE_SIZE) what)) :
    km_pte_read t p va = what := by
  rw [km_pte_read,wrote,Function.update_self,Function.update_self]

theorem write_pte (empty : km_pte_read t p va = 0) : (km_pte_write t p va what).pte =
    Function.update t.pte p (Function.update (t.pte p) (va / PAGE_SIZE) what) := by
  rw [pte_write_empty empty]

/-- A user's entry is written. -/
theorem Inv.write_entry (inv : Inv layout t₀ s) (user : User p) {memory : Nat → Content}
    (wrote : t.pte = Function.update s.tables.pte p (Function.update (s.tables.pte p) (va / PAGE_SIZE) what))
    (entry : EntryOf layout t₀ p (va / PAGE_SIZE) what) (nodup : t.free.Nodup) (frames : ∀ f ∈ t.free, Frame f)
    (sound : Sound (Backed layout t₀) (· ∈ t.free) (spaces ⟨t,memory⟩)) : Inv layout t₀ ⟨t,memory⟩ := by
  refine ⟨?_,?_,?_,nodup,frames,sound⟩
  · intro q
    show t.pte SYSTEM q = _
    rw [wrote,Function.update_of_ne (Ne.symm user.1)]
    exact inv.system q
  · have same : km_pte_read t FILE_PROCESS = km_pte_read s.tables FILE_PROCESS := by
      funext address
      rw [km_pte_read,wrote,Function.update_of_ne (Ne.symm user.2)]
      rfl
    show ∀ p va seg b, FilePart layout p va seg b → km_pte_read t FILE_PROCESS _ ≠ 0 → _ ∧ _ ∧ km_pte_read t FILE_PROCESS _ = _
    rw [same]
    exact inv.file
  · intro p' q' user'
    show EntryOf layout t₀ p' q' (t.pte p' q')
    rw [wrote]
    by_cases process : p' = p
    · subst process
      rw [Function.update_self]
      by_cases page : q' = va / PAGE_SIZE
      · rw [page,Function.update_self]
        exact entry
      · rw [Function.update_of_ne page]
        exact inv.entry p' q' user'
    · rw [Function.update_of_ne process]
      exact inv.entry p' q' user'

/-- The entry of a user's address. -/
theorem Inv.entry_at (inv : Inv layout t₀ s) (user : User p) (va : Nat) :
    EntryOf layout t₀ p (va / PAGE_SIZE) (km_pte_read s.tables p va) := inv.entry p (va / PAGE_SIZE) user

/-! ### The pages of a user -/

theorem empty_absent (shows : Shows layout t₀ s m) (invalid : KE_PAGE_INVALID_PTE (km_pte_read s.tables p va) = true) :
    m.pages.page (page_of p va) = none :=
  shows.views.absent_iff.mpr (spaces_unmapped (p := p) (q := va / PAGE_SIZE) invalid)

theorem mapped_frame (user : User p) (valid : KE_PAGE_INVALID_PTE (km_pte_read s.tables p va) = false) :
    (spaces s).frame (page_of p va) = some (frame_at s.tables p va) := spaces_frame user valid

theorem present_valid (shows : Shows layout t₀ s m) (present : m.pages.page (page_of p va) ≠ none) :
    KE_PAGE_INVALID_PTE (km_pte_read s.tables p va) = false :=
  Bool.eq_false_of_not_eq_true fun invalid => present (empty_absent shows invalid)

theorem absent_invalid (shows : Shows layout t₀ s m) (user : User p) (absent : m.pages.page (page_of p va) = none) :
    KE_PAGE_INVALID_PTE (km_pte_read s.tables p va) = true := by
  by_contra valid
  have unmapped := shows.views.absent_iff.mp absent
  rw [mapped_frame user (Bool.eq_false_of_not_eq_true valid)] at unmapped
  cases unmapped

theorem absent_blocked (shows : Shows layout t₀ s m) (user : User p) (absent : m.pages.page (page_of p va) = none) (write : Bool) :
    permitted (km_pte_read s.tables p va) write = false := by
  by_contra through
  have valid := permitted_valid (Bool.eq_true_of_not_eq_false through)
  rw [absent_invalid shows user absent] at valid
  cases valid

/-- The content of a page is that of its frame. -/
theorem shown_content (shows : Shows layout t₀ s m) (user : User p) (valid : KE_PAGE_INVALID_PTE (km_pte_read s.tables p va) = false) :
    content m.pages p va = s.memory (frame_at s.tables p va) := by
  rw [content,shows.views.content (mapped_frame user valid)]
  rfl

/-- The entry of a page that is there. -/
inductive Shown (layout : Layout) (t₀ : Fault.State) (p va : Nat) : Nat → Page → Prop
  | own {f : Nat} (frame : Frame f) (other : ¬Backed layout t₀ f) (c : Content) : Shown layout t₀ p va (own_pte f) (.own c)
  | image {src : Nat} (store : Backed layout t₀ (KE_PAGE_PHY_FROM_PTE src)) (image : NoFile layout p (va / PAGE_SIZE)) :
      Shown layout t₀ p va (shared_pte src KM_PROT_READ) (.backed (KE_PAGE_PHY_FROM_PTE src))
  | file {src : Nat} {b : Backing} (store : Backed layout t₀ (KE_PAGE_PHY_FROM_PTE src)) (found : layout p va = some (.file b))
      (readable : Readable b.prot) : Shown layout t₀ p va (shared_pte src b.prot) (.backed (KE_PAGE_PHY_FROM_PTE src))

theorem page_shown (shows : Shows layout t₀ s m) (user : User p) {page : Page} (present : m.pages.page (page_of p va) = some page) :
    Shown layout t₀ p va (km_pte_read s.tables p va) page := by
  have valid := present_valid (m := m) shows (by rw [present]; exact Option.some_ne_none page)
  have mapped := mapped_frame user valid
  have holds := shows.views.page (page_of p va)
  rw [present] at holds
  rw [frame_at] at mapped
  have entry := shows.inv.entry_at user va
  generalize km_pte_read s.tables p va = pte at entry valid mapped ⊢
  -- the frame of a buffer is seen as a page of the store
  have backed (store : Backed layout t₀ (KE_PAGE_PHY_FROM_PTE pte)) : page = .backed (KE_PAGE_PHY_FROM_PTE pte) := by
    cases holds with
    | backed mapped' _ => rw [Option.some.inj (mapped'.symm.trans mapped)]
    | own mapped' other => exact absurd store (Option.some.inj (mapped'.symm.trans mapped) ▸ other)
  cases entry with
  | empty => cases valid
  | own frame other =>
    rw [own_pte_frame frame.2.1 frame.small] at mapped
    cases holds with
    | backed mapped' store => exact absurd store (Option.some.inj (mapped'.symm.trans mapped) ▸ other)
    | own => exact .own frame other _
  | image store image =>
    rw [PageShare.shared_pte_frame] at backed
    rw [backed store]
    exact .image store image
  | file found store =>
    have readable := shared_valid.mp valid
    rw [PageShare.shared_pte_frame] at backed
    rw [backed (store readable)]
    exact .file (store readable) (found va rfl) readable

/-! ### Pages that are made -/

/-- Tables of which the users' part is the same. -/
theorem Shows.keep_users (shows : Shows layout t₀ s m) (same : ∀ p, User p → t.pte p = s.tables.pte p)
    (system : t.pte SYSTEM = s.tables.pte SYSTEM) (free : t.free = s.tables.free)
    (file : ∀ p va seg b, FilePart layout p va seg b → km_pte_read t FILE_PROCESS (source b seg va) ≠ 0 →
      prepare_dbd b (source b seg va) ≠ 0 ∧
      KE_PAGE_INVALID_PTE (km_pte_read t₀ SYSTEM (prepare_dbd b (source b seg va))) = false ∧
      km_pte_read t FILE_PROCESS (source b seg va) = shared_pte (km_pte_read t₀ SYSTEM (prepare_dbd b (source b seg va))) b.prot) :
    Shows layout t₀ { s with tables := t } m := by
  have view : spaces { s with tables := t } = spaces s := spaces_same same s.memory
  refine ⟨⟨fun q => (congrFun system q).trans (shows.inv.system q),file,?_,free ▸ shows.inv.nodup,free ▸ shows.inv.frames,?_⟩,?_,?_⟩
  · intro p' q' user'
    show EntryOf layout t₀ p' q' (t.pte p' q')
    rw [same p' user']
    exact shows.inv.entry p' q' user'
  · rw [view]
    exact shows.inv.sound.weaken fun f given => free ▸ given
  · rw [view]
    exact shows.views
  · exact (congrArg List.length free).trans shows.frames

/-- A buffer is mapped at a page that has no entry. -/
theorem share_shows (shows : Shows layout t₀ s m) (user : User p) (empty : km_pte_read s.tables p va = 0) {src prot : Nat}
    (entry : EntryOf layout t₀ p (va / PAGE_SIZE) (shared_pte src prot))
    (store : Readable prot → Backed layout t₀ (KE_PAGE_PHY_FROM_PTE src)) :
    Shows layout t₀ { s with tables := km_pte_write s.tables p va (shared_pte src prot) }
      (if Readable prot then { m with pages := m.pages.set (page_of p va) (some (.backed (KE_PAGE_PHY_FROM_PTE src))) } else m) := by
  obtain ⟨inv,views,frames⟩ := shows
  have wrote : (km_pte_write s.tables p va (shared_pte src prot)).pte = _ := write_pte empty
  have view := spaces_write user wrote s.memory
  have free : (km_pte_write s.tables p va (shared_pte src prot)).free = s.tables.free := pte_write_free
  rw [PageShare.shared_pte_frame] at view
  have made (sound : Sound (Backed layout t₀) (· ∈ s.tables.free) (spaces ⟨km_pte_write s.tables p va (shared_pte src prot),s.memory⟩)) :
      Inv layout t₀ ⟨km_pte_write s.tables p va (shared_pte src prot),s.memory⟩ := by
    rw [← free] at sound
    exact inv.write_entry user wrote entry (free ▸ inv.nodup) (free ▸ inv.frames) sound
  by_cases readable : Readable prot
  · rw [if_pos (shared_valid.mpr readable)] at view
    rw [if_pos readable]
    refine ⟨made (view ▸ inv.sound.share (store readable)),?_,(congrArg List.length free).trans frames⟩
    rw [view]
    exact views.share (store readable)
  · rw [if_neg fun valid => readable (shared_valid.mp valid)] at view
    rw [if_neg readable]
    have unmapped : (spaces s).frame (page_of p va) = none :=
      spaces_unmapped (p := p) (q := va / PAGE_SIZE) (by rw [show s.tables.pte p (va / PAGE_SIZE) = 0 from empty]; rfl)
    have same : (spaces s).map (page_of p va) none = spaces s := by
      rw [Spaces.map,← unmapped,Function.update_eq_self]
    rw [show ({ spaces s with memory := s.memory } : Spaces (Nat × Nat) Nat Content) = spaces s from rfl,same] at view
    refine ⟨made (view ▸ inv.sound),?_,(congrArg List.length free).trans frames⟩
    rw [view]
    exact views

/-- A page gets a new frame of its own. -/
theorem own_shows (shows : Shows layout t₀ s m) (user : User p) {page : Nat} {rest : List Nat} (free : s.tables.free = page :: rest)
    (c : Content) (left : t.free = rest)
    (wrote : t.pte = Function.update s.tables.pte p (Function.update (s.tables.pte p) (va / PAGE_SIZE) (own_pte page))) :
    ∃ m', m.give (page_of p va) (.own c) = some m' ∧ Shows layout t₀ ⟨t,Function.update s.memory page c⟩ m' := by
  obtain ⟨inv,views,frames⟩ := shows
  have taken : page ∈ s.tables.free := by rw [free]; exact List.mem_cons_self
  have frame := inv.frames page taken
  have nodup := inv.nodup
  rw [free] at nodup frames
  have view := spaces_write user wrote (Function.update s.memory page c)
  rw [if_pos (own_pte_valid frame.2.1 frame.small),own_pte_frame frame.2.1 frame.small] at view
  have less : ∀ f ∈ t.free, f ∈ s.tables.free ∧ f ≠ page := by
    intro f mem
    rw [left] at mem
    refine ⟨by rw [free]; exact List.mem_cons_of_mem page mem,?_⟩
    rintro rfl
    exact (List.nodup_cons.mp nodup).1 mem
  rw [List.length_cons] at frames
  rw [Memory.give,if_neg (by omega)]
  refine ⟨_,rfl,inv.write_entry user wrote (.own frame fun store => inv.sound.apart page store taken)
    (left ▸ (List.nodup_cons.mp nodup).2) (fun f mem => inv.frames f (less f mem).1) ?_,?_,?_⟩
  · rw [view]
    exact inv.sound.own taken less
  · rw [view]
    exact views.own inv.sound taken
  · show t.free.length = m.frames - 1
    rw [left]
    omega

theorem give_none (shows : Shows layout t₀ s m) (free : s.tables.free = []) (k : Nat × Nat) (c : Content) : m.give k (.own c) = none := by
  have frames := shows.frames
  rw [free,List.length_nil] at frames
  rw [Memory.give,if_pos frames.symm]

/-- The allocator has no frame, or gives the first one of its list. -/
theorem alloc_cases (shows : Shows layout t₀ s m) : s.tables.free = [] ∧ km_page_alloc s.tables = (0,s.tables) ∨
    ∃ page rest, Frame page ∧ s.tables.free = page :: rest ∧ km_page_alloc s.tables = (page,{ s.tables with free := rest }) := by
  have frames := shows.inv.frames
  rw [km_page_alloc]
  cases free : s.tables.free with
  | nil => exact .inl ⟨rfl,rfl⟩
  | cons page rest =>
    rw [free] at frames
    exact .inr ⟨page,rest,frames page List.mem_cons_self,rfl,rfl⟩

/-! ### What a handler can do -/

/-- The outcomes of a fault: it is refused, an entry is made that lets nobody read, or the pages are as they should be. -/
inductive Handled (layout : Layout) (t₀ : Fault.State) (p va : Nat) (m : Memory) : Option Memory → Bool × State → Prop
  | refused {s' : State} (shows : Shows layout t₀ s' m) : Handled layout t₀ p va m none (false,s')
  | useless {s' : State} (shows : Shows layout t₀ s' m) (some_entry : km_pte_read s'.tables p va ≠ 0) :
      Handled layout t₀ p va m none (true,s')
  | moved {s' : State} {m' : Memory} (shows : Shows layout t₀ s' m') : Handled layout t₀ p va m (some m') (true,s')

/-- Behind the file's part of a segment a page of zeros is made, if there is a frame for it. -/
theorem zero_handled (shows : Shows layout t₀ s m) (user : User p) (empty : km_pte_read s.tables p va = 0) {seg : Segment}
    (beyond : add seg.start seg.size ≤ va) (b : Backing) (rounds code : Nat) :
    ∃ r s', refill_exe rounds p va code (some seg) b s = some (r,s') ∧
      Handled layout t₀ p va m (m.give (page_of p va) (.own fun _ => 0)) (r,s') := by
  rw [refill_exe]
  dsimp only
  rw [if_pos beyond]
  obtain ⟨free,alloc⟩ | ⟨page,rest,frame,free,alloc⟩ := alloc_cases shows
  · have created : km_page_create p va (KM_PROT_READ ||| KM_PROT_WRITE) s.tables = (false,s.tables) := by
      rw [km_page_create,if_neg (by simp [empty]),alloc]
      rfl
    rw [created,give_none shows free]
    exact ⟨false,_,rfl,.refused shows⟩
  · have created : km_page_create p va (KM_PROT_READ ||| KM_PROT_WRITE) s.tables =
        (true,km_pte_write { s.tables with free := rest } p va (own_pte page)) := by
      rw [km_page_create,if_neg (by simp [empty]),alloc,if_neg frame.1]
      rfl
    rw [created]
    dsimp only
    rw [if_neg (by decide)]
    have wrote : (km_pte_write { s.tables with free := rest } p va (own_pte page)).pte = _ :=
      write_pte (show km_pte_read { s.tables with free := rest } p va = 0 from empty)
    have entry : km_pte_read (km_pte_write { s.tables with free := rest } p va (own_pte page)) p va = own_pte page := read_update wrote
    obtain ⟨m',given,shows'⟩ := own_shows shows user free (fun _ => 0) pte_write_free wrote
    rw [given,frame_at,entry,own_pte_frame frame.2.1 frame.small]
    exact ⟨true,_,rfl,.moved shows'⟩

/-- Where there is an entry, no page of zeros is made. -/
theorem zero_refused (some_entry : km_pte_read s.tables p va ≠ 0) {seg : Segment} (beyond : add seg.start seg.size ≤ va)
    (b : Backing) (rounds code : Nat) : refill_exe rounds p va code (some seg) b s = some (false,s) := by
  rw [refill_exe]
  dsimp only
  rw [if_pos beyond,km_page_create,if_pos some_entry]
  rfl

/-- The restoration of a page that the file process does not have. -/
theorem restore_absent (fits : Fits layout) (shows : Shows layout t₀ s m) {seg : Segment} {b : Backing} (part : FilePart layout p va seg b)
    (missing : km_pte_read s.tables FILE_PROCESS (source b seg va) = 0) :
    (restore_file FILE_PROCESS b (source b seg va) s.tables = (false,s.tables) ∧ ¬Buffered t₀ b (source b seg va)) ∨
      ∃ t, restore_file FILE_PROCESS b (source b seg va) s.tables = (true,t) ∧ Shows layout t₀ { s with tables := t } m ∧
        (∀ p, User p → t.pte p = s.tables.pte p) ∧ km_pte_read t FILE_PROCESS (source b seg va) ≠ 0 := by
  rw [restore_file]
  by_cases none : prepare_dbd b (source b seg va) = 0
  · rw [if_pos none]
    exact .inl ⟨rfl,fun buffered => buffered.1 none⟩
  rw [if_neg none]
  dsimp only
  rw [share_unmapped missing (fits.room p va seg b part).2]
  have system : km_pte_read s.tables SYSTEM (prepare_dbd b (source b seg va)) = km_pte_read t₀ SYSTEM (prepare_dbd b (source b seg va)) :=
    shows.inv.system _
  rw [system]
  by_cases invalid : KE_PAGE_INVALID_PTE (km_pte_read t₀ SYSTEM (prepare_dbd b (source b seg va))) = true
  · rw [if_pos invalid]
    exact .inl ⟨rfl,fun buffered => absurd (invalid.symm.trans buffered.2.1) (by decide)⟩
  · rw [if_neg invalid]
    generalize wrote : shared_pte (km_pte_read t₀ SYSTEM (prepare_dbd b (source b seg va))) b.prot = what
    have tables : (km_pte_write s.tables FILE_PROCESS (source b seg va) what).pte = _ := write_pte missing
    have users : ∀ p, User p → (km_pte_write s.tables FILE_PROCESS (source b seg va) what).pte p = s.tables.pte p := by
      intro p user
      rw [tables,Function.update_of_ne user.2]
    refine .inr ⟨_,rfl,shows.keep_users users ?_ pte_write_free ?_,users,?_⟩
    · rw [tables,Function.update_of_ne (by decide)]
    · intro p' va' seg' b' part'
      by_cases here : source b' seg' va' / PAGE_SIZE = source b seg va / PAGE_SIZE
      · -- the same page has the same section and the same buffer
        obtain ⟨rfl,same⟩ := fits.one_buffer p va seg b p' va' seg' b' part part' here.symm
        rw [buffer_page,buffer_page,if_neg none] at same
        split at same
        · cases same
        · next some_buffer =>
          have read : km_pte_read t₀ SYSTEM (prepare_dbd b (source b seg' va')) =
              km_pte_read t₀ SYSTEM (prepare_dbd b (source b seg va)) := by
            rw [km_pte_read,km_pte_read,← Option.some.inj same]
          have entry : km_pte_read (km_pte_write s.tables FILE_PROCESS (source b seg va) what) FILE_PROCESS (source b seg' va') = what := by
            rw [km_pte_read,here,tables,Function.update_self,Function.update_self]
          rw [read,entry]
          exact fun _ => ⟨some_buffer,Bool.eq_false_of_not_eq_true invalid,wrote.symm⟩
      · have entry : km_pte_read (km_pte_write s.tables FILE_PROCESS (source b seg va) what) FILE_PROCESS (source b' seg' va') =
            km_pte_read s.tables FILE_PROCESS (source b' seg' va') := by
          rw [km_pte_read,tables,Function.update_self,Function.update_of_ne here]
          rfl
        rw [entry]
        exact shows.inv.file p' va' seg' b' part'
    · rw [read_write missing,← wrote]
      exact shared_pte_ne _ _

/-- A page that the file process has is not restored. -/
theorem restore_present {b : Backing} {address : Nat} (mapped : km_pte_read s.tables p address ≠ 0) :
    restore_file p b address s.tables = (false,s.tables) := by
  rw [restore_file]
  dsimp only
  split
  · rfl
  · rw [share_mapped mapped]
    rfl

/-- An image's page that has no entry is loaded from the file process, which may load it first. -/
theorem exe_share_handled (fits : Fits layout) (shows : Shows layout t₀ s m) (user : User p) (empty : km_pte_read s.tables p va = 0)
    {seg : Segment} {b : Backing} (part : FilePart layout p va seg b) (rounds : Nat) :
    ∃ r t, kp_exe_share (rounds + 2) p seg va b s.tables = some (r,t) ∧
      Handled layout t₀ p va m (if Buffered t₀ b (source b seg va)
        then m.give (page_of p va) (.backed (buffer t₀ b (source b seg va))) else none) (r,{ s with tables := t }) := by
  have room := (fits.room p va seg b part).1
  have image : NoFile layout p (va / PAGE_SIZE) := fits.no_file (by simp [part.1])
  -- a source that is there
  have shares {s₁ : State} (shows₁ : Shows layout t₀ s₁ m) (empty₁ : km_pte_read s₁.tables p va = 0)
      (valid : KE_PAGE_INVALID_PTE (km_pte_read s₁.tables FILE_PROCESS (source b seg va)) = false) :
      Handled layout t₀ p va m (if Buffered t₀ b (source b seg va)
        then m.give (page_of p va) (.backed (buffer t₀ b (source b seg va))) else none)
        (true,{ s₁ with tables := km_pte_write s₁.tables p va (shared_pte (km_pte_read s₁.tables FILE_PROCESS (source b seg va)) KM_PROT_READ) }) := by
    have some_entry : km_pte_read s₁.tables FILE_PROCESS (source b seg va) ≠ 0 := by
      intro zero
      rw [zero] at valid
      cases valid
    obtain ⟨positive,mapped,entry⟩ := shows₁.inv.file p va seg b part some_entry
    rw [entry] at valid ⊢
    have buffered : Buffered t₀ b (source b seg va) := ⟨positive,mapped,shared_valid.mp valid⟩
    have frame : KE_PAGE_PHY_FROM_PTE (shared_pte (km_pte_read t₀ SYSTEM (prepare_dbd b (source b seg va))) b.prot) =
        buffer t₀ b (source b seg va) := PageShare.shared_pte_frame _ _
    have store : Backed layout t₀ (KE_PAGE_PHY_FROM_PTE (shared_pte (km_pte_read t₀ SYSTEM (prepare_dbd b (source b seg va))) b.prot)) := by
      rw [frame]
      exact .inl ⟨p,va,seg,b,part,buffered,rfl⟩
    have shared := share_shows shows₁ user empty₁ (.image store image) fun _ => store
    rw [if_pos (by decide),frame] at shared
    rw [if_pos buffered]
    exact .moved shared
  -- a source that nobody can read
  have useless (some_entry : km_pte_read s.tables FILE_PROCESS (source b seg va) ≠ 0)
      (invalid : KE_PAGE_INVALID_PTE (km_pte_read s.tables FILE_PROCESS (source b seg va)) = true) : ¬Buffered t₀ b (source b seg va) := by
    intro buffered
    rw [(shows.inv.file p va seg b part some_entry).2.2,shared_valid.mpr buffered.2.2] at invalid
    cases invalid
  rw [kp_exe_share,ks_restore_share]
  dsimp only
  rw [share_unmapped empty room]
  by_cases invalid : KE_PAGE_INVALID_PTE (km_pte_read s.tables FILE_PROCESS (source b seg va)) = true
  · rw [if_pos invalid]
    dsimp only
    by_cases missing : km_pte_read s.tables FILE_PROCESS (source b seg va) = 0
    · obtain ⟨failed,none⟩ | ⟨t,restored,shows₁,users,some_entry⟩ := restore_absent fits shows part missing
      · rw [failed,if_neg none]
        exact ⟨false,_,rfl,.refused shows⟩
      · have empty₁ : km_pte_read t p va = 0 := by
          rw [km_pte_read,users p user]
          exact empty
        rw [restored]
        dsimp only
        rw [if_neg (by decide),ks_restore_share]
        dsimp only
        rw [share_unmapped empty₁ room]
        by_cases again : KE_PAGE_INVALID_PTE (km_pte_read t FILE_PROCESS (source b seg va)) = true
        · have none : ¬Buffered t₀ b (source b seg va) := by
            intro buffered
            have entry := (shows₁.inv.file p va seg b part some_entry).2.2
            rw [show km_pte_read t FILE_PROCESS (source b seg va) = _ from entry,shared_valid.mpr buffered.2.2] at again
            cases again
          rw [if_pos again,if_neg none]
          dsimp only
          rw [restore_present (s := ⟨t,s.memory⟩) some_entry]
          exact ⟨false,_,rfl,.refused shows₁⟩
        · rw [if_neg again]
          exact ⟨true,_,rfl,shares shows₁ empty₁ (Bool.eq_false_of_not_eq_true again)⟩
    · rw [restore_present missing,if_neg (useless missing invalid)]
      exact ⟨false,_,rfl,.refused shows⟩
  · rw [if_neg invalid]
    exact ⟨true,_,rfl,shares shows empty (Bool.eq_false_of_not_eq_true invalid)⟩

theorem code_present (pte : Nat) (write : Bool) :
    (error_code pte write ||| PAGE_FAULT_U) &&& PAGE_FAULT_P ≠ 0 ↔ KE_PAGE_INVALID_PTE pte = false := by
  rw [← Bool.not_eq_true,invalid_iff,error_code]
  by_cases present : pte &&& PAGE_FLAG_VALID = 0
  · rw [if_neg (by simp [present])]
    cases write <;> simp [present] <;> decide
  · rw [if_pos present]
    cases write <;> simp [present] <;> decide

theorem code_write (pte : Nat) (write : Bool) : (error_code pte write ||| PAGE_FAULT_U) &&& PAGE_FAULT_W ≠ 0 ↔ write = true := by
  rw [error_code]
  cases write <;> split <;> decide

/-- A file's page that has no entry. -/
theorem file_handled (fits : Fits layout) (shows : Shows layout t₀ s m) (user : User p) (empty : km_pte_read s.tables p va = 0)
    {b : Backing} (found : layout p va = some (.file b)) {code : Nat} (writes : code &&& PAGE_FAULT_W ≠ 0 ↔ write = true) :
    Handled layout t₀ p va m (if (write && read_only layout p va) = true then none
      else if Buffered t₀ b va then m.give (page_of p va) (.backed (buffer t₀ b va)) else none) (refill_file p va code b s) := by
  have only : (write && read_only layout p va) = true ↔ code &&& PAGE_FAULT_W ≠ 0 ∧ b.prot &&& KM_PROT_WRITE = 0 := by
    rw [Bool.and_eq_true,read_only,found,writes,beq_iff_eq]
  rw [refill_file]
  by_cases refused : code &&& PAGE_FAULT_W ≠ 0 ∧ b.prot &&& KM_PROT_WRITE = 0
  · rw [if_pos (only.mpr refused),if_pos refused]
    exact .refused shows
  rw [if_neg (mt only.mp refused),if_neg refused,restore_file]
  dsimp only
  by_cases none : prepare_dbd b va = 0
  · rw [if_pos none,if_neg fun buffered => buffered.1 none]
    exact .refused shows
  rw [if_neg none,share_unmapped empty (fits.file_room p va b found)]
  have system : km_pte_read s.tables SYSTEM (prepare_dbd b va) = km_pte_read t₀ SYSTEM (prepare_dbd b va) := shows.inv.system _
  rw [system]
  by_cases invalid : KE_PAGE_INVALID_PTE (km_pte_read t₀ SYSTEM (prepare_dbd b va)) = true
  · rw [if_pos invalid,if_neg fun buffered => absurd (invalid.symm.trans buffered.2.1) (by decide)]
    exact .refused shows
  · rw [if_neg invalid]
    have valid := Bool.eq_false_of_not_eq_true invalid
    have store (readable : Readable b.prot) : Backed layout t₀ (KE_PAGE_PHY_FROM_PTE (km_pte_read t₀ SYSTEM (prepare_dbd b va))) :=
      .inr ⟨p,va,b,found,⟨none,valid,readable⟩,rfl⟩
    have entry : EntryOf layout t₀ p (va / PAGE_SIZE) (shared_pte (km_pte_read t₀ SYSTEM (prepare_dbd b va)) b.prot) :=
      .file (fun va' same => fits.whole p va va' b same.symm found) store
    have shared := share_shows shows user empty entry store
    by_cases readable : Readable b.prot
    · rw [if_pos readable] at shared
      rw [if_pos ⟨none,valid,readable⟩]
      exact .moved shared
    · rw [if_neg readable] at shared
      rw [if_neg fun buffered => readable buffered.2.2]
      refine .useless shared ?_
      dsimp only
      rw [read_write empty]
      exact shared_pte_ne _ _

/-- A file's page that has an entry is not mapped again. -/
theorem file_refused (some_entry : km_pte_read s.tables p va ≠ 0) (b : Backing) (code : Nat) :
    refill_file p va code b s = (false,s) := by
  rw [refill_file]
  split
  · rfl
  · rw [restore_present some_entry]

/-- A page that a user has is copied, if there is a frame for it. -/
theorem cow_spec (shows : Shows layout t₀ s m) (user : User p) (valid : KE_PAGE_INVALID_PTE (km_pte_read s.tables p va) = false) :
    (km_page_create_cow p va s = (false,s) ∧ m.give (page_of p va) (.own (content m.pages p va)) = none) ∨
      ∃ s' m', km_page_create_cow p va s = (true,s') ∧ m.give (page_of p va) (.own (content m.pages p va)) = some m' ∧
        Shows layout t₀ s' m' := by
  have some_entry : km_pte_read s.tables p va ≠ 0 := by
    intro zero
    rw [zero] at valid
    cases valid
  rw [km_page_create_cow,if_neg some_entry,shown_content shows user valid]
  obtain ⟨free,alloc⟩ | ⟨page,rest,frame,free,alloc⟩ := alloc_cases shows
  · rw [alloc]
    exact .inl ⟨rfl,give_none shows free _ _⟩
  · rw [alloc]
    dsimp only
    rw [if_neg frame.1,if_neg (Nat.not_le_of_lt frame.2.2)]
    obtain ⟨m',given,shows'⟩ := own_shows (t := km_pte_write_force p va (own_pte page) { s.tables with free := rest })
      shows user free (s.memory (frame_at s.tables p va)) rfl rfl
    exact .inr ⟨_,m',rfl,given,shows'⟩

/-! ### Faults -/

theorem load_absent (absent : m.pages.page (page_of p va) = none) : load layout t₀ p va write m =
    if (write && read_only layout p va) = true then none else (fresh layout t₀ p va).bind (m.give (page_of p va)) := by
  rw [load,absent]

theorem load_present (present : m.pages.page (page_of p va) ≠ none) : load layout t₀ p va write m = some m := by
  rw [load]
  split
  · rfl
  · next absent => exact absurd absent present

/-- A fault at an address that has no entry. -/
theorem fault_absent (fits : Fits layout) (shows : Shows layout t₀ s m) (user : User p) (empty : km_pte_read s.tables p va = 0)
    (write : Bool) (rounds : Nat) :
    ∃ r s', do_page_fault layout (rounds + 2) p va (error_code (km_pte_read s.tables p va) write) s = some (r,s') ∧
      Handled layout t₀ p va m (load layout t₀ p va write m) (r,s') := by
  have absent : m.pages.page (page_of p va) = none := empty_absent shows (by rw [empty]; rfl)
  have present := code_present (km_pte_read s.tables p va) write
  have writes := code_write (km_pte_read s.tables p va) write
  rw [load_absent absent,do_page_fault,fresh]
  generalize error_code (km_pte_read s.tables p va) write ||| PAGE_FAULT_U = code at present writes ⊢
  split
  · rw [Option.bind_none,ite_self]
    exact ⟨false,s,rfl,.refused shows⟩
  rw [ks_exception]
  cases found : layout p va with
  | none =>
    rw [Option.bind_none,ite_self]
    exact ⟨false,s,rfl,.refused shows⟩
  | some place =>
  cases place with
  | file b =>
    have handled := file_handled fits shows user empty found writes
    refine ⟨_,_,rfl,?_⟩
    dsimp only
    split_ifs at handled ⊢ <;> exact handled
  | exe d b =>
  have other : read_only layout p va = false := by rw [read_only,found]
  rw [other,Bool.and_false,if_neg (by decide)]
  cases d with
  | none => exact ⟨false,s,rfl,.refused shows⟩
  | some seg =>
  dsimp only
  by_cases beyond : add seg.start seg.size ≤ va
  · rw [if_pos beyond]
    exact zero_handled shows user empty beyond b (rounds + 2) code
  rw [if_neg beyond,refill_exe]
  dsimp only
  have missing : ¬(code &&& PAGE_FAULT_W ≠ 0 ∧ code &&& PAGE_FAULT_P ≠ 0) := by
    intro both
    have valid := present.mp both.2
    rw [empty] at valid
    cases valid
  rw [if_neg beyond,if_neg missing]
  obtain ⟨r,t,shared,handled⟩ := exe_share_handled fits shows user empty ⟨found,beyond⟩ rounds
  rw [shared]
  refine ⟨r,_,rfl,?_⟩
  split_ifs at handled ⊢ <;> exact handled

/-- An entry that lets nobody read is of a file whose section lets nobody read. -/
theorem useless_file (shows : Shows layout t₀ s m) (user : User p) (absent : m.pages.page (page_of p va) = none)
    (some_entry : km_pte_read s.tables p va ≠ 0) : ∃ b, layout p va = some (.file b) ∧ ¬Readable b.prot := by
  have invalid := absent_invalid shows user absent
  have entry := shows.inv.entry_at user va
  generalize km_pte_read s.tables p va = pte at some_entry invalid entry
  cases entry with
  | empty => exact absurd rfl some_entry
  | own frame other =>
    rw [own_pte_valid frame.2.1 frame.small] at invalid
    cases invalid
  | image store image =>
    rw [shared_valid.mpr (by decide)] at invalid
    cases invalid
  | @file src b found store =>
    refine ⟨b,found va rfl,?_⟩
    intro readable
    rw [shared_valid.mpr readable] at invalid
    cases invalid

/-- A fault at an entry that lets nobody read. -/
theorem fault_useless (shows : Shows layout t₀ s m) (user : User p) (absent : m.pages.page (page_of p va) = none)
    (some_entry : km_pte_read s.tables p va ≠ 0) (write : Bool) (rounds code : Nat) :
    do_page_fault layout rounds p va code s = some (false,s) ∧ load layout t₀ p va write m = none := by
  obtain ⟨b,found,unreadable⟩ := useless_file shows user absent some_entry
  have none : fresh layout t₀ p va = none := by
    rw [fresh,found]
    dsimp only
    rw [if_neg (show ¬Buffered t₀ b va from fun buffered => unreadable buffered.2.2),ite_self]
  rw [load_absent absent,none,Option.bind_none,ite_self,do_page_fault,ks_exception,found]
  dsimp only
  rw [file_refused some_entry,ite_self]
  exact ⟨rfl,rfl⟩

/-- A page that is there can be read. -/
theorem readable (shows : Shows layout t₀ s m) (user : User p) (present : m.pages.page (page_of p va) ≠ none) :
    permitted (km_pte_read s.tables p va) false = true := by
  obtain ⟨page,held⟩ := Option.ne_none_iff_exists'.mp present
  have shown := page_shown shows user held
  generalize km_pte_read s.tables p va = pte at shown ⊢
  cases shown with
  | own frame other c => exact own_pte_permitted frame.2.1 frame.small
  | image store image => exact (shared_permitted (by decide)).mpr fun write => absurd write (by decide)
  | file store found readable => exact (shared_permitted readable).mpr fun write => absurd write (by decide)

/-- A page of the user's own can be written. -/
theorem own_writable (shows : Shows layout t₀ s m) (user : User p) {c : Content} (held : m.pages.page (page_of p va) = some (.own c))
    (write : Bool) :
    permitted (km_pte_read s.tables p va) write = true := by
  have shown := page_shown shows user held
  generalize km_pte_read s.tables p va = pte at shown ⊢
  cases shown with
  | own frame other c => exact own_pte_permitted frame.2.1 frame.small

theorem give_own {k : Nat × Nat} {c : Content} {m' : Memory} (given : m.give k (.own c) = some m') : m'.pages.page k = some (.own c) := by
  rw [Memory.give] at given
  split at given
  · cases given
  · cases given
    exact set_self _

theorem content_backed {f : Nat} (held : m.pages.page (page_of p va) = some (.backed f)) : content m.pages p va = m.pages.backing f := by
  rw [content,Pages.content,held]
  rfl

/-- The fault of a write to a page that is there makes the page the user's own, or is refused. -/
theorem fault_present (shows : Shows layout t₀ s m) (user : User p) (present : m.pages.page (page_of p va) ≠ none)
    (blocked : permitted (km_pte_read s.tables p va) true = false) (rounds : Nat) :
    (∃ s', do_page_fault layout rounds p va (error_code (km_pte_read s.tables p va) true) s = some (false,s') ∧
        unshare layout p va m = none ∧ Shows layout t₀ s' m) ∨
      ∃ s' m' c, do_page_fault layout rounds p va (error_code (km_pte_read s.tables p va) true) s = some (true,s') ∧
        unshare layout p va m = some m' ∧ Shows layout t₀ s' m' ∧ m'.pages.page (page_of p va) = some (.own c) := by
  obtain ⟨page,held⟩ := Option.ne_none_iff_exists'.mp present
  have valid := present_valid shows present
  have shown := page_shown shows user held
  have some_entry : km_pte_read s.tables p va ≠ 0 := by
    intro zero
    rw [zero] at valid
    cases valid
  have both : (error_code (km_pte_read s.tables p va) true ||| PAGE_FAULT_U) &&& PAGE_FAULT_W ≠ 0 ∧
      (error_code (km_pte_read s.tables p va) true ||| PAGE_FAULT_U) &&& PAGE_FAULT_P ≠ 0 :=
    ⟨(code_write _ _).mpr rfl,(code_present _ _).mpr valid⟩
  rw [do_page_fault]
  generalize error_code (km_pte_read s.tables p va) true ||| PAGE_FAULT_U = code at both ⊢
  generalize read : km_pte_read s.tables p va = pte at shown blocked
  cases shown with
  | own frame other c =>
    rw [own_pte_permitted frame.2.1 frame.small] at blocked
    cases blocked
  | @file src b store found readable =>
    have unwritable : b.prot &&& (KM_PROT_WRITE ||| KM_MAP_DEVICE) = 0 := by
      by_contra writable
      rw [(shared_permitted readable).mpr fun _ => writable] at blocked
      cases blocked
    refine .inl ⟨s,?_,?_,shows⟩
    · rw [ks_exception,found]
      dsimp only
      rw [file_refused some_entry,ite_self]
    · rw [unshare,held,found]
      exact if_pos unwritable
  | image store image =>
    rw [unshare,held,ks_exception]
    cases found : layout p va with
    | none => exact .inl ⟨s,ite_self _,rfl,shows⟩
    | some place =>
    cases place with
    | file b => exact absurd found (image va b rfl)
    | exe d b =>
    cases d with
    | none => exact .inl ⟨s,ite_self _,rfl,shows⟩
    | some seg =>
    dsimp only
    by_cases high : Vm.Arch.i386.kernel_base ≤ va
    · rw [if_pos high,if_pos (.inl high)]
      exact .inl ⟨s,rfl,rfl,shows⟩
    rw [if_neg high]
    by_cases beyond : add seg.start seg.size ≤ va
    · rw [if_pos (.inr beyond),zero_refused some_entry beyond]
      exact .inl ⟨s,rfl,rfl,shows⟩
    rw [if_neg (by simp only [high,beyond,or_self,not_false_eq_true]),refill_exe]
    dsimp only
    rw [if_neg beyond,if_pos both,← content_backed held]
    obtain ⟨failed,none⟩ | ⟨s',m',copied,given,shows'⟩ := cow_spec shows user valid
    · exact .inl ⟨s,congrArg some failed,none,shows⟩
    · exact .inr ⟨s',m',_,congrArg some copied,given,shows',give_own given⟩

/-- A write to a page that is there is let through when the page can be written as it is. -/
theorem unshare_permitted (shows : Shows layout t₀ s m) (user : User p) (present : m.pages.page (page_of p va) ≠ none)
    (through : permitted (km_pte_read s.tables p va) true = true) : unshare layout p va m = some m := by
  obtain ⟨page,held⟩ := Option.ne_none_iff_exists'.mp present
  have shown := page_shown shows user held
  rw [unshare,held]
  generalize km_pte_read s.tables p va = pte at shown through
  cases shown with
  | own frame other c => rfl
  | image store image => exact absurd ((shared_permitted (by decide)).mp through rfl) (by decide)
  | @file src b store found readable =>
    rw [found]
    exact if_neg ((shared_permitted readable).mp through rfl)

/-! ### Accesses -/

/-- What comes of an access to a page that is there: it is refused, or let through. -/
inductive Reached (layout : Layout) (t₀ : Fault.State) (p va : Nat) (write : Bool) (m : Memory) : Option Memory → Bool × State → Prop
  | refused {s' : State} (shows : Shows layout t₀ s' m) : Reached layout t₀ p va write m none (false,s')
  | through {s' : State} {m' : Memory} (shows : Shows layout t₀ s' m') (through : permitted (km_pte_read s'.tables p va) write = true) :
      Reached layout t₀ p va write m (some m') (true,s')

theorem reach_present (shows : Shows layout t₀ s m) (user : User p) (present : m.pages.page (page_of p va) ≠ none)
    (write : Bool) (rounds tries : Nat) : ∃ out, reach layout rounds p va write (tries + 2) s = some out ∧
      Reached layout t₀ p va write m (if write then unshare layout p va m else some m) out := by
  rw [reach]
  by_cases through : permitted (km_pte_read s.tables p va) write = true
  · rw [if_pos through]
    refine ⟨_,rfl,?_⟩
    cases write with
    | false => exact .through shows through
    | true =>
      rw [if_pos rfl,unshare_permitted shows user present through]
      exact .through shows through
  · rw [if_neg through]
    have blocked := Bool.eq_false_of_not_eq_true through
    cases write with
    | false => exact absurd (readable shows user present) through
    | true =>
      rw [if_pos rfl]
      obtain ⟨s',fault,none,shows'⟩ | ⟨s',m',c,fault,some_page,shows',held⟩ := fault_present shows user present blocked rounds
      · rw [fault,none]
        exact ⟨_,rfl,.refused shows'⟩
      · have passes := own_writable shows' user held true
        rw [fault,some_page]
        dsimp only
        rw [reach,if_pos passes]
        exact ⟨_,rfl,.through shows' passes⟩

/-- What is loaded is there. -/
theorem load_there {m' : Memory} (loaded : load layout t₀ p va write m = some m') : m'.pages.page (page_of p va) ≠ none := by
  rw [load] at loaded
  split at loaded
  · next held =>
    cases loaded
    rw [held]
    exact Option.some_ne_none _
  · split at loaded
    · cases loaded
    · obtain ⟨page,_,given⟩ := Option.bind_eq_some_iff.mp loaded
      cases page with
      | own c =>
        rw [give_own given]
        exact Option.some_ne_none _
      | backed f =>
        cases given
        exact set_self (a := m.pages) _ ▸ Option.some_ne_none _

/-- Three tries are enough for any access: the page is loaded and, for a write, made writable. -/
theorem reach_spec (fits : Fits layout) (shows : Shows layout t₀ s m) (user : User p) (va : Nat) (write : Bool) (rounds tries : Nat) :
    ∃ out, reach layout (rounds + 2) p va write (tries + 3) s = some out ∧
      (load layout t₀ p va write m = none ∧ Reached layout t₀ p va write m none out ∨
        ∃ m', load layout t₀ p va write m = some m' ∧
          Reached layout t₀ p va write m' (if write then unshare layout p va m' else some m') out) := by
  by_cases absent : m.pages.page (page_of p va) = none
  swap
  · obtain ⟨out,reached,settled⟩ := reach_present shows user absent write (rounds + 2) (tries + 1)
    exact ⟨out,reached,.inr ⟨m,load_present absent,settled⟩⟩
  have blocked := absent_blocked shows user absent write
  -- an entry that lets nobody read is never replaced
  have useless {s₁ : State} (shows₁ : Shows layout t₀ s₁ m) (some_entry : km_pte_read s₁.tables p va ≠ 0) (tries : Nat) :
      reach layout (rounds + 2) p va write (tries + 1) s₁ = some (false,s₁) ∧ load layout t₀ p va write m = none := by
    have blocked₁ := absent_blocked shows₁ user absent write
    obtain ⟨refused,none⟩ := fault_useless shows₁ user absent some_entry write (rounds + 2) (error_code (km_pte_read s₁.tables p va) write)
    rw [reach,if_neg (by simp [blocked₁]),refused]
    exact ⟨rfl,none⟩
  by_cases empty : km_pte_read s.tables p va = 0
  · obtain ⟨r,s₁,fault,handled⟩ := fault_absent fits shows user empty write rounds
    rw [reach,if_neg (by simp [blocked]),fault]
    generalize loaded : load layout t₀ p va write m = o at handled
    cases handled with
    | refused shows₁ => exact ⟨_,rfl,.inl ⟨rfl,.refused shows₁⟩⟩
    | useless shows₁ some_entry => exact ⟨_,(useless shows₁ some_entry (tries + 1)).1,.inl ⟨rfl,.refused shows₁⟩⟩
    | @moved _ m' shows₁ =>
      obtain ⟨out,reached,settled⟩ := reach_present shows₁ user (load_there loaded) write (rounds + 2) tries
      exact ⟨out,reached,.inr ⟨m',rfl,settled⟩⟩
  · obtain ⟨reached,none⟩ := useless shows empty (tries + 2)
    exact ⟨_,reached,.inl ⟨none,.refused shows⟩⟩

theorem Inv.fill (inv : Inv layout t₀ s) (f : Nat) (c : Content) : Inv layout t₀ { s with memory := Function.update s.memory f c } :=
  ⟨inv.system,inv.file,inv.entry,inv.nodup,inv.frames,inv.sound.fill⟩

theorem shared_from (src prot : Nat) : KE_PAGE_IS_SHARED_FROM (shared_pte src prot) = true := by
  rw [KE_PAGE_IS_SHARED_FROM,shared_pte_low _ _ (by decide),Nat.and_or_distrib_right]
  have set : PAGE_FLAG_FROM_OTHER &&& PAGE_FLAG_FROM_OTHER = 512 := by decide
  rw [set,bne_iff_ne,Ne,Nat.or_eq_zero_iff]
  exact fun both => absurd both.2 (by decide)

theorem own_not_from {f : Nat} (frame : Frame f) : KE_PAGE_IS_SHARED_FROM (own_pte f) = false := by
  rw [KE_PAGE_IS_SHARED_FROM,own_pte_low frame.2.1 frame.small (by decide)]
  decide

/-- An entry goes, and its frame becomes free if it was the user's own. -/
theorem delete_shows (shows : Shows layout t₀ s m) (user : User p) (va : Nat) :
    Shows layout t₀ (delete_page p va s) (m.delete (page_of p va)) := by
  rw [delete_page,Walk.delete_page]
  by_cases invalid : KE_PAGE_INVALID_PTE (km_pte_read s.tables p va) = true
  · have absent := empty_absent shows invalid
    have same : m.pages.set (page_of p va) none = m.pages := by rw [Pages.set,← absent,Function.update_eq_self]
    rw [if_pos invalid,Memory.delete,absent,same]
    exact shows
  rw [if_neg invalid]
  have valid := Bool.eq_false_of_not_eq_true invalid
  obtain ⟨page,held⟩ : ∃ page, m.pages.page (page_of p va) = some page :=
    Option.ne_none_iff_exists'.mp fun absent => invalid (absent_invalid shows user absent)
  have shown := page_shown shows user held
  obtain ⟨inv,views,frames⟩ := shows
  have mapped := mapped_frame user valid
  rw [frame_at] at mapped
  -- the entry is empty, and `given` are the frames that are given back
  have deleted (given : List Nat) (back : ∀ f ∈ given, (spaces s).frame (page_of p va) = some f ∧ ¬Backed layout t₀ f ∧ Frame f)
      (nodup : given.Nodup) :
      Inv layout t₀ ⟨{ km_pte_write_force p va 0 s.tables with free := given ++ s.tables.free },s.memory⟩ ∧
      Views (Backed layout t₀) (spaces ⟨{ km_pte_write_force p va 0 s.tables with free := given ++ s.tables.free },s.memory⟩)
        (m.pages.set (page_of p va) none) := by
    have wrote : ({ km_pte_write_force p va 0 s.tables with free := given ++ s.tables.free } : Fault.State).pte =
        Function.update s.tables.pte p (Function.update (s.tables.pte p) (va / PAGE_SIZE) 0) := rfl
    have view := spaces_write user wrote s.memory
    rw [if_neg (by decide)] at view
    refine ⟨inv.write_entry user wrote .empty ?_ ?_ ?_,?_⟩
    · refine List.nodup_append.mpr ⟨nodup,inv.nodup,?_⟩
      rintro f mem f' free rfl
      exact inv.sound.used _ f (back f mem).1 free
    · intro f mem
      obtain mem | mem := List.mem_append.mp mem
      · exact (back f mem).2.2
      · exact inv.frames f mem
    · rw [view]
      refine inv.sound.unmap ?_
      intro f mem
      obtain mem | mem := List.mem_append.mp mem
      · exact .inr ⟨(back f mem).1,(back f mem).2.1⟩
      · exact .inl mem
    · rw [view]
      exact views.unmap
  have kept := deleted [] (by simp) List.nodup_nil
  rw [Memory.delete,held]
  generalize km_pte_read s.tables p va = pte at shown mapped
  cases shown with
  | @own f frame other c =>
    rw [own_pte_frame frame.2.1 frame.small] at mapped
    rw [own_not_from frame,own_pte_frame frame.2.1 frame.small]
    obtain ⟨inv',views'⟩ := deleted [f]
      (by
        intro f' mem
        obtain rfl := List.mem_singleton.mp mem
        exact ⟨mapped,other,frame⟩) (List.nodup_singleton f)
    refine ⟨inv',views',?_⟩
    show s.tables.free.length + 1 = m.frames + 1
    rw [frames]
  | image store image =>
    rw [shared_from]
    exact ⟨kept.1,kept.2,frames⟩
  | file store found readable =>
    rw [shared_from]
    exact ⟨kept.1,kept.2,frames⟩

/-- The process that an access is of. -/
def Op.process : Op → Nat
  | .read p _ | .write p _ _ | .delete p _ => p

theorem call_spec (fits : Fits layout) (shows : Shows layout t₀ s m) {op : Op} (user : User op.process) (rounds : Nat) :
    ∃ s', call layout (rounds + 3) s op = some (s',(m.call layout t₀ op).2) ∧ Shows layout t₀ s' (m.call layout t₀ op).1 := by
  cases op with
  | delete p va => exact ⟨_,rfl,delete_shows shows user va⟩
  | read p va =>
    have user : User p := user
    obtain ⟨out,reached,⟨none,settled⟩ | ⟨m',loaded,settled⟩⟩ := reach_spec fits shows user va false (rounds + 1) rounds
    · rw [call,reached,Memory.call,none]
      cases settled with
      | refused shows' => exact ⟨_,rfl,shows'⟩
    · rw [call,reached,Memory.call,loaded]
      cases settled with
      | @through s' _ shows' through =>
        refine ⟨s',?_,shows'⟩
        dsimp only
        rw [shown_content shows' user (permitted_valid through)]
        rfl
  | write p va byte =>
    have user : User p := user
    obtain ⟨out,reached,⟨none,settled⟩ | ⟨m',loaded,settled⟩⟩ := reach_spec fits shows user va true (rounds + 1) rounds
    · rw [call,reached,Memory.call,none]
      cases settled with
      | refused shows' => exact ⟨_,rfl,shows'⟩
    · rw [if_pos rfl] at settled
      rw [call,reached,Memory.call,loaded]
      dsimp only
      generalize unshare layout p va m' = o at settled ⊢
      cases settled with
      | refused shows' => exact ⟨_,rfl,shows'⟩
      | @through s' m'' shows' through =>
        have valid := permitted_valid through
        refine ⟨_,rfl,?_⟩
        dsimp only
        rw [shown_content shows' user valid]
        exact ⟨shows'.inv.fill _ _,shows'.views.write shows'.inv.sound (mapped_frame user valid),shows'.frames⟩

/-- Nothing of a user is mapped, and no buffer's frame is free. -/
structure Start (layout : Layout) (s : State) : Prop where
  unmapped : ∀ p q, p ≠ SYSTEM → s.tables.pte p q = 0
  nodup : s.tables.free.Nodup
  frames : ∀ f ∈ s.tables.free, Frame f
  apart : ∀ f, Backed layout s.tables f → f ∉ s.tables.free

/-- Nobody has a page, the buffers hold what the frames do, and the frames of the allocator are free. -/
def nothing_loaded (s : State) : Memory := ⟨⟨fun _ => none,s.memory⟩,s.tables.free.length⟩

theorem start_shows (start : Start layout s) : Shows layout s.tables s (nothing_loaded s) := by
  have unmapped (k : Nat × Nat) : (spaces s).frame k = none := by
    by_cases user : User k.1
    · exact spaces_unmapped (by rw [start.unmapped k.1 k.2 user.1]; rfl)
    · exact if_neg fun both => user both.1
  refine ⟨⟨fun _ => rfl,?_,?_,start.nodup,start.frames,start.apart,?_,?_⟩,⟨fun k => .absent (unmapped k),fun _ _ => rfl⟩,rfl⟩
  · exact fun _ _ _ _ _ some_entry => absurd (start.unmapped FILE_PROCESS _ (by decide)) some_entry
  · intro p q user
    rw [start.unmapped p q user.1]
    exact .empty
  · intro k f mapped
    rw [unmapped] at mapped
    cases mapped
  · intro k k' f mapped
    rw [unmapped] at mapped
    cases mapped

theorem run_spec (fits : Fits layout) (rounds : Nat) {ops : List Op} (users : ∀ op ∈ ops, User op.process) (shows : Shows layout t₀ s m) :
    ∃ s', run layout (rounds + 3) s ops = some (s',(m.run layout t₀ ops).2) ∧ Shows layout t₀ s' (m.run layout t₀ ops).1 := by
  induction ops generalizing s m with
  | nil => exact ⟨s,rfl,shows⟩
  | cons op ops ih =>
    obtain ⟨s₁,called,shows₁⟩ := call_spec fits shows (users op List.mem_cons_self) rounds
    obtain ⟨s₂,others,shows₂⟩ := ih (fun o mem => users o (List.mem_cons_of_mem op mem)) shows₁
    refine ⟨s₂,?_,shows₂⟩
    rw [run,called]
    dsimp only [Option.bind_eq_bind,Option.bind_some]
    rw [others]
    rfl

/-- Every run of accesses comes to its end, and its results are those of accesses to pages that the
    processes have for themselves, but for a file's pages and those of images that nobody has written yet. -/
theorem private_pages (fits : Fits layout) (start : Start layout s) (rounds : Nat) {ops : List Op} (users : ∀ op ∈ ops, User op.process) :
    ∃ s', run layout (rounds + 3) s ops = some (s',((nothing_loaded s).run layout s.tables ops).2) ∧
      Shows layout s.tables s' ((nothing_loaded s).run layout s.tables ops).1 :=
  run_spec fits rounds users (start_shows start)

end

/-! ### Processes that have images only -/

/-- The same pages of a process, and the same buffers. -/
structure Agree (p : Nat) (a b : Pages) : Prop where
  backing : a.backing = b.backing
  page : ∀ q, a.page (p,q) = b.page (p,q)

section
variable {m n : Memory} {p va : Nat}

theorem Agree.content {a b : Pages} (agree : Agree p a b) (va : Nat) : ImagePages.content a p va = ImagePages.content b p va := by
  rw [ImagePages.content,ImagePages.content,Pages.content,Pages.content,page_of,agree.page,agree.backing]

theorem Agree.set {a b : Pages} (agree : Agree p a b) (va : Nat) (new : Option Page) :
    Agree p (a.set (page_of p va) new) (b.set (page_of p va) new) := by
  refine ⟨agree.backing,?_⟩
  intro q
  by_cases here : (p,q) = page_of p va
  · rw [here,set_self,set_self]
  · rw [set_other here,set_other here]
    exact agree.page q

theorem Agree.write {a b : Pages} (agree : Agree p a b) (va : Nat) (c : Content) :
    Agree p (a.write (page_of p va) c) (b.write (page_of p va) c) := by
  unfold Pages.write
  rw [page_of,agree.page]
  split
  · exact agree
  · exact ⟨congrArg (Function.update · _ c) agree.backing,agree.page⟩
  · exact agree.set va _

/-- Two outcomes that a process cannot tell apart; there is a frame behind them, or the page needs none. -/
inductive Alike (p va : Nat) (m n : Memory) : Option Memory → Option Memory → Prop
  | none : Alike p va m n none none
  | some {m' n' : Memory} (agree : Agree p m'.pages n'.pages)
      (frames : m'.frames = m.frames ∧ n'.frames = n.frames ∨ ∃ c, m'.pages.page (page_of p va) = some (.own c)) :
      Alike p va m n (some m') (some n')

/-- Where both have a frame, a page is given to both. -/
theorem Agree.give (agree : Agree p m.pages n.pages) (enough : m.frames ≠ 0) (enough' : n.frames ≠ 0) (va : Nat) (page : Page) :
    Alike p va m n (m.give (page_of p va) page) (n.give (page_of p va) page) := by
  cases page with
  | backed f => exact .some (agree.set va _) (.inl ⟨rfl,rfl⟩)
  | own c =>
    rw [Memory.give,Memory.give,if_neg enough,if_neg enough']
    exact .some (agree.set va _) (.inr ⟨c,set_self _⟩)

theorem Agree.load (layout : Layout) (t₀ : Fault.State) (agree : Agree p m.pages n.pages) (enough : m.frames ≠ 0) (enough' : n.frames ≠ 0)
    (va : Nat) (write : Bool) :
    Alike p va m n (load layout t₀ p va write m) (load layout t₀ p va write n) := by
  rw [ImagePages.load,ImagePages.load,page_of,← agree.page]
  split
  · exact .some agree (.inl ⟨rfl,rfl⟩)
  · split
    · exact .none
    · cases fresh layout t₀ p va with
      | none => exact .none
      | some page => exact agree.give enough enough' va page

/-- What has a frame, or a page of its own, is made writable alike. -/
theorem Agree.unshare (layout : Layout) {m' n' : Memory} (agree : Agree p m'.pages n'.pages) (enough : m.frames ≠ 0) (enough' : n.frames ≠ 0)
    (frames : m'.frames = m.frames ∧ n'.frames = n.frames ∨ ∃ c, m'.pages.page (page_of p va) = some (.own c)) :
    Alike p va m' n' (unshare layout p va m') (unshare layout p va n') := by
  have page : n'.pages.page (page_of p va) = m'.pages.page (page_of p va) := (agree.page _).symm
  obtain ⟨same,same'⟩ | ⟨c,own⟩ := frames
  · rw [← same] at enough
    rw [← same'] at enough'
    rw [ImagePages.unshare,ImagePages.unshare,page,← agree.backing]
    cases held : m'.pages.page (page_of p va) with
    | none => exact .none
    | some page =>
    cases page with
    | own c => exact .some agree (.inl ⟨rfl,rfl⟩)
    | backed f =>
    cases layout p va with
    | none => exact .none
    | some place =>
    cases place with
    | file b =>
      dsimp only
      split
      · exact .none
      · exact .some agree (.inl ⟨rfl,rfl⟩)
    | exe d b =>
    cases d with
    | none => exact .none
    | some seg =>
      dsimp only
      split
      · exact .none
      · exact agree.give enough enough' va _
  · rw [ImagePages.unshare,ImagePages.unshare,page,own]
    exact .some agree (.inr ⟨c,own⟩)

/-- What a process gets depends on its own pages and on the buffers, as long as there is a frame. -/
theorem call_agree (layout : Layout) (t₀ : Fault.State) {op : Op} (own : op.process = p) (agree : Agree p m.pages n.pages) (enough : m.frames ≠ 0) (enough' : n.frames ≠ 0) :
    (m.call layout t₀ op).2 = (n.call layout t₀ op).2 ∧ Agree p (m.call layout t₀ op).1.pages (n.call layout t₀ op).1.pages := by
  cases op with
  | read p' va =>
    obtain rfl : p' = p := own
    have alike := agree.load layout t₀ enough enough' va false
    rw [Memory.call,Memory.call]
    generalize ImagePages.load layout t₀ p' va false m = o at alike ⊢
    generalize ImagePages.load layout t₀ p' va false n = o' at alike ⊢
    cases alike with
    | none => exact ⟨rfl,agree⟩
    | some agree' frames =>
      dsimp only
      rw [agree'.content]
      exact ⟨rfl,agree'⟩
  | write p' va byte =>
    obtain rfl : p' = p := own
    have alike := agree.load layout t₀ enough enough' va true
    rw [Memory.call,Memory.call]
    generalize ImagePages.load layout t₀ p' va true m = o at alike ⊢
    generalize ImagePages.load layout t₀ p' va true n = o' at alike ⊢
    cases alike with
    | none => exact ⟨rfl,agree⟩
    | @some m₁ n₁ agree₁ frames =>
      have alike := agree₁.unshare layout enough enough' frames
      dsimp only
      generalize ImagePages.unshare layout p' va m₁ = o at alike ⊢
      generalize ImagePages.unshare layout p' va n₁ = o' at alike ⊢
      cases alike with
      | none => exact ⟨rfl,agree₁⟩
      | some agree₂ _ =>
        dsimp only
        rw [agree₂.content]
        exact ⟨rfl,agree₂.write va _⟩
  | delete p' va =>
    obtain rfl : p' = p := own
    refine ⟨rfl,?_⟩
    rw [Memory.call,Memory.call,Memory.delete,Memory.delete,page_of,agree.page]
    split <;> exact agree.set va none

/-! ### The frames that a run takes -/

theorem give_frames {k : Nat × Nat} {page : Page} {m' : Memory} (given : m.give k page = some m') :
    m'.frames = m.frames ∨ m.frames = m'.frames + 1 ∧ ∃ c, m'.pages.page k = some (.own c) := by
  cases page with
  | backed f =>
    cases given
    exact .inl rfl
  | own c =>
    refine .inr ⟨?_,c,give_own given⟩
    rw [Memory.give] at given
    split at given
    · cases given
    · cases given
      dsimp only
      omega

theorem load_frames {write : Bool} {m' : Memory} (loaded : load layout t₀ p va write m = some m') :
    m'.frames = m.frames ∨ m.frames = m'.frames + 1 ∧ ∃ c, m'.pages.page (page_of p va) = some (.own c) := by
  rw [load] at loaded
  split at loaded
  · cases loaded
    exact .inl rfl
  · split at loaded
    · cases loaded
    · obtain ⟨page,_,given⟩ := Option.bind_eq_some_iff.mp loaded
      exact give_frames given

/-- What is made writable has been so, or takes a frame. -/
theorem unshare_cases {m' : Memory} (writable : unshare layout p va m = some m') :
    m' = m ∨ ∃ f, m.pages.page (page_of p va) = some (.backed f) ∧ m.give (page_of p va) (.own (m.pages.backing f)) = some m' := by
  rw [unshare] at writable
  split at writable
  · exact .inl (Option.some.inj writable).symm
  · split at writable
    · cases writable
    · exact .inl (Option.some.inj writable).symm
  · next f seg b held found =>
    split at writable
    · cases writable
    · exact .inr ⟨f,held,writable⟩
  · cases writable

/-- An access takes one frame at most. -/
theorem call_frames (layout : Layout) (t₀ : Fault.State) (m : Memory) (op : Op) : m.frames ≤ (m.call layout t₀ op).1.frames + 1 := by
  cases op with
  | read p va =>
    rw [Memory.call]
    split
    · exact Nat.le_add_right _ _
    · next m' loaded =>
      have frames := load_frames loaded
      show m.frames ≤ m'.frames + 1
      omega
  | write p va byte =>
    rw [Memory.call]
    split
    · exact Nat.le_add_right _ _
    · next m₁ loaded =>
      have frames := load_frames loaded
      split
      · show m.frames ≤ m₁.frames + 1
        omega
      · next m₂ writable =>
        show m.frames ≤ m₂.frames + 1
        obtain rfl | ⟨f,held,given⟩ := unshare_cases writable
        · omega
        · obtain same | ⟨_,c,own⟩ := frames
          · have taken := give_frames given
            omega
          · rw [held] at own
            cases own
  | delete p va =>
    rw [Memory.call,Memory.delete]
    split <;> dsimp only <;> omega

/-! ### What the others do -/

theorem set_agree {a : Pages} {p' : Nat} (other : p' ≠ p) (va : Nat) (new : Option Page) : Agree p (a.set (page_of p' va) new) a :=
  ⟨rfl,fun _ => set_other (fun same => other (congrArg Prod.fst same).symm) new⟩

theorem Agree.trans {a b c : Pages} (first : Agree p a b) (second : Agree p b c) : Agree p a c :=
  ⟨first.backing.trans second.backing,fun q => (first.page q).trans (second.page q)⟩

theorem give_unseen {p' : Nat} (other : p' ≠ p) {page : Page} {m' : Memory} (given : m.give (page_of p' va) page = some m') :
    Agree p m'.pages m.pages := by
  cases page with
  | backed f =>
    cases given
    exact set_agree other va _
  | own c =>
    rw [Memory.give] at given
    split at given
    · cases given
    · cases given
      exact set_agree other va _

theorem load_unseen {p' : Nat} (other : p' ≠ p) {write : Bool} {m' : Memory} (loaded : load layout t₀ p' va write m = some m') :
    Agree p m'.pages m.pages := by
  rw [load] at loaded
  split at loaded
  · cases loaded
    exact ⟨rfl,fun _ => rfl⟩
  · split at loaded
    · cases loaded
    · obtain ⟨page,_,given⟩ := Option.bind_eq_some_iff.mp loaded
      exact give_unseen other given

/-- Where there are images only, what can be written is the process's own. -/
theorem unshare_own (images : ∀ p va b, layout p va ≠ some (.file b)) {m' : Memory} (writable : unshare layout p va m = some m') :
    ∃ c, m'.pages.page (page_of p va) = some (.own c) := by
  rw [unshare] at writable
  split at writable
  · next c held =>
    cases writable
    exact ⟨c,held⟩
  · next b _ found => exact absurd found (images p va b)
  · split at writable
    · cases writable
    · exact ⟨_,give_own writable⟩
  · cases writable

/-- Where there are images only, nothing that another process does is seen. -/
theorem call_unseen {op : Op} (images : ∀ p va b, layout p va ≠ some (.file b)) (other : op.process ≠ p) :
    Agree p (m.call layout t₀ op).1.pages m.pages := by
  cases op with
  | read p' va =>
    rw [Memory.call]
    split
    · exact ⟨rfl,fun _ => rfl⟩
    · next m' loaded => exact load_unseen other loaded
  | write p' va byte =>
    have differ : p' ≠ p := other
    rw [Memory.call]
    split
    · exact ⟨rfl,fun _ => rfl⟩
    · next m₁ loaded =>
      have kept := load_unseen differ loaded
      split
      · exact kept
      · next m₂ writable =>
        obtain ⟨c,own⟩ := unshare_own images writable
        have same : Agree p m₂.pages m₁.pages := by
          obtain rfl | ⟨f,_,given⟩ := unshare_cases writable
          · exact ⟨rfl,fun _ => rfl⟩
          · exact give_unseen differ given
        rw [Pages.write,own]
        exact ((set_agree differ va _).trans same).trans kept
  | delete p' va =>
    rw [Memory.call,Memory.delete]
    split <;> exact set_agree other va none

theorem run_backing (images : ∀ p va b, layout p va ≠ some (.file b)) (ops : List Op) :
    (m.run layout t₀ ops).1.pages.backing = m.pages.backing := by
  induction ops generalizing m with
  | nil => rfl
  | cons op ops ih => exact ih.trans (call_unseen images (Nat.ne_add_one op.process)).backing

/-- The results of the accesses of one process. -/
def results_of (p : Nat) : List Op → List Result → List Result
  | op :: ops,result :: results => if op.process = p then result :: results_of p ops results else results_of p ops results
  | _,_ => []

/-- With a frame for each access, a process gets what it would get alone. -/
theorem run_alone (images : ∀ p va b, layout p va ≠ some (.file b)) {ops : List Op} (agree : Agree p m.pages n.pages)
    (enough : ops.length ≤ m.frames) (enough' : ops.length ≤ n.frames) :
    results_of p ops (m.run layout t₀ ops).2 = (n.run layout t₀ (ops.filter fun op => op.process = p)).2 := by
  induction ops generalizing m n with
  | nil => rfl
  | cons op ops ih =>
    rw [List.length_cons] at enough enough'
    have frames := call_frames layout t₀ m op
    rw [Memory.run,results_of]
    by_cases own : op.process = p
    · have frames' := call_frames layout t₀ n op
      obtain ⟨same,agree'⟩ := call_agree layout t₀ own agree (by omega) (by omega)
      rw [if_pos own,List.filter_cons_of_pos (by simpa using own),Memory.run,same,ih agree' (by omega) (by omega)]
    · rw [if_neg own,List.filter_cons_of_neg (by simpa using own)]
      exact ih ((call_unseen images own).trans agree) (by omega) (by omega)

/-- Processes that share images never change the buffers of the files and, with a frame for each access, get
    what each of them would get alone. -/
theorem images_isolated {s : State} (fits : Fits layout) (images : ∀ p va b, layout p va ≠ some (.file b)) (start : Start layout s)
    (rounds : Nat) {ops : List Op} (users : ∀ op ∈ ops, User op.process) :
    ∃ s' results, run layout (rounds + 3) s ops = some (s',results) ∧ (∀ f, Backed layout s.tables f → s'.memory f = s.memory f) ∧
      (ops.length ≤ s.tables.free.length → ∀ p, ∃ s₁,
        run layout (rounds + 3) s (ops.filter fun op => op.process = p) = some (s₁,results_of p ops results)) := by
  obtain ⟨s',done,shows⟩ := private_pages fits start rounds users
  refine ⟨s',_,done,?_,?_⟩
  · intro f store
    exact (shows.views.backing f store).symm.trans (congrFun (run_backing images ops) f)
  · intro enough p
    have own_users : ∀ op ∈ ops.filter fun op => op.process = p, User op.process :=
      fun op mem => users op (List.mem_of_mem_filter mem)
    obtain ⟨s₁,alone,_⟩ := private_pages fits start rounds own_users
    refine ⟨s₁,?_⟩
    rw [run_alone images ⟨rfl,fun _ => rfl⟩ enough enough]
    exact alone

def first_backend : Backing := ⟨0x10000,KM_PROT_READ,some fun _ => 0x40000⟩

/-- In the file process it is right behind a page of the first one. -/
def second_backend : Backing := ⟨0x11000,KM_PROT_READ,some fun _ => 0x41000⟩

/-- Two processes with two images, of which the first has a page of the file and one behind it. -/
def two_images : Layout := fun p va =>
  if p ≠ 2 ∧ p ≠ 3 then none
  else if 4096 ≤ va ∧ va < 12288 then some (.exe (some ⟨4096,4096,0⟩) first_backend)
  else if 16384 ≤ va ∧ va < 20480 then some (.exe (some ⟨16384,4096,0⟩) second_backend)
  else none

/-- The buffers are mapped in the system, and some frames are free. -/
def two_buffers (free : List Nat) : State where
  tables :=
    { pte := fun p q => if p ≠ SYSTEM then 0 else if q = 64 then 0x5001 else if q = 65 then 0x8001 else 0
      free := free
      pc := fun _ => .fault }
  memory := fun f _ => if f = 0x5000 then 7 else if f = 0x8000 then 6 else 255

theorem two_images_part {p va : Nat} {seg : Segment} {b : Backing} (part : FilePart two_images p va seg b) :
    (4096 ≤ va ∧ va < 8192 ∧ seg = ⟨4096,4096,0⟩ ∧ b = first_backend) ∨
      16384 ≤ va ∧ va < 20480 ∧ seg = ⟨16384,4096,0⟩ ∧ b = second_backend := by
  obtain ⟨found,inside⟩ := part
  rw [two_images] at found
  split at found
  · cases found
  · split at found
    · next range =>
      cases found
      rw [add,modulus] at inside
      dsimp only at inside
      exact .inl ⟨range.1,by omega,rfl,rfl⟩
    · split at found
      · next range =>
        cases found
        exact .inr ⟨range.1,range.2,rfl,rfl⟩
      · cases found

theorem two_images_file (p va : Nat) (b : Backing) : two_images p va ≠ some (.file b) := by
  rw [two_images]
  split_ifs <;> simp

theorem first_dbd (address : Nat) : prepare_dbd first_backend address = 0x40000 := rfl

theorem second_dbd (address : Nat) : prepare_dbd second_backend address = 0x41000 := rfl

theorem two_images_source {va start : Nat} {b : Backing} (low : start ≤ va) (high : va < start + 4096) (small : start ≤ 16384)
    (file : b.start ≤ 0x11000) : source b ⟨start,4096,0⟩ va = b.start + (va - start) := by
  rw [source,sub,add,add,modulus]
  dsimp only
  omega

theorem two_images_fits : Fits two_images where
  one_buffer := by
    intro p va seg b p' va' seg' b' part part' same
    obtain ⟨low,high,rfl,rfl⟩ | ⟨low,high,rfl,rfl⟩ := two_images_part part <;>
      obtain ⟨low',high',rfl,rfl⟩ | ⟨low',high',rfl,rfl⟩ := two_images_part part'
    · exact ⟨rfl,by rw [buffer_page,buffer_page,first_dbd,first_dbd]⟩
    · rw [two_images_source low high (by decide) (by decide),two_images_source low' high' (by decide) (by decide),
        first_backend,second_backend,PAGE_SIZE] at same
      dsimp only at same
      omega
    · rw [two_images_source low high (by decide) (by decide),two_images_source low' high' (by decide) (by decide),
        first_backend,second_backend,PAGE_SIZE] at same
      dsimp only at same
      omega
    · exact ⟨rfl,by rw [buffer_page,buffer_page,second_dbd,second_dbd]⟩
  whole := fun p va _ b _ found => absurd found (two_images_file p va b)
  room := by
    intro p va seg b part
    obtain ⟨low,high,rfl,rfl⟩ | ⟨low,high,rfl,rfl⟩ := two_images_part part
    · rw [two_images_source low high (by decide) (by decide),first_dbd,first_backend,PAGE_SIZE,modulus]
      dsimp only
      omega
    · rw [two_images_source low high (by decide) (by decide),second_dbd,second_backend,PAGE_SIZE,modulus]
      dsimp only
      omega
  file_room := fun p va b found => absurd found (two_images_file p va b)

theorem two_buffers_frames (free : List Nat) : frame_at (two_buffers free).tables SYSTEM 0x40000 = 0x5000 ∧
    frame_at (two_buffers free).tables SYSTEM 0x41000 = 0x8000 := by
  simp [frame_at,km_pte_read,two_buffers,PAGE_SIZE,KE_PAGE_PHY_FROM_PTE]

theorem two_buffers_start {free : List Nat} (nodup : free.Nodup) (frames : ∀ f ∈ free, Frame f) (first : 0x5000 ∉ free)
    (second : 0x8000 ∉ free) : Start two_images (two_buffers free) where
  unmapped := fun p q other => if_pos other
  nodup := nodup
  frames := frames
  apart := by
    rintro f (⟨p,va,seg,b,part,_,rfl⟩ | ⟨p,va,b,found,_⟩)
    · obtain ⟨_,_,rfl,rfl⟩ | ⟨_,_,rfl,rfl⟩ := two_images_part part
      · rw [buffer,first_dbd,(two_buffers_frames free).1]
        exact first
      · rw [buffer,second_dbd,(two_buffers_frames free).2]
        exact second
    · exact absurd found (two_images_file p va b)

/-- With one frame the second process that writes is killed, until the first gives its page back. -/
theorem private_pages_scarce :
    (run two_images 3 (two_buffers [0x6000]) [.write 2 5000 9,.read 2 5000,.write 3 5000 8,.read 3 5000,.delete 2 5000,.read 3 8192]).map
        (·.2) = some [.written,.byte 9,.killed,.byte 7,.deleted,.byte 0] ∧
    ∃ s', run two_images 3 (two_buffers [0x6000]) [.write 2 5000 9,.read 2 5000,.write 3 5000 8,.read 3 5000,.delete 2 5000,.read 3 8192] =
        some (s',((nothing_loaded (two_buffers [0x6000])).run two_images (two_buffers [0x6000]).tables
          [.write 2 5000 9,.read 2 5000,.write 3 5000 8,.read 3 5000,.delete 2 5000,.read 3 8192]).2) ∧
      Shows two_images (two_buffers [0x6000]).tables s'
        ((nothing_loaded (two_buffers [0x6000])).run two_images (two_buffers [0x6000]).tables
          [.write 2 5000 9,.read 2 5000,.write 3 5000 8,.read 3 5000,.delete 2 5000,.read 3 8192]).1 :=
  ⟨rfl,private_pages two_images_fits (two_buffers_start (by decide) (by decide) (by decide) (by decide)) 0
    (by simp [Op.process,User,SYSTEM,FILE_PROCESS])⟩

/-- Two processes write both images, and each reads what it has written or what the files have. -/
theorem images_isolated_two :
    (run two_images 3 (two_buffers [0x6000,0x7000,0x9000,0xa000,0xb000]) [.write 2 5000 9,.read 3 5000,.write 3 16384 8,.read 2 16384,.read 3 16384]).map
        (·.2) = some [.written,.byte 7,.written,.byte 6,.byte 8] ∧
    ∃ s' results, run two_images 3 (two_buffers [0x6000,0x7000,0x9000,0xa000,0xb000])
        [.write 2 5000 9,.read 3 5000,.write 3 16384 8,.read 2 16384,.read 3 16384] = some (s',results) ∧
      (∀ f, Backed two_images (two_buffers [0x6000,0x7000,0x9000,0xa000,0xb000]).tables f →
        s'.memory f = (two_buffers [0x6000,0x7000,0x9000,0xa000,0xb000]).memory f) ∧
      ∀ p, ∃ s₁, run two_images 3 (two_buffers [0x6000,0x7000,0x9000,0xa000,0xb000])
        ([.write 2 5000 9,.read 3 5000,.write 3 16384 8,.read 2 16384,.read 3 16384].filter fun op => op.process = p) =
          some (s₁,results_of p [.write 2 5000 9,.read 3 5000,.write 3 16384 8,.read 2 16384,.read 3 16384] results) := by
  have start : Start two_images (two_buffers [0x6000,0x7000,0x9000,0xa000,0xb000]) :=
    two_buffers_start (by decide) (by decide) (by decide) (by decide)
  have users : ∀ op ∈ ([.write 2 5000 9,.read 3 5000,.write 3 16384 8,.read 2 16384,.read 3 16384] : List Op), User op.process := by
    simp [Op.process,User,SYSTEM,FILE_PROCESS]
  obtain ⟨s',results,done,buffers,alone⟩ := images_isolated two_images_fits two_images_file start 0 users
  exact ⟨rfl,s',results,done,buffers,alone (by decide)⟩

end

end GridOS.ImagePages
