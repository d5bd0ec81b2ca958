import GridOS.Linker

/-!
What `load_dependencies` leaves: each file has one image, and the dependency list of each image is the needed names that
can be loaded, in order, each the image of the file that the name denotes. A request is careful when the last part of a
name tells the files apart and the pools have room.
-/
namespace GridOS.LinkerRuns
open GridOS.Linker

section Names
variable {φ : Type} (kernel : Kernel φ)

/-- The name that an alias file has in it. -/
def alias_target (name : Name) : Option Name :=
  match kernel.open_exe name false with
  | some _ => none
  | none =>
    match kernel.map_exe_file name with
    | none => none
    | some file => if kernel.elf_analyze file then none else alias_name file

/-- What a name that is no alias opens. -/
def direct (name : Name) : Option (Exe φ) :=
  match kernel.open_exe name false with
  | some exe => some exe
  | none =>
    match kernel.map_exe_file name with
    | none => none
    | some file => if kernel.elf_analyze file ∧ kernel.inject_exe name then kernel.open_exe name true else none

/-- What a name denotes, if its aliases end within the rounds. -/
def denotes : (rounds : Nat) → Name → Option (Option (Exe φ))
  | 0, _ => none
  | rounds+1, name =>
    match alias_target kernel name with
    | some name => denotes rounds name
    | none => some (direct kernel name)

/-- The names that an alias leads to. -/
inductive Chain : Name → Name → Prop
  | here (name : Name) : Chain name name
  | step {name target last : Name} (leads : alias_target kernel name = some target) (chain : Chain target last) :
      Chain name last

variable (rounds : Nat)

/-- The file that a name denotes, when it can be loaded. -/
def loadable (name : Name) : Option φ := (denotes kernel rounds name).join.map Exe.file

/-- The last part of an image's name is the one of this name. -/
def Named (s : State φ) (image : Nat) (name : Name) : Prop :=
  cl_locate_pure_file_name (s.static_image_pool image).name = cl_locate_pure_file_name name

/-- The last parts of names tell the files apart as far as the request comes to them, and the pools have room. -/
structure Careful (s : State φ) (name : Name) : Prop where
  ends : s.static_image_usage < DL_MAX_STATIC_IMAGE → (denotes kernel rounds name).isSome
  same : ∀ other, Chain kernel name other → ∀ image ∈ s.image_list_head, Named s image other →
    (s.static_image_pool image).handle = loadable kernel rounds name
  known : ∀ image ∈ s.image_list_head, (s.static_image_pool image).handle = loadable kernel rounds name →
    ∃ other, Chain kernel name other ∧ Named s image other
  room : loadable kernel rounds name ≠ none → s.static_dependency_usage < DL_MAX_STATIC_IMAGE ∧
    (s.static_image_usage < DL_MAX_STATIC_IMAGE ∨ ∃ image ∈ s.image_list_head, Named s image name)

/-- Where the loops of `load_dependencies` come to: a node of the list, in an image the names still to go. -/
inductive Walk (first : State φ) : State φ → (node : Nat) → Option (Nat × List Name) → Prop
  | first : Walk first first 0 none
  | skip {s : State φ} {node obj : Nat} (walk : Walk first s node none) (listed : s.image_list_head[node]? = some obj)
      (loaded : (s.static_image_pool obj).dependency_loaded = true) : Walk first s (node+1) none
  | image {s : State φ} {node obj : Nat} (walk : Walk first s node none) (listed : s.image_list_head[node]? = some obj)
      (loaded : (s.static_image_pool obj).dependency_loaded = false) :
      Walk first s node (some (obj,(s.static_image_pool obj).needed))
  | name {s s' : State φ} {node obj : Nat} {name : Name} {rest : List Name} {ret : Int}
      (walk : Walk first s node (some (obj,name :: rest)))
      (loads : load_dependency kernel rounds s obj name = some (ret,s')) : Walk first s' node (some (obj,rest))
  | last {s : State φ} {node obj : Nat} (walk : Walk first s node (some (obj,[]))) :
      Walk first (set_image s obj { s.static_image_pool obj with dependency_loaded := true }) (node+1) none

/-- Each file has one image, and each image depends on the images of the files that its names denote. -/
structure Closed (s : State φ) : Prop where
  once : (s.image_list_head.map (fun image => (s.static_image_pool image).handle)).Nodup
  opened : ∀ image ∈ s.image_list_head, (s.static_image_pool image).handle ≠ none
  linked : ∀ image ∈ s.image_list_head, (s.static_image_pool image).dependency_loaded = true ∧
    (∀ obj ∈ (s.static_image_pool image).dep_list, obj ∈ s.image_list_head) ∧
    (s.static_image_pool image).dep_list.map (fun obj => (s.static_image_pool obj).handle) =
      ((s.static_image_pool image).needed.filterMap (loadable kernel rounds)).map some

end Names

/-! ### What a name denotes -/

section Load
variable {φ : Type} {kernel : Kernel φ} {s s' : State φ} {name target : Name} {rounds : Nat}

/-- A name is injected after it could not be opened. -/
def Injected (kernel : Kernel φ) (s : State φ) : Prop :=
  ∀ name ∈ s.injected, kernel.open_exe name false = none ∧ kernel.inject_exe name = true ∧
    ∃ file, kernel.map_exe_file name = some file ∧ kernel.elf_analyze file = true

/-- The images are the same apart from the references to them. -/
structure Like (s s' : State φ) : Prop where
  head : s'.image_list_head = s.image_list_head
  images : s'.static_image_usage = s.static_image_usage
  nodes : s'.static_dependency_usage = s.static_dependency_usage
  pool : ∀ image, ∃ ref, s'.static_image_pool image = { s.static_image_pool image with ref }

theorem Like.refl : Like s s where
  head := rfl
  images := rfl
  nodes := rfl
  pool := fun _ => ⟨_,rfl⟩

theorem get_obj_some (injected : Injected kernel s) {image : Nat}
    (found : get_obj_from_linear_list s name = some (image,s')) :
    image ∈ s.image_list_head ∧ Named s image name ∧ Like s s' ∧ Injected kernel s' := by
  rw [get_obj_from_linear_list] at found
  obtain ⟨obj,located,pair⟩ := Option.map_eq_some_iff.mp found
  obtain ⟨same,state⟩ := Prod.mk.inj pair
  subst same state
  have here := List.find?_some located
  rw [Bool.and_eq_true,decide_eq_true_iff] at here
  refine ⟨List.mem_of_find?_eq_some located,here.1,⟨rfl,rfl,rfl,fun image => ?_⟩,injected⟩
  by_cases same : image = obj
  · subst same
    exact ⟨_,Function.update_self ..⟩
  · exact ⟨_,Function.update_of_ne same ..⟩

theorem get_obj_none (absent : get_obj_from_linear_list s name = none) :
    ∀ image ∈ s.image_list_head, ¬ Named s image name := by
  intro image listed named
  refine List.find?_eq_none.mp (Option.map_eq_none_iff.mp absent) image listed ?_
  rw [Bool.and_eq_true,decide_eq_true_iff]
  exact ⟨named,rfl⟩

/-- What `load` answers, in terms of what the name denotes. -/
def Answers (kernel : Kernel φ) (rounds : Nat) (s : State φ) (name : Name) : Option (Loaded φ × State φ) → Prop
  | none => denotes kernel rounds name = none
  | some (.invalid,s') => denotes kernel rounds name = some none ∧ Like s s' ∧ Injected kernel s'
  | some (.aliased image,s') => (∃ other, Chain kernel name other ∧ image ∈ s.image_list_head ∧ Named s image other) ∧
      Like s s' ∧ Injected kernel s'
  | some (.handle exe,s') => denotes kernel rounds name = some (some exe) ∧
      (∀ other, Chain kernel name other → other = name ∨ ∀ image ∈ s.image_list_head, ¬ Named s image other) ∧
      Like s s' ∧ Injected kernel s'

theorem chain_of_none (none : alias_target kernel name = none) {other : Name} (chain : Chain kernel name other) :
    other = name := by
  cases chain with
  | here => rfl
  | step leads => rw [none] at leads; cases leads

theorem chain_of_some (some : alias_target kernel name = some target) {other : Name} (chain : Chain kernel name other) :
    other = name ∨ Chain kernel target other := by
  cases chain with
  | here => exact .inl rfl
  | step leads chain =>
    rw [some] at leads
    cases leads
    exact .inr chain

theorem open_some (injected : Injected kernel s) {exe : Exe φ}
    (opened : kernel.open_exe name (decide (name ∈ s.injected)) = some exe) :
    alias_target kernel name = none ∧ direct kernel name = some exe := by
  rw [alias_target,direct]
  by_cases before : name ∈ s.injected
  · rw [decide_eq_true before] at opened
    obtain ⟨closed,injects,file,mapped,analyzed⟩ := injected name before
    rw [closed,mapped]
    dsimp only
    rw [if_pos analyzed,if_pos ⟨analyzed,injects⟩]
    exact ⟨rfl,opened⟩
  · rw [decide_eq_false before] at opened
    rw [opened]
    exact ⟨rfl,rfl⟩

theorem open_none (injected : Injected kernel s)
    (closed : kernel.open_exe name (decide (name ∈ s.injected)) = none) : kernel.open_exe name false = none := by
  by_cases before : name ∈ s.injected
  · exact (injected name before).1
  · rw [decide_eq_false before] at closed
    exact closed

theorem denotes_direct (no_alias : alias_target kernel name = none) :
    denotes kernel (rounds+1) name = some (direct kernel name) := by
  rw [denotes,no_alias]

theorem answers_invalid (injected : Injected kernel s) (no_alias : alias_target kernel name = none)
    (nothing : direct kernel name = none) : Answers kernel (rounds+1) s name (some (.invalid,s)) := by
  rw [Answers,denotes_direct no_alias,nothing]
  exact ⟨rfl,.refl,injected⟩

theorem answers_handle {exe : Exe φ} (like : Like s s') (injected : Injected kernel s')
    (no_alias : alias_target kernel name = none) (opened : direct kernel name = some exe) :
    Answers kernel (rounds+1) s name (some (.handle exe,s')) := by
  rw [Answers,denotes_direct no_alias,opened]
  exact ⟨rfl,fun other chain => .inl (chain_of_none no_alias chain),like,injected⟩

/-- The rounds go along the aliases. -/
theorem answers_alias (leads : alias_target kernel name = some target)
    (absent : ∀ image ∈ s.image_list_head, ¬ Named s image target) {answer : Option (Loaded φ × State φ)}
    (answers : Answers kernel rounds s target answer) : Answers kernel (rounds+1) s name answer := by
  have same : denotes kernel (rounds+1) name = denotes kernel rounds target := by rw [denotes,leads]
  obtain _ | ⟨exe | image | _,s'⟩ := answer
  · exact same.trans answers
  · obtain ⟨opens,others,rest⟩ := answers
    refine ⟨same.trans opens,fun other chain => ?_,rest⟩
    obtain here | behind := chain_of_some leads chain
    · exact .inl here
    · obtain target_itself | unlisted := others other behind
      · exact .inr (target_itself ▸ absent)
      · exact .inr unlisted
  · obtain ⟨⟨other,chain,named⟩,rest⟩ := answers
    exact ⟨⟨other,.step leads chain,named⟩,rest⟩
  · exact ⟨same.trans answers.1,answers.2⟩

theorem load_answers (rounds : Nat) : ∀ {s : State φ} (name : Name), Injected kernel s →
    Answers kernel rounds s name (load kernel rounds s name) := by
  induction rounds with
  | zero => exact fun _ _ => rfl
  | succ rounds ih =>
    intro s name injected
    rw [load]
    cases opened : kernel.open_exe name (decide (name ∈ s.injected)) with
    | some exe =>
      obtain ⟨no_alias,opens⟩ := open_some injected opened
      exact answers_handle .refl injected no_alias opens
    | none =>
      have closed := open_none injected opened
      cases mapped : kernel.map_exe_file name with
      | none => exact answers_invalid injected (by rw [alias_target,closed,mapped]) (by rw [direct,closed,mapped])
      | some file =>
        have target : alias_target kernel name = if kernel.elf_analyze file then none else alias_name file := by
          rw [alias_target,closed,mapped]
        have opens : direct kernel name =
            if kernel.elf_analyze file ∧ kernel.inject_exe name then kernel.open_exe name true else none := by
          rw [direct,closed,mapped]
        dsimp only
        by_cases analyzed : kernel.elf_analyze file = true
        · rw [if_pos analyzed] at target ⊢
          by_cases injects : kernel.inject_exe name = true
          · rw [if_pos ⟨analyzed,injects⟩] at opens
            rw [if_pos injects]
            have injected : Injected kernel { s with injected := name :: s.injected } := by
              refine List.forall_mem_cons.mpr ⟨?_,injected⟩
              exact ⟨closed,injects,file,mapped,analyzed⟩
            cases again : kernel.open_exe name true with
            | some exe => exact answers_handle ⟨rfl,rfl,rfl,fun _ => ⟨_,rfl⟩⟩ injected target (opens.trans again)
            | none =>
              refine ⟨?_,⟨rfl,rfl,rfl,fun _ => ⟨_,rfl⟩⟩,injected⟩
              rw [denotes_direct target,opens,again]
          · rw [if_neg fun both => injects both.2] at opens
            rw [if_neg injects]
            exact answers_invalid injected target opens
        · rw [if_neg analyzed] at target ⊢
          rw [if_neg fun both => analyzed both.1] at opens
          cases named : alias_name file with
          | none => exact answers_invalid injected (target.trans named) opens
          | some other =>
            have leads := target.trans named
            dsimp only
            cases found : get_obj_from_linear_list s other with
            | some pair =>
              obtain ⟨image,s'⟩ := pair
              obtain ⟨listed,same_name,like,injected⟩ := get_obj_some injected found
              exact ⟨⟨other,.step leads (.here other),listed,same_name⟩,like,injected⟩
            | none => exact answers_alias leads (get_obj_none found) (ih other injected)

end Load

/-! ### What a request keeps -/

section Keep
variable {φ : Type} {kernel : Kernel φ} {s s' : State φ} {name : Name} {rounds node p obj : Nat} {done : List Name}

/-- The names of an image that were gone through, when the loop is at a node and has done some of its names. -/
def handled (node : Nat) (done needed : List Name) (j : Nat) : List Name :=
  if j < node then needed else if j = node then done else []

/-- The images before the node are done with, those behind it were not looked at. -/
structure Inv (kernel : Kernel φ) (rounds : Nat) (s : State φ) (node : Nat) (done : List Name) : Prop where
  injected : Injected kernel s
  usage : s.static_image_usage ≤ DL_MAX_STATIC_IMAGE
  count : s.image_list_head.length ≤ s.static_image_usage
  slots : ∀ image ∈ s.image_list_head, image < s.static_image_usage
  fresh : ∀ image, s.static_image_usage ≤ image → (s.static_image_pool image).dependency_loaded = false
  once : (s.image_list_head.map (fun image => (s.static_image_pool image).handle)).Nodup
  opened : ∀ image ∈ s.image_list_head, (s.static_image_pool image).handle ≠ none
  loaded : ∀ j image, s.image_list_head[j]? = some image →
    (s.static_image_pool image).dependency_loaded = decide (j < node)
  among : ∀ image ∈ s.image_list_head, ∀ obj ∈ (s.static_image_pool image).dep_list, obj ∈ s.image_list_head
  linked : ∀ j image, s.image_list_head[j]? = some image →
    (s.static_image_pool image).dep_list.map (fun obj => (s.static_image_pool obj).handle) =
      ((handled node done (s.static_image_pool image).needed j).filterMap (loadable kernel rounds)).map some

/-- Images are added behind the others, and what an image needs stays. -/
structure Extends (s s' : State φ) : Prop where
  head : s.image_list_head <+: s'.image_list_head
  needed : ∀ image ∈ s.image_list_head, (s'.static_image_pool image).needed = (s.static_image_pool image).needed

theorem Extends.trans {t : State φ} (left : Extends s t) (right : Extends t s') : Extends s s' where
  head := left.head.trans right.head
  needed := fun image listed => (right.needed image (left.head.subset listed)).trans (left.needed image listed)

theorem Extends.at_node (extended : Extends s s') (listed : s.image_list_head[node]? = some p) :
    s'.image_list_head[node]? = some p := by
  obtain ⟨more,head⟩ := extended.head
  obtain ⟨inside,_⟩ := List.getElem?_eq_some_iff.mp listed
  rw [← head,List.getElem?_append_left inside,listed]

/-- Only what the invariant does not speak of changes. -/
theorem Inv.frame (inv : Inv kernel rounds s node done) (injected : Injected kernel s')
    (head : s'.image_list_head = s.image_list_head) (more : s.static_image_usage ≤ s'.static_image_usage)
    (usage : s'.static_image_usage ≤ DL_MAX_STATIC_IMAGE)
    (pool : ∀ image, (s'.static_image_pool image).handle = (s.static_image_pool image).handle ∧
      (s'.static_image_pool image).needed = (s.static_image_pool image).needed ∧
      (s'.static_image_pool image).dep_list = (s.static_image_pool image).dep_list ∧
      (s'.static_image_pool image).dependency_loaded = (s.static_image_pool image).dependency_loaded) :
    Inv kernel rounds s' node done := by
  have handle : (fun image => (s'.static_image_pool image).handle) = fun image => (s.static_image_pool image).handle :=
    funext fun image => (pool image).1
  refine ⟨injected,usage,?_,?_,?_,?_,?_,?_,?_,?_⟩
  · rw [head]
    exact inv.count.trans more
  · rw [head]
    exact fun image listed => (inv.slots image listed).trans_le more
  · exact fun image unused => (pool image).2.2.2.trans (inv.fresh image (more.trans unused))
  · rw [head,handle]
    exact inv.once
  · rw [head]
    exact fun image listed => (pool image).1 ▸ inv.opened image listed
  · rw [head]
    exact fun j image listed => (pool image).2.2.2.trans (inv.loaded j image listed)
  · rw [head]
    exact fun image listed => (pool image).2.2.1 ▸ inv.among image listed
  · rw [head,handle]
    exact fun j image listed => (pool image).2.1 ▸ (pool image).2.2.1 ▸ inv.linked j image listed

theorem Like.fields (like : Like s s') (image : Nat) :
    (s'.static_image_pool image).handle = (s.static_image_pool image).handle ∧
      (s'.static_image_pool image).needed = (s.static_image_pool image).needed ∧
      (s'.static_image_pool image).dep_list = (s.static_image_pool image).dep_list ∧
      (s'.static_image_pool image).dependency_loaded = (s.static_image_pool image).dependency_loaded := by
  obtain ⟨ref,same⟩ := like.pool image
  rw [same]
  exact ⟨rfl,rfl,rfl,rfl⟩

theorem Inv.like (inv : Inv kernel rounds s node done) (like : Like s s') (injected : Injected kernel s') :
    Inv kernel rounds s' node done :=
  inv.frame injected like.head like.images.ge (like.images ▸ inv.usage) like.fields

theorem Like.extends (like : Like s s') : Extends s s' where
  head := like.head ▸ List.prefix_rfl
  needed := fun image _ => (like.fields image).2.1

theorem Inv.listed_once (inv : Inv kernel rounds s node done) : s.image_list_head.Nodup := inv.once.of_map

theorem Inv.same_place (inv : Inv kernel rounds s node done) {i j image : Nat}
    (left : s.image_list_head[i]? = some image) (right : s.image_list_head[j]? = some image) : i = j := by
  obtain ⟨inside,_⟩ := List.getElem?_eq_some_iff.mp left
  exact (List.getElem?_inj inside inv.listed_once).mp (left.trans right.symm)

/-- The place of a new image. -/
theorem Inv.append (inv : Inv kernel rounds s node done)
    (ahead : node < s.image_list_head.length ∨ node = s.image_list_head.length ∧ done = []) {image : Nat}
    (absent : image ∉ s.image_list_head) (count : s.image_list_head.length + 1 ≤ s.static_image_usage)
    (used : image < s.static_image_usage) {value : Image φ} (loaded : value.dependency_loaded = false)
    (deps : value.dep_list = []) (opened : value.handle ≠ none)
    (new : ∀ other ∈ s.image_list_head, (s.static_image_pool other).handle ≠ value.handle) :
    Inv kernel rounds { set_image s image value with image_list_head := s.image_list_head ++ [image] } node done := by
  have at_image : (set_image s image value).static_image_pool image = value := Function.update_self ..
  have others (other : Nat) (listed : other ∈ s.image_list_head) :
      (set_image s image value).static_image_pool other = s.static_image_pool other :=
    Function.update_of_ne (fun same : other = image => absent (same ▸ listed)) ..
  have handles : s.image_list_head.map (fun other => ((set_image s image value).static_image_pool other).handle) =
      s.image_list_head.map (fun other => (s.static_image_pool other).handle) :=
    List.map_congr_left fun other listed => by rw [others other listed]
  -- a place of the longer list is an old one or the last
  have places {j other : Nat} (listed : (s.image_list_head ++ [image])[j]? = some other) :
      s.image_list_head[j]? = some other ∨ j = s.image_list_head.length ∧ other = image := by
    by_cases old : j < s.image_list_head.length
    · exact .inl ((List.getElem?_append_left old).symm.trans listed)
    · obtain ⟨within,last⟩ := List.getElem?_eq_some_iff.mp listed
      have at_end : j = s.image_list_head.length := by
        rw [List.length_append,List.length_singleton] at within
        omega
      subst at_end
      rw [List.getElem_concat_length] at last
      · exact .inr ⟨rfl,last.symm⟩
      · rfl
  refine ⟨inv.injected,inv.usage,?_,?_,?_,?_,?_,?_,?_,?_⟩
  · rw [List.length_append]
    exact count
  · exact List.forall_mem_append.mpr ⟨inv.slots,List.forall_mem_singleton.mpr used⟩
  · intro other unused
    by_cases same : other = image
    · exact absurd (same ▸ unused) (not_le.mpr used)
    · exact (congrArg Image.dependency_loaded (Function.update_of_ne same ..)).trans (inv.fresh other unused)
  · rw [List.map_append,handles,List.map_singleton,at_image,List.nodup_append_comm,List.singleton_append,
      List.nodup_cons]
    refine ⟨fun among => ?_,inv.once⟩
    obtain ⟨other,listed,same⟩ := List.mem_map.mp among
    exact new other listed same
  · refine List.forall_mem_append.mpr ⟨fun other listed => ?_,List.forall_mem_singleton.mpr ?_⟩
    · rw [others other listed]
      exact inv.opened other listed
    · rw [at_image]
      exact opened
  · intro j other listed
    obtain old | ⟨last,same⟩ := places listed
    · rw [others other (List.mem_of_getElem? old)]
      exact inv.loaded j other old
    · rw [same,at_image,loaded,last,decide_eq_false (by omega)]
  · refine List.forall_mem_append.mpr ⟨fun other listed => ?_,List.forall_mem_singleton.mpr ?_⟩
    · rw [others other listed]
      exact fun obj among => List.mem_append_left _ (inv.among other listed obj among)
    · rw [at_image,deps]
      exact fun obj among => absurd among List.not_mem_nil
  · intro j other listed
    obtain old | ⟨last,same⟩ := places listed
    · have other_listed := List.mem_of_getElem? old
      rw [others other other_listed,← inv.linked j other old]
      exact List.map_congr_left fun obj among => by rw [others obj (inv.among other other_listed obj among)]
    · have nothing : handled node done value.needed j = [] := by
        rw [handled,if_neg (by omega)]
        obtain behind | ⟨_,none_done⟩ := ahead
        · exact if_neg (by omega)
        · rw [none_done,ite_self]
      rw [same,at_image,deps,nothing]
      rfl

/-- A name that cannot be loaded leaves no entry. -/
theorem Inv.missing (inv : Inv kernel rounds s node done) (missing : loadable kernel rounds name = none) :
    Inv kernel rounds s node (done ++ [name]) := by
  refine ⟨inv.injected,inv.usage,inv.count,inv.slots,inv.fresh,inv.once,inv.opened,inv.loaded,inv.among,?_⟩
  intro j image listed
  rw [inv.linked j image listed,handled,handled]
  split
  · rfl
  · split
    · rw [List.filterMap_append,List.filterMap_cons_none missing,List.filterMap_nil,List.append_nil]
    · rfl

/-- A name that can be loaded leaves one entry behind the others. -/
theorem Inv.add (inv : Inv kernel rounds s node done) (at_node : s.image_list_head[node]? = some p)
    (listed : obj ∈ s.image_list_head) (denoted : (s.static_image_pool obj).handle = loadable kernel rounds name)
    (room : s.static_dependency_usage < DL_MAX_STATIC_IMAGE) :
    ∃ s', add_obj_to_dependency_list s obj p = some s' ∧ Inv kernel rounds s' node (done ++ [name]) ∧ Extends s s' := by
  rw [add_obj_to_dependency_list,if_pos room]
  have fields (image : Nat) :
      (Function.update s.static_image_pool p { s.static_image_pool p with
        dep_list := (s.static_image_pool p).dep_list ++ [obj] } image) =
        { s.static_image_pool image with
          dep_list := (s.static_image_pool image).dep_list ++ if image = p then [obj] else [] } := by
    by_cases same : image = p
    · rw [same,Function.update_self,if_pos rfl]
    · rw [Function.update_of_ne same,if_neg same,List.append_nil]
  refine ⟨_,rfl,?_,List.prefix_rfl,fun image _ => ?_⟩
  · refine ⟨inv.injected,inv.usage,inv.count,inv.slots,?_,?_,?_,?_,?_,?_⟩
    all_goals simp only [set_image,fields]
    · exact inv.fresh
    · exact inv.once
    · exact inv.opened
    · exact inv.loaded
    · intro image image_listed
      refine List.forall_mem_append.mpr ⟨inv.among image image_listed,?_⟩
      split
      · exact List.forall_mem_singleton.mpr listed
      · exact fun _ among => absurd among List.not_mem_nil
    · intro j image at_j
      rw [List.map_append,inv.linked j image at_j,handled,handled]
      by_cases same : image = p
      · have here := inv.same_place (same ▸ at_j) at_node
        rw [if_pos same,here,if_neg (lt_irrefl _),if_pos rfl,if_neg (lt_irrefl _),if_pos rfl,List.filterMap_append,
          List.map_append,List.map_singleton,denoted]
        obtain ⟨file,denoted⟩ := Option.ne_none_iff_exists'.mp (denoted ▸ inv.opened obj listed)
        rw [List.filterMap_cons_some denoted,denoted]
        rfl
      · have other : j ≠ node := fun here => same (Option.some_inj.mp (at_j.symm.trans (here ▸ at_node)))
        rw [if_neg same,if_neg other,if_neg other]
        exact List.append_nil _
  · simp only [set_image,fields]

theorem Inv.allocate (inv : Inv kernel rounds s node done) (room : s.static_image_usage < DL_MAX_STATIC_IMAGE) :
    Inv kernel rounds { s with static_image_usage := s.static_image_usage + 1 } node done :=
  inv.frame inv.injected rfl (Nat.le_succ _) room fun _ => ⟨rfl,rfl,rfl,rfl⟩

/-- What `load_image` leaves of a careful request for a name that no image has. -/
def Loads (kernel : Kernel φ) (rounds : Nat) (s s' : State φ) (name : Name) : Option Nat → Prop
  | none => loadable kernel rounds name = none
  | some obj => obj ∈ s'.image_list_head ∧ (s'.static_image_pool obj).handle = loadable kernel rounds name ∧
      s'.static_dependency_usage = s.static_dependency_usage

theorem loadable_of (denoted : denotes kernel rounds name = some none) : loadable kernel rounds name = none := by
  rw [loadable,denoted]
  rfl

/-- The image that is opened gets the next place. -/
theorem opened_image {t : State φ} {exe : Exe φ} (inv : Inv kernel rounds s node done)
    (ahead : node < s.image_list_head.length ∨ node = s.image_list_head.length ∧ done = [])
    (room : s.static_image_usage < DL_MAX_STATIC_IMAGE) (careful : Careful kernel rounds s name)
    (absent : ∀ image ∈ s.image_list_head, ¬ Named s image name)
    (answers : Answers kernel rounds { s with static_image_usage := s.static_image_usage + 1 } name
      (some (.handle exe,t))) {s' : State φ}
    (s'_eq : s' = { set_image t s.static_image_usage { t.static_image_pool s.static_image_usage with
        name, handle := some exe.file, needed := exe.needed, ref := 1, dep_list := [], is_open := true } with
      image_list_head := t.image_list_head ++ [s.static_image_usage] }) :
    Inv kernel rounds s' node done ∧ Extends s s' ∧ Loads kernel rounds s s' name (some s.static_image_usage) := by
  subst s'_eq
  have allocated := inv.allocate room
  obtain ⟨denoted,others,like,injected⟩ := answers
  have unused : (t.static_image_pool s.static_image_usage).dependency_loaded = false :=
    (like.fields _).2.2.2.trans (inv.fresh _ le_rfl)
  have new_place : s.static_image_usage ∉ s.image_list_head := fun listed =>
    absurd (inv.slots _ listed) (lt_irrefl _)
  have loads_file : loadable kernel rounds name = some exe.file := by
    rw [loadable,denoted]
    rfl
  have new_file : ∀ other ∈ s.image_list_head, (s.static_image_pool other).handle ≠ some exe.file := by
    intro other listed same
    obtain ⟨chained,chain,named⟩ := careful.known other listed (same.trans loads_file.symm)
    obtain itself | unlisted := others chained chain
    · exact absent other listed (itself ▸ named)
    · exact unlisted other listed named
  refine ⟨?_,?_,?_⟩
  · refine (allocated.like like injected).append (like.head ▸ ahead) (like.head ▸ new_place) ?_ ?_ unused rfl
      (Option.some_ne_none _) ?_
    · rw [like.head,like.images]
      exact Nat.succ_le_succ inv.count
    · rw [like.images]
      exact Nat.lt_succ_self _
    · rw [like.head]
      intro other listed
      rw [(like.fields other).1]
      exact new_file other listed
  · refine ⟨?_,fun other listed => ?_⟩
    · show s.image_list_head <+: t.image_list_head ++ [s.static_image_usage]
      rw [like.head]
      exact List.prefix_append _ _
    · have different : other ≠ s.static_image_usage := fun same => new_place (same ▸ listed)
      exact (congrArg Image.needed (Function.update_of_ne different ..)).trans (like.fields other).2.1
  · refine ⟨List.mem_append_right _ List.mem_cons_self,?_,like.nodes⟩
    rw [loads_file]
    simp only [set_image,Function.update_self]

theorem load_image_inv (inv : Inv kernel rounds s node done)
    (ahead : node < s.image_list_head.length ∨ node = s.image_list_head.length ∧ done = [])
    (careful : Careful kernel rounds s name) (absent : ∀ image ∈ s.image_list_head, ¬ Named s image name) :
    ∃ result s', load_image kernel rounds s name = some (result,s') ∧ Inv kernel rounds s' node done ∧ Extends s s' ∧
      Loads kernel rounds s s' name result := by
  rw [load_image,allocate_static_exe]
  by_cases room : s.static_image_usage < DL_MAX_STATIC_IMAGE
  · rw [if_pos room]
    dsimp only
    have answers := @load_answers φ kernel rounds { s with static_image_usage := s.static_image_usage + 1 } name
      inv.injected
    have allocated := inv.allocate room
    cases loads : load kernel rounds { s with static_image_usage := s.static_image_usage + 1 } name with
    | none =>
      rw [loads] at answers
      have ends := careful.ends room
      rw [show denotes kernel rounds name = none from answers] at ends
      cases ends
    | some pair =>
      obtain ⟨exe | image | _,t⟩ := pair
      · rw [loads] at answers
        exact ⟨_,_,rfl,opened_image inv ahead room careful absent answers rfl⟩
      · rw [loads] at answers
        obtain ⟨⟨other,chain,listed,named⟩,like,injected⟩ := answers
        refine ⟨_,_,rfl,allocated.like like injected,⟨like.extends.head,like.extends.needed⟩,like.head ▸ listed,?_,
          like.nodes⟩
        rw [(like.fields image).1]
        exact careful.same other chain image listed named
      · rw [loads] at answers
        obtain ⟨denoted,like,injected⟩ := answers
        exact ⟨_,_,rfl,allocated.like like injected,⟨like.extends.head,like.extends.needed⟩,loadable_of denoted⟩
  · rw [if_neg room]
    refine ⟨none,s,rfl,inv,⟨List.prefix_rfl,fun _ _ => rfl⟩,?_⟩
    by_contra can
    obtain full | ⟨image,listed,named⟩ := (careful.room can).2
    · exact room full
    · exact absent image listed named

/-- A careful request leaves the entry of its name. -/
theorem load_dependency_inv (inv : Inv kernel rounds s node done) (at_node : s.image_list_head[node]? = some p)
    (careful : Careful kernel rounds s name) :
    ∃ ret s', load_dependency kernel rounds s p name = some (ret,s') ∧ Inv kernel rounds s' node (done ++ [name]) ∧
      Extends s s' := by
  rw [load_dependency]
  cases found : get_obj_from_linear_list s name with
  | some pair =>
    obtain ⟨obj,t⟩ := pair
    obtain ⟨listed,named,like,injected⟩ := get_obj_some inv.injected found
    have denoted := careful.same name (.here name) obj listed named
    have room := (careful.room (denoted ▸ inv.opened obj listed)).1
    obtain ⟨s',added,kept,extended⟩ := (inv.like like injected).add (like.extends.at_node at_node) (like.head ▸ listed)
      ((like.fields obj).1.trans denoted) (like.nodes ▸ room)
    dsimp only
    rw [added]
    exact ⟨1,s',rfl,kept,like.extends.trans extended⟩
  | none =>
    obtain ⟨inside,_⟩ := List.getElem?_eq_some_iff.mp at_node
    obtain ⟨result,t,loads,kept,extended,leaves⟩ := load_image_inv inv (.inl inside) careful (get_obj_none found)
    dsimp only
    rw [loads]
    cases result with
    | none => exact ⟨-1,t,rfl,kept.missing leaves,extended⟩
    | some obj =>
      obtain ⟨listed,denoted,nodes⟩ := leaves
      have room := (careful.room (denoted ▸ kept.opened obj listed)).1
      obtain ⟨s',added,kept,more⟩ := kept.add (extended.at_node at_node) listed denoted (nodes ▸ room)
      dsimp only
      rw [added]
      exact ⟨1,s',rfl,kept,extended.trans more⟩

end Keep

/-! ### The loops -/

section Loops
variable {φ : Type} {kernel : Kernel φ} {first s : State φ} {rounds node p : Nat} {done : List Name}

/-- The image at the node is done with. -/
theorem Inv.finish (inv : Inv kernel rounds s node done) (at_node : s.image_list_head[node]? = some p)
    (all : (s.static_image_pool p).needed = done) :
    Inv kernel rounds (set_image s p { s.static_image_pool p with dependency_loaded := true }) (node+1) [] := by
  have fields (image : Nat) :
      (Function.update s.static_image_pool p { s.static_image_pool p with dependency_loaded := true } image) =
        { s.static_image_pool image with
          dependency_loaded := if image = p then true else (s.static_image_pool image).dependency_loaded } := by
    by_cases same : image = p
    · rw [same,Function.update_self,if_pos rfl]
    · rw [Function.update_of_ne same,if_neg same]
  refine ⟨inv.injected,inv.usage,inv.count,inv.slots,?_,?_,?_,?_,?_,?_⟩
  all_goals simp only [set_image,fields]
  · intro image unused
    have other : image ≠ p := fun same =>
      absurd (same ▸ unused) (not_le.mpr (inv.slots p (List.mem_of_getElem? at_node)))
    rw [if_neg other]
    exact inv.fresh image unused
  · exact inv.once
  · exact inv.opened
  · intro j image at_j
    by_cases same : image = p
    · have here := inv.same_place (same ▸ at_j) at_node
      rw [if_pos same,here,decide_eq_true (Nat.lt_succ_self node)]
    · have other : j ≠ node := fun here => same (Option.some_inj.mp (at_j.symm.trans (here ▸ at_node)))
      rw [if_neg same,inv.loaded j image at_j,decide_eq_decide]
      omega
  · exact inv.among
  · intro j image at_j
    rw [inv.linked j image at_j,handled,handled]
    obtain before | here | behind := Nat.lt_trichotomy j node
    · rw [if_pos before,if_pos (before.trans (Nat.lt_succ_self node))]
    · have same : image = p := Option.some_inj.mp (at_j.symm.trans (here ▸ at_node))
      rw [here,if_neg (lt_irrefl _),if_pos rfl,if_pos (Nat.lt_succ_self node),same,all]
    · rw [if_neg (by omega),if_neg (by omega),if_neg (by omega),ite_self]

variable (careful : ∀ s node obj name rest, Walk kernel rounds first s node (some (obj,name :: rest)) →
  Careful kernel rounds s name)
include careful

theorem load_needed_inv (rest : List Name) : ∀ {s : State φ} {done : List Name}, Inv kernel rounds s node done →
    Walk kernel rounds first s node (some (p,rest)) → s.image_list_head[node]? = some p →
    (s.static_image_pool p).needed = done ++ rest →
    ∃ s', load_needed kernel rounds p rest s = some s' ∧ Inv kernel rounds s' (node+1) [] ∧
      Walk kernel rounds first s' (node+1) none ∧ s'.image_list_head[node]? = some p := by
  induction rest with
  | nil =>
    intro s done inv walk at_node all
    exact ⟨_,rfl,inv.finish at_node (all.trans (List.append_nil _)),.last walk,at_node⟩
  | cons name rest ih =>
    intro s done inv walk at_node all
    obtain ⟨ret,t,loads,kept,extended⟩ := load_dependency_inv inv at_node (careful _ _ _ _ _ walk)
    have needed := extended.needed p (List.mem_of_getElem? at_node)
    rw [load_needed,loads]
    exact ih kept (.name walk loads) (extended.at_node at_node)
      (by rw [needed,all,List.append_assoc,List.singleton_append])

/-- The list has no more nodes than the pool has images, so the walk comes to its end. -/
theorem load_dependencies_inv (nodes : Nat) : ∀ {s : State φ} {node : Nat}, Inv kernel rounds s node [] →
    Walk kernel rounds first s node none → node ≤ s.image_list_head.length → DL_MAX_STATIC_IMAGE < node + nodes →
    ∃ s' last, load_dependencies kernel rounds nodes node s = some s' ∧ Inv kernel rounds s' last [] ∧
      s'.image_list_head.length ≤ last := by
  induction nodes with
  | zero =>
    intro s node inv _ inside enough
    have count := inv.count
    have usage := inv.usage
    omega
  | succ nodes ih =>
    intro s node inv walk inside enough
    rw [load_dependencies]
    cases at_node : s.image_list_head[node]? with
    | none => exact ⟨s,node,rfl,inv,List.getElem?_eq_none_iff.mp at_node⟩
    | some obj =>
      have unloaded : (s.static_image_pool obj).dependency_loaded = false := by
        rw [inv.loaded node obj at_node,decide_eq_false (lt_irrefl _)]
      obtain ⟨t,loads,kept,walk,still⟩ := load_needed_inv careful _ inv (.image walk at_node unloaded) at_node rfl
      obtain ⟨inside,_⟩ := List.getElem?_eq_some_iff.mp still
      dsimp only
      rw [if_neg (Bool.eq_false_iff.mp unloaded),loads]
      exact ih kept walk inside (by omega)

omit careful in
theorem Inv.closed (inv : Inv kernel rounds s node []) (ends : s.image_list_head.length ≤ node) :
    Closed kernel rounds s where
  once := inv.once
  opened := inv.opened
  linked := fun image listed => by
    obtain ⟨j,at_j⟩ := List.getElem?_of_mem listed
    obtain ⟨inside,_⟩ := List.getElem?_eq_some_iff.mp at_j
    have before : j < node := inside.trans_le ends
    have linked := inv.linked j image at_j
    rw [handled,if_pos before] at linked
    exact ⟨(inv.loaded j image at_j).trans (decide_eq_true before),inv.among image listed,linked⟩

end Loops

section Main
variable {φ : Type} {kernel : Kernel φ} {s : State φ} {rounds image : Nat} {name : Name}

theorem load_image_none (room : s.static_image_usage < DL_MAX_STATIC_IMAGE)
    (never : load kernel rounds { s with static_image_usage := s.static_image_usage + 1 } name = none) :
    load_image kernel rounds s name = none := by
  rw [load_image,allocate_static_exe,if_pos room]
  dsimp only
  rw [never]

/-- The first image. -/
theorem first_image_inv (loads : load_image kernel rounds start name = some (some image,s)) :
    Inv kernel rounds s 0 [] := by
  have no_image (image : Nat) : image ∉ (start : State φ).image_list_head := List.not_mem_nil
  have inv : Inv kernel rounds start 0 [] := by
    refine ⟨fun _ absent => absurd absent List.not_mem_nil,Nat.zero_le _,le_rfl,
      fun _ absent => absurd absent (no_image _),fun _ _ => rfl,List.nodup_nil,
      fun _ absent => absurd absent (no_image _),?_,fun _ absent => absurd absent (no_image _),?_⟩
    all_goals exact fun j image listed => absurd (List.mem_of_getElem? listed) (no_image image)
  have some_place : 0 < DL_MAX_STATIC_IMAGE := by decide
  have ends : (denotes kernel rounds name).isSome := by
    have answers := @load_answers φ kernel rounds { (start : State φ) with static_image_usage := 1 } name inv.injected
    cases answer : load kernel rounds { (start : State φ) with static_image_usage := 1 } name with
    | none =>
      rw [load_image_none some_place answer] at loads
      cases loads
    | some pair =>
      rw [answer] at answers
      obtain ⟨exe | image | _,t⟩ := pair
      · rw [answers.1]
        rfl
      · obtain ⟨⟨_,_,listed,_⟩,_⟩ := answers
        exact absurd listed (no_image _)
      · rw [answers.1]
        rfl
  have careful : Careful kernel rounds start name := {
    ends := fun _ => ends
    same := fun _ _ _ absent => absurd absent (no_image _)
    known := fun _ absent => absurd absent (no_image _)
    room := fun _ => ⟨some_place,.inl some_place⟩ }
  obtain ⟨result,s',same,kept,_⟩ := load_image_inv inv (.inr ⟨rfl,rfl⟩) careful fun _ absent =>
    absurd absent (no_image _)
  rw [loads] at same
  cases same
  exact kept

/-- When every request of the walk is careful, `load_dependencies` ends and leaves the closure. -/
theorem dependency_closure (loads : load_image kernel rounds start name = some (some image,s))
    (careful : ∀ t node obj name rest, Walk kernel rounds s t node (some (obj,name :: rest)) →
      Careful kernel rounds t name) :
    ∃ s', load_dependencies kernel rounds (DL_MAX_STATIC_IMAGE + 1) 0 s = some s' ∧ Closed kernel rounds s' := by
  obtain ⟨s',last,ends,inv,all⟩ := load_dependencies_inv careful (DL_MAX_STATIC_IMAGE + 1) (first_image_inv loads)
    .first (Nat.zero_le _) (by omega)
  exact ⟨s',ends,inv.closed all⟩

end Main

/-! ### The walk of a graph -/

section Check
variable {φ : Type} [DecidableEq φ] (kernel : Kernel φ) (rounds : Nat)

instance (s : State φ) (image : Nat) (name : Name) : Decidable (Named s image name) :=
  inferInstanceAs (Decidable (_ = _))

/-- The names that the rounds come to. -/
def names : (rounds : Nat) → Name → List Name
  | 0, _ => []
  | rounds+1, name =>
    match alias_target kernel name with
    | some target => name :: names rounds target
    | none => [name]

def careful (s : State φ) (name : Name) : Bool :=
  (denotes kernel rounds name).isSome &&
    (names kernel rounds name).all (fun other => s.image_list_head.all (fun image =>
      decide (Named s image other → (s.static_image_pool image).handle = loadable kernel rounds name))) &&
    s.image_list_head.all (fun image =>
      decide ((s.static_image_pool image).handle = loadable kernel rounds name →
        ∃ other ∈ names kernel rounds name, Named s image other)) &&
    decide (s.static_dependency_usage < DL_MAX_STATIC_IMAGE) && decide (s.static_image_usage < DL_MAX_STATIC_IMAGE)

/-- The requests of a walk, if it ends within the steps. -/
def walk_careful : (steps : Nat) → State φ → Nat → Option (Nat × List Name) → Bool
  | 0, _, _, _ => false
  | steps+1, s, node, none =>
    match s.image_list_head[node]? with
    | none => true
    | some obj =>
      if (s.static_image_pool obj).dependency_loaded then walk_careful steps s (node+1) none
      else walk_careful steps s node (some (obj,(s.static_image_pool obj).needed))
  | steps+1, s, node, some (obj,[]) =>
    walk_careful steps (set_image s obj { s.static_image_pool obj with dependency_loaded := true }) (node+1) none
  | steps+1, s, node, some (obj,name :: rest) =>
    careful kernel rounds s name &&
      match load_dependency kernel rounds s obj name with
      | none => true
      | some (_,s) => walk_careful steps s node (some (obj,rest))

variable {kernel}

omit [DecidableEq φ] in
theorem chain_names (rounds : Nat) : ∀ {name other : Name}, (denotes kernel rounds name).isSome →
    (Chain kernel name other ↔ other ∈ names kernel rounds name) := by
  induction rounds with
  | zero => exact fun never => absurd never Bool.false_ne_true
  | succ rounds ih =>
    intro name other ends
    rw [denotes] at ends
    rw [names]
    cases leads : alias_target kernel name with
    | none =>
      rw [List.mem_singleton]
      exact ⟨chain_of_none leads,fun same => same ▸ .here other⟩
    | some target =>
      rw [leads] at ends
      rw [List.mem_cons,← ih ends]
      exact ⟨chain_of_some leads,fun either => either.elim (fun same => same ▸ .here other) (.step leads)⟩

variable {rounds}

theorem careful_spec {s : State φ} {name : Name} (checked : careful kernel rounds s name = true) :
    Careful kernel rounds s name := by
  rw [careful,Bool.and_eq_true,Bool.and_eq_true,Bool.and_eq_true,Bool.and_eq_true,decide_eq_true_iff,
    decide_eq_true_iff] at checked
  obtain ⟨⟨⟨⟨ends,same⟩,known⟩,nodes⟩,images⟩ := checked
  refine ⟨fun _ => ends,fun other chain image listed named => ?_,fun image listed equal => ?_,
    fun _ => ⟨nodes,.inl images⟩⟩
  · have at_other := List.all_eq_true.mp same other ((chain_names rounds ends).mp chain)
    exact of_decide_eq_true (List.all_eq_true.mp at_other image listed) named
  · obtain ⟨other,among,named⟩ := of_decide_eq_true (List.all_eq_true.mp known image listed) equal
    exact ⟨other,(chain_names rounds ends).mpr among,named⟩

theorem walk_careful_spec {first : State φ} {steps : Nat}
    (checked : walk_careful kernel rounds steps first 0 none = true) {s : State φ} {node : Nat} {todo : Option (Nat × List Name)} (walk : Walk kernel rounds first s node todo) :
    ∃ left, walk_careful kernel rounds (left+1) s node todo = true := by
  -- no steps are left only at `false`
  have positive {left : Nat} {s : State φ} {node : Nat} {todo : Option (Nat × List Name)}
      (checked : walk_careful kernel rounds left s node todo = true) :
      ∃ left, walk_careful kernel rounds (left+1) s node todo = true := by
    cases left with
    | zero => cases checked
    | succ left => exact ⟨left,checked⟩
  induction walk with
  | first => exact positive checked
  | skip _ listed loaded ih =>
    obtain ⟨left,checked⟩ := ih
    rw [walk_careful,listed] at checked
    exact positive ((if_pos loaded).symm.trans checked)
  | image _ listed loaded ih =>
    obtain ⟨left,checked⟩ := ih
    rw [walk_careful,listed] at checked
    exact positive ((if_neg (Bool.eq_false_iff.mp loaded)).symm.trans checked)
  | name _ loads ih =>
    obtain ⟨left,checked⟩ := ih
    rw [walk_careful,loads,Bool.and_eq_true] at checked
    exact positive checked.2
  | last _ ih =>
    obtain ⟨left,checked⟩ := ih
    exact positive checked

theorem requests_careful {first : State φ} (steps : Nat)
    (checked : walk_careful kernel rounds steps first 0 none = true) :
    ∀ s node obj name rest, Walk kernel rounds first s node (some (obj,name :: rest)) →
      Careful kernel rounds s name := by
  intro s node obj name rest walk
  obtain ⟨left,checked⟩ := walk_careful_spec checked walk
  rw [walk_careful,Bool.and_eq_true] at checked
  exact careful_spec checked.1

end Check

/-- `m` is an alias of `g`, `g` needs the program again, and `x` is missing. -/
def files (needed : List Name) : Kernel Nat where
  open_exe name _ :=
    if name = ['p'] then some ⟨0,needed⟩ else if name = ['l','/','g'] ∨ name = ['g'] then some ⟨1,[['p']]⟩ else none
  map_exe_file name := if name = ['m'] then some ['a','l','i','a','s',' ','g',' '] else none
  inject_exe _ := false
  elf_analyze _ := false

/-- The program is loaded. -/
def program (needed : List Name) : State Nat := ((load_image (files needed) 2 start ['p']).map Prod.snd).getD start

/-- The program needs a library, an alias of it, a file that is missing and the library again under another path. -/
theorem dependency_closure_cycle :
    ∃ s', load_dependencies (files [['l','/','g'],['m'],['x'],['g']]) 2 (DL_MAX_STATIC_IMAGE + 1) 0
      (program [['l','/','g'],['m'],['x'],['g']]) = some s' ∧ Closed (files [['l','/','g'],['m'],['x'],['g']]) 2 s' :=
  @dependency_closure Nat (files [['l','/','g'],['m'],['x'],['g']]) (program [['l','/','g'],['m'],['x'],['g']]) 2 0
    ['p'] rfl (requests_careful 20 (by decide +kernel))

/-- The library is asked for under its alias first, and then once more under its own name. -/
theorem loaded_twice :
    (load_image (files [['m'],['g']]) 2 start ['p']).map Prod.fst = some (some 0) ∧
    ∃ s', load_dependencies (files [['m'],['g']]) 2 (DL_MAX_STATIC_IMAGE + 1) 0 (program [['m'],['g']]) = some s' ∧
      s'.image_list_head.map (fun image => (s'.static_image_pool image).handle) = [some 0,some 1,some 1] ∧
      ¬ Closed (files [['m'],['g']]) 2 s' := by
  have handles : (load_dependencies (files [['m'],['g']]) 2 (DL_MAX_STATIC_IMAGE + 1) 0 (program [['m'],['g']])).map
      (fun s => s.image_list_head.map (fun image => (s.static_image_pool image).handle)) =
        some [some 0,some 1,some 1] := by decide +kernel
  obtain ⟨s',ends,handles⟩ := Option.map_eq_some_iff.mp handles
  refine ⟨by decide +kernel,s',ends,handles,fun closed => ?_⟩
  have once := closed.once
  rw [handles] at once
  exact absurd once (by decide)

end GridOS.LinkerRuns
