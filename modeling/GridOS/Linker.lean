import Mathlib.Tactic

/-!
The dynamic linker: the list of loaded images grows while the loop over it loads what each of them needs. An image is
found by the last part of the name it was first asked for under, and a file may be an alias, a text with another name.
What the kernel does with a name is a parameter.
-/
namespace GridOS.Linker

abbrev Name := List Char

def DL_MAX_STATIC_IMAGE : Nat := 512
def DL_ALIAS_NAME_LENGTH : Nat := 128

/-- What is behind the last such character. -/
def behind_last (c : Char) : Name → Option Name
  | [] => none
  | x :: rest =>
    match behind_last c rest with
    | some name => some name
    | none => if x = c then some rest else none

def cl_locate_pure_file_name (fname : Name) : Name :=
  match behind_last '\\' fname with
  | some pname => pname
  | none =>
    match behind_last '/' fname with
    | some pname => pname
    | none => fname

/-- An opened file: which one it is, and the names that `elf_get_needed` enumerates. -/
structure Exe (φ : Type) where
  file : φ
  needed : List Name

/-- What the kernel's calls answer for a name, and the check of a file that is mapped. An open may depend on whether the
    name was injected before. -/
structure Kernel (φ : Type) where
  open_exe : Name → Bool → Option (Exe φ)
  map_exe_file : Name → Option (List Char)
  inject_exe : Name → Bool
  elf_analyze : List Char → Bool

/-- `handle` is the file that is open, `is_open` whether it was not closed again. -/
structure Image (φ : Type) where
  name : Name
  handle : Option φ
  needed : List Name
  dep_list : List Nat
  ref : Nat
  dependency_loaded : Bool
  is_open : Bool

/-- Nothing clears the flag of a used place, so the pools are used from the first place on. -/
structure State (φ : Type) where
  static_image_pool : Nat → Image φ
  static_image_usage : Nat
  static_dependency_usage : Nat
  image_list_head : List Nat
  injected : List Name

inductive Loaded (φ : Type)
  | handle (exe : Exe φ)
  | aliased (image : Nat)
  | invalid

/-- The string at the start of a file, which `strchr` does not leave; behind the last byte a file reads as 0. -/
def c_string (file : List Char) : List Char := file.takeWhile (· ≠ Char.ofNat 0)

/-- The name in an alias file. -/
def alias_name (file : List Char) : Option Name :=
  if file.take 4 = ['a','l','i','a'] then
    match (c_string file).dropWhile (· ≠ ' ') with
    | [] => none
    | _ :: name =>
      if ' ' ∉ name then none else
      let name := name.takeWhile (· ≠ ' ')
      if name.length < DL_ALIAS_NAME_LENGTH then some name else none
  else none

section Code
variable {φ : Type}

def allocate_static_exe (s : State φ) : Option (Nat × State φ) :=
  if s.static_image_usage < DL_MAX_STATIC_IMAGE then
    some (s.static_image_usage,{ s with static_image_usage := s.static_image_usage + 1 })
  else none

def set_image (s : State φ) (image : Nat) (value : Image φ) : State φ :=
  { s with static_image_pool := Function.update s.static_image_pool image value }

def check_image_precicely (_ : Image φ) (_ : Name) : Bool := true

/-- The loop over the linear list. -/
def locate (s : State φ) (name : Name) : Option Nat :=
  s.image_list_head.find? (fun image =>
    cl_locate_pure_file_name (s.static_image_pool image).name = cl_locate_pure_file_name name &&
      check_image_precicely (s.static_image_pool image) name)

def get_obj_from_linear_list (s : State φ) (name : Name) : Option (Nat × State φ) :=
  (locate s name).map (fun image =>
    (image,set_image s image
      { s.static_image_pool image with ref := (s.static_image_pool image).ref + 1 }))

def add_obj_to_dependency_list (s : State φ) (dependency obj : Nat) : Option (State φ) :=
  if s.static_dependency_usage < DL_MAX_STATIC_IMAGE then
    let s := { s with static_dependency_usage := s.static_dependency_usage + 1 }
    some (set_image s obj
      { s.static_image_pool obj with dep_list := (s.static_image_pool obj).dep_list ++ [dependency] })
  else none

variable (kernel : Kernel φ)

/-- `load`, if it opens again no more often than the rounds. -/
def load : (rounds : Nat) → State φ → Name → Option (Loaded φ × State φ)
  | 0, _, _ => none
  | rounds+1, s, name =>
    match kernel.open_exe name (decide (name ∈ s.injected)) with
    | some exe => some (.handle exe,s)
    | none =>
      match kernel.map_exe_file name with
      | none => some (.invalid,s)
      | some file =>
        if kernel.elf_analyze file then
          if kernel.inject_exe name then
            let s := { s with injected := name :: s.injected }
            match kernel.open_exe name true with
            | some exe => some (.handle exe,s)
            | none => some (.invalid,s)
          else some (.invalid,s)
        else
          match alias_name file with
          | none => some (.invalid,s)
          | some name =>
            -- may already be in the list
            match get_obj_from_linear_list s name with
            | some (image,s) => some (.aliased image,s)
            | none => load rounds s name

/-- What `load` tells `open_exe`: the name was injected before. -/
def is_injected (s : State φ) (name : Name) : Bool := decide (name ∈ s.injected)

variable (rounds : Nat)

def load_image (s : State φ) (name : Name) : Option (Option Nat × State φ) :=
  match allocate_static_exe s with
  | none => some (none,s)
  | some (p,s) =>
    match load kernel rounds s name with
    | none => none
    | some (.invalid,s) => some (none,s)
    | some (.aliased image,s) => some (some image,s)
    | some (.handle exe,s) =>
      let s := set_image s p { s.static_image_pool p with
        name, handle := some exe.file, needed := exe.needed, ref := 1, dep_list := [], is_open := true }
      some (some p,{ s with image_list_head := s.image_list_head ++ [p] })

def unload_image (s : State φ) (image : Nat) : State φ :=
  if (s.static_image_pool image).ref > 1 then
    set_image s image { s.static_image_pool image with ref := (s.static_image_pool image).ref - 1 }
  else set_image s image { s.static_image_pool image with is_open := false }

/-- `load_dependency` for the name of an id. -/
def load_dependency (s : State φ) (p : Nat) (name : Name) : Option (Int × State φ) :=
  match get_obj_from_linear_list s name with
  | some (obj,s) =>
    match add_obj_to_dependency_list s obj p with
    | none => some (-1,s)
    | some s => some (1,s)
  | none =>
    match load_image kernel rounds s name with
    | none => none
    | some (none,s) => some (-1,s)
    | some (some obj,s) =>
      match add_obj_to_dependency_list s obj p with
      | none => some (-1,unload_image s obj)
      | some s => some (1,s)

/-- The loop over the ids of an image; an error does not end it. -/
def load_needed (p : Nat) : List Name → State φ → Option (State φ)
  | [], s => some (set_image s p { s.static_image_pool p with dependency_loaded := true })
  | name :: rest, s =>
    match load_dependency kernel rounds s p name with
    | none => none
    | some (_,s) => load_needed p rest s

/-- `load_dependencies` from a node of the list on, if it comes to the end within the nodes. -/
def load_dependencies : (nodes : Nat) → (node : Nat) → State φ → Option (State φ)
  | 0, _, _ => none
  | nodes+1, node, s =>
    match s.image_list_head[node]? with
    | none => some s
    | some obj =>
      if (s.static_image_pool obj).dependency_loaded then load_dependencies nodes (node+1) s else
      match load_needed kernel rounds obj (s.static_image_pool obj).needed s with
      | none => none
      | some s => load_dependencies nodes (node+1) s

end Code

def start {φ : Type} : State φ :=
  { static_image_pool := fun _ => ⟨[],none,[],[],0,false,false⟩
    static_image_usage := 0
    static_dependency_usage := 0
    image_list_head := []
    injected := [] }

end GridOS.Linker
