import Mathlib.Tactic
import Mathlib.Data.List.TakeWhile

/-!
The environment of a process: one area of bytes with an entry for each name, the name, the length of the value, the
value, and `_cur_env` behind the last entry. `setenv` and `getenv` step from entry to entry by the length of the name
they look for. Pointers are places in the area; what is behind it is any memory. The strings that the caller gives may lie
in the area themselves, and are read each time the code reads them.
-/
namespace GridOS.Environ

abbrev byte := BitVec 8

def SIZE_OF_END_CHAR : Nat := 1
def INITSIZE : Nat := 20 * 1024 + SIZE_OF_END_CHAR

/-- A string without its end. -/
def CString := { s : List byte // 0#8 ∉ s }

/-- The area, once it is there, and the place behind the last entry. -/
structure Env where
  environ : Option (List byte)
  cur_env : Int

/-- The area that a call works on; the first one fills it with 0. -/
def Env.area (env : Env) : List byte := env.environ.getD (List.replicate INITSIZE 0#8)

/-- A string of the caller's own, or the one at a place in the area. -/
inductive Arg
  | own (s : CString)
  | place (p : Fin INITSIZE)

inductive Errno
  | ok
  | EINVAL
  | ENOMEM
  | EEXIST
deriving DecidableEq

/-- An `int` keeps the low 32 bits. -/
def int (n : Int) : Int := (BitVec.ofInt 32 n).toInt

/-- The four bytes of an `int`. -/
def int_bytes (n : Nat) : List byte :=
  [BitVec.ofNat 8 n,BitVec.ofNat 8 (n / 256),BitVec.ofNat 8 (n / 65536),BitVec.ofNat 8 (n / 16777216)]

section Code
variable (behind : Int → byte)

/-- The byte at a place. -/
def view (area : List byte) (p : Int) : byte := if 0 ≤ p then area[p.toNat]?.getD (behind p) else behind p

/-- `memcpy` of an `int`. -/
def read_int (mem : Int → byte) (p : Int) : Int :=
  (BitVec.ofNat 32 ((mem p).toNat + 256 * (mem (p+1)).toNat + 65536 * (mem (p+2)).toNat +
    16777216 * (mem (p+3)).toNat)).toInt

/-- `strcmp` finds the string at a place to be this one. -/
def strcmp_eq (mem : Int → byte) : Int → List byte → Bool
  | p, [] => mem p = 0#8
  | p, c :: rest => mem p = c && strcmp_eq mem (p+1) rest

/-- `strlen` finds this length at a place. -/
def strlen_eq (mem : Int → byte) (p : Int) (n : Nat) : Prop := (∀ i < n, mem (p+i) ≠ 0#8) ∧ mem (p+n) = 0#8

/-- The loop over the entries: where it ends, at an entry with the name or at a byte 0, if that is within the rounds. -/
def search (mem : Int → byte) (name : List byte) : (rounds : Nat) → Int → Option Int
  | 0, _ => none
  | rounds+1, p =>
    if mem p = 0#8 then some p else
    if strcmp_eq mem p name then some p else
    let p := p + name.length + SIZE_OF_END_CHAR
    let oldlen := read_int mem p
    search mem name rounds (p + 4 + (oldlen + SIZE_OF_END_CHAR))

/-- Bytes are stored; a place outside the area is not followed. -/
def write (area : List byte) (p : Int) (bytes : List byte) : List byte :=
  area.take p.toNat ++ (bytes ++ area.drop (p.toNat + bytes.length))

/-- The string at a place, up to the end of the area. -/
def string_at (area : List byte) (p : Nat) : List byte := (area.drop p).takeWhile (· ≠ 0#8)

/-- What is read of a string while the area is like this. -/
def Arg.read (area : List byte) : Arg → List byte
  | .own s => s.1
  | .place p => string_at area p

/-- The stores of a new entry, and the place behind it. -/
def put_entry (area : List byte) (p : Int) (name value : Arg) : List byte × Int :=
  let area := write area p (name.read area ++ [0#8])
  let p := p + (name.read area).length
  let area := write area p [0#8]
  let p := p + 1
  let area := write area p (int_bytes (value.read area).length)
  let p := p + 4
  let area := write area p (value.read area ++ [0#8])
  let p := p + (value.read area).length
  let area := write area p [0#8]
  (area,p + 1)

/-- `setenv`: the error and the environment after it, if the loop ends within the rounds. -/
def setenv (rounds : Nat) (env : Env) (name value : Arg) (overwrite : Int) : Option (Errno × Env) :=
  let area := env.area
  let n := name.read area
  if n = [] ∨ 61#8 ∈ n then some (.EINVAL,env) else
  let cur_env := if env.environ.isSome then env.cur_env else 0
  let env : Env := ⟨some area,cur_env⟩
  let newlen := int (n.length + (value.read area).length + 4 + SIZE_OF_END_CHAR + SIZE_OF_END_CHAR)
  -- the sum is compared as an unsigned number
  if cur_env + newlen < 0 ∨ cur_env + newlen > INITSIZE then some (.ENOMEM,env) else
  (search (view behind area) n rounds 0).map (fun p =>
    if view behind area p = 0#8 then
      match put_entry area cur_env name value with
      | (area,cur_env) => (.ok,⟨some area,cur_env⟩)
    else if overwrite = 1 then
      let tmpp := p
      let oldlen := int (n.length + 1)
      let p := p + oldlen
      let tmplen := read_int (view behind area) p
      let p := p + 4
      let oldlen := int (oldlen + (tmplen + 4 + SIZE_OF_END_CHAR))
      if oldlen ≥ newlen then
        let area := write area p (List.replicate (tmplen + SIZE_OF_END_CHAR).toNat 0#8)
        (.ok,⟨some (write area p (value.read area ++ [0#8])),cur_env⟩)
      else
        let p := p + (tmplen + SIZE_OF_END_CHAR)
        let area := write area tmpp ((area.drop p.toNat).take (cur_env - p).toNat)
        let p := cur_env - oldlen
        let area := write area p (List.replicate oldlen.toNat 0#8)
        match put_entry area p name value with
        | (area,cur_env) => (.ok,⟨some area,cur_env⟩)
    else (.EEXIST,env))

/-- `getenv`: the place of the value or `NULL`, if the loop ends within the rounds. -/
def getenv (rounds : Nat) (env : Env) (name : Arg) : Option (Option Int) :=
  match env.environ with
  | none => some none
  | some area =>
    (search (view behind area) (name.read area) rounds 0).map (fun p =>
      if view behind area p = 0#8 then none else some (p + (name.read area).length + 1 + 4))

end Code

/-! ### Runs -/

inductive Op
  | setenv (name value : Arg) (overwrite : Int)
  | getenv (name : Arg)

/-- The environment, and the value that each name was last set to. -/
structure System where
  env : Env
  last : List byte → Option (List byte)

section Steps
variable (behind : Int → byte) (rounds : Nat)

def step (s : System) : Op → System
  | .setenv name value overwrite =>
    match setenv behind rounds s.env name value overwrite with
    | none => s
    | some (.ok,env) => { env, last := Function.update s.last (name.read s.env.area) (some (value.read s.env.area)) }
    | some (_,env) => { s with env }
  | .getenv _ => s

def start : System := ⟨⟨none,0⟩,fun _ => none⟩

/-- `getenv` finds the value that the name was last set to; `setenv` returns, and one that may not overwrite changes
    nothing when the name is set. -/
def Right (s : System) : Op → Prop
  | .getenv name =>
    match s.last (name.read s.env.area) with
    | none => getenv behind rounds s.env name = some none
    | some value => ∃ p area, getenv behind rounds s.env name = some (some p) ∧ s.env.environ = some area ∧
        strcmp_eq (view behind area) p value = true
  | .setenv name value overwrite =>
    ∃ result env, setenv behind rounds s.env name value overwrite = some (result,env) ∧
      (overwrite = 0 → s.last (name.read s.env.area) ≠ none → result ≠ .ok ∧ env = s.env)

/-- The places that the loop comes to. -/
inductive Passes (area name : List byte) : Int → Prop
  | start : Passes area name 0
  | next {p : Int} (passes : Passes area name p) (entry : view behind area p ≠ 0#8)
      (other : strcmp_eq (view behind area) p name = false) : Passes area name
        (p + name.length + SIZE_OF_END_CHAR + 4 +
          (read_int (view behind area) (p + name.length + SIZE_OF_END_CHAR) + SIZE_OF_END_CHAR))

/-- The loop stays in the area, and each name that it steps over is as long as the one it looks for. -/
def Stays (area name : List byte) : Prop :=
  ∀ p, Passes behind area name p → p < area.length ∧ (view behind area p = 0#8 ∨
    strcmp_eq (view behind area) p name = true ∨ strlen_eq (view behind area) p name.length)

/-- A string with its 0 is apart from the bytes of the area from `q` up to `r`. -/
def Arg.Spared (area : List byte) (q r : Int) : Arg → Prop
  | .own _ => True
  | .place p => p + (string_at area p).length < q ∨ r ≤ p

/-- The strings that a `setenv` still reads are apart from what it has stored by then: at the end of the loop these are the
    bytes of the new entry, the room of the old value, or, if that is too small, everything from the entry on. -/
def Spares (env : Env) (name value : Arg) (overwrite : Int) : Prop :=
  ∀ p, Passes behind env.area (name.read env.area) p →
    if view behind env.area p = 0#8 then
      let stop := env.cur_env + ((name.read env.area).length + (value.read env.area).length + 6)
      name.Spared env.area env.cur_env stop ∧ value.Spared env.area env.cur_env stop
    else strcmp_eq (view behind env.area) p (name.read env.area) = true → overwrite = 1 →
      let room := read_int (view behind env.area) (p + ((name.read env.area).length + 1))
      let place := p + ((name.read env.area).length + 1) + 4
      if (value.read env.area).length ≤ room then
        value.read env.area = [] ∨ value.Spared env.area place (place + (room + 1))
      else
        let stop := env.cur_env + ((value.read env.area).length - room)
        name.Spared env.area p stop ∧ value.Spared env.area p stop

/-- What the loop of the call needs and what its strings must be apart from, where the call comes to it, and lengths that an
    `int` holds. -/
def Careful (s : System) : Op → Prop
  | .getenv name => ∀ area, s.env.environ = some area → Stays behind area (name.read area)
  | .setenv name value overwrite =>
    let n := name.read s.env.area
    let v := value.read s.env.area
    n.length + v.length + 6 < 2 ^ 31 ∧
      (n ≠ [] → 61#8 ∉ n → s.env.cur_env + (n.length + v.length + 6) ≤ INITSIZE →
        (∀ area, s.env.environ = some area → Stays behind area n) ∧ Spares behind s.env name value overwrite)

/-- The states of the runs whose calls all meet the condition. -/
inductive CarefulRun : System → Prop
  | start : CarefulRun start
  | step {s : System} (run : CarefulRun s) (op : Op) (careful : Careful behind s op) : CarefulRun (step behind rounds s op)

end Steps

/-! ### Reads and stores -/

section Memory
variable {behind : Int → byte} {B C X : List byte}

/-- The byte behind a part of the area. -/
theorem view_append (c : byte) : view behind (B ++ c :: C) B.length = c := by
  rw [view,if_pos (Int.natCast_nonneg _),Int.toNat_natCast,List.getElem?_append_right le_rfl]
  simp

theorem write_mid {bytes : List byte} (same : X.length = bytes.length) :
    write (B ++ (X ++ C)) B.length bytes = B ++ (bytes ++ C) := by
  have rest : (B ++ (X ++ C)).drop (B.length + bytes.length) = C := by
    rw [← same,← List.append_assoc,← List.length_append,List.drop_left]
  rw [write,Int.toNat_natCast,List.take_left,rest]

/-- A string ends at its 0. -/
theorem strcmp_eq_iff (name : List byte) : ∀ {B s : List byte}, 0#8 ∉ name → 0#8 ∉ s →
    (strcmp_eq (view behind (B ++ (s ++ 0#8 :: C))) B.length name = true ↔ s = name) := by
  induction name with
  | nil =>
    intro B s _ nonzero
    cases s with
    | nil =>
      rw [strcmp_eq,List.nil_append,view_append]
      simp
    | cons c rest =>
      have some : c ≠ 0#8 := fun zero => nonzero (zero ▸ List.mem_cons_self)
      rw [strcmp_eq,List.cons_append,view_append]
      simp [some]
  | cons c rest ih =>
    intro B s name_nonzero nonzero
    have some : c ≠ 0#8 := fun zero => name_nonzero (zero ▸ List.mem_cons_self)
    cases s with
    | nil =>
      rw [strcmp_eq,List.nil_append,view_append]
      simp [Ne.symm some]
    | cons d s =>
      have next := ih (B := B ++ [d]) (s := s) (fun zero => name_nonzero (List.mem_cons_of_mem _ zero))
        (fun zero => nonzero (List.mem_cons_of_mem _ zero))
      rw [List.append_assoc,List.singleton_append,List.length_append,List.length_singleton] at next
      push_cast at next
      rw [strcmp_eq,List.cons_append,view_append,Bool.and_eq_true,next,decide_eq_true_iff]
      simp

theorem int_bytes_length (n : Nat) : (int_bytes n).length = 4 := rfl

theorem read_int_bytes {n : Nat} (small : n < 2 ^ 31) :
    read_int (view behind (B ++ (int_bytes n ++ C))) B.length = n := by
  have at_place (before : List byte) (c : byte) (after : List byte)
      (same : B ++ (int_bytes n ++ C) = before ++ c :: after) (p : Int) (place : p = before.length) :
      view behind (B ++ (int_bytes n ++ C)) p = c := by
    rw [same,place,view_append]
  unfold read_int
  rw [at_place B (BitVec.ofNat 8 n) _ rfl _ rfl,
    at_place (B ++ [BitVec.ofNat 8 n]) (BitVec.ofNat 8 (n / 256)) _ (by simp [int_bytes]; rfl) _ (by simp),
    at_place (B ++ [BitVec.ofNat 8 n,BitVec.ofNat 8 (n / 256)]) (BitVec.ofNat 8 (n / 65536)) _
      (by simp [int_bytes]; rfl) _ (by simp),
    at_place (B ++ [BitVec.ofNat 8 n,BitVec.ofNat 8 (n / 256),BitVec.ofNat 8 (n / 65536)])
      (BitVec.ofNat 8 (n / 16777216)) _ (by simp [int_bytes]; rfl) _ (by simp)]
  simp only [BitVec.toNat_ofNat]
  have value : n % 2 ^ 8 + 256 * (n / 256 % 2 ^ 8) + 65536 * (n / 65536 % 2 ^ 8) +
      16777216 * (n / 16777216 % 2 ^ 8) = n := by omega
  rw [value,BitVec.toInt_eq_toNat_cond,BitVec.toNat_ofNat]
  split <;> omega

theorem write_at {bytes : List byte} {p : Int} (place : p = B.length) (same : X.length = bytes.length) :
    write (B ++ (X ++ C)) p bytes = B ++ (bytes ++ C) := by
  rw [place,write_mid same]

/-- A string of another length is not as long as the name. -/
theorem length_of_strlen {s : List byte} {n : Nat} (nonzero : 0#8 ∉ s)
    (same : strlen_eq (view behind (B ++ (s ++ 0#8 :: C))) B.length n) : s.length = n := by
  obtain ⟨before,ends⟩ := same
  rcases Nat.lt_trichotomy s.length n with shorter | same | longer
  · have zero := before s.length shorter
    have at_end := @view_append behind (B ++ s) C 0#8
    rw [List.append_assoc,List.length_append,Nat.cast_add] at at_end
    exact absurd at_end zero
  · exact same
  · have split : s = s.take n ++ s[n] :: s.drop (n+1) := by simp
    have at_place := @view_append behind (B ++ s.take n) (s.drop (n+1) ++ 0#8 :: C) s[n]
    rw [List.append_assoc,← List.cons_append,← List.append_assoc (s.take n),← split,List.length_append,
      List.length_take_of_le longer.le,Nat.cast_add,ends] at at_place
    exact absurd (at_place ▸ List.getElem_mem longer) nonzero

end Memory

/-! ### Entries -/

/-- An entry and the room it has for its value. -/
structure Entry where
  name : List byte
  room : Nat
  value : List byte

namespace Entry

def bytes (e : Entry) : List byte :=
  e.name ++ 0#8 :: (int_bytes e.room ++ (e.value ++ List.replicate (e.room - e.value.length + 1) 0#8))

def size (e : Entry) : Nat := e.name.length + e.room + 6

structure Sound (e : Entry) : Prop where
  some : e.name ≠ []
  name_nonzero : 0#8 ∉ e.name
  value_nonzero : 0#8 ∉ e.value
  fits : e.value.length ≤ e.room
  small : e.room < 2 ^ 31

section Reads
variable {behind : Int → byte} {e : Entry} {B C : List byte}

theorem bytes_length (sound : e.Sound) : e.bytes.length = e.size := by
  have fits := sound.fits
  simp only [bytes,size,List.length_append,List.length_cons,int_bytes_length,List.length_replicate]
  omega

theorem bytes_append : e.bytes ++ C = e.name ++ 0#8 :: (int_bytes e.room ++
    (e.value ++ (List.replicate (e.room - e.value.length + 1) 0#8 ++ C))) := by
  simp only [bytes,List.append_assoc,List.cons_append]

theorem bytes_value : B ++ (e.bytes ++ C) = (B ++ (e.name ++ 0#8 :: int_bytes e.room)) ++
    (e.value ++ (List.replicate (e.room - e.value.length + 1) 0#8 ++ C)) := by
  rw [bytes_append]
  simp only [List.append_assoc,List.cons_append]

theorem value_place : ((B ++ (e.name ++ 0#8 :: int_bytes e.room)).length : Int) =
    B.length + (e.name.length + 1) + 4 := by
  simp only [List.length_append,List.length_cons,int_bytes_length]
  push_cast
  ring

theorem first_byte (sound : e.Sound) : view behind (B ++ (e.bytes ++ C)) B.length ≠ 0#8 := by
  obtain ⟨c,more,name_eq⟩ := List.exists_cons_of_ne_nil sound.some
  rw [bytes_append,name_eq,List.cons_append,view_append]
  exact fun zero => sound.name_nonzero (name_eq ▸ zero ▸ List.mem_cons_self)

theorem compared (sound : e.Sound) {name : List byte} (nonzero : 0#8 ∉ name) :
    strcmp_eq (view behind (B ++ (e.bytes ++ C))) B.length name = true ↔ e.name = name := by
  rw [bytes_append]
  exact strcmp_eq_iff name nonzero sound.name_nonzero

theorem as_long (sound : e.Sound) {n : Nat} (same : strlen_eq (view behind (B ++ (e.bytes ++ C))) B.length n) :
    e.name.length = n := by
  rw [bytes_append] at same
  exact length_of_strlen sound.name_nonzero same

theorem read_room (sound : e.Sound) :
    read_int (view behind (B ++ (e.bytes ++ C))) (B.length + (e.name.length + 1)) = e.room := by
  have place : (B.length + (e.name.length + 1) : Int) = ((B ++ (e.name ++ [0#8])).length : Nat) := by simp
  have split : B ++ (e.bytes ++ C) = B ++ (e.name ++ [0#8]) ++ (int_bytes e.room ++
      (e.value ++ (List.replicate (e.room - e.value.length + 1) 0#8 ++ C))) := by
    rw [bytes_append]
    simp only [List.append_assoc,List.cons_append,List.nil_append]
  rw [place,split]
  exact read_int_bytes sound.small

theorem read_value (sound : e.Sound) :
    strcmp_eq (view behind (B ++ (e.bytes ++ C))) (B.length + (e.name.length + 1) + 4) e.value = true := by
  rw [← value_place (B := B) (e := e),bytes_value,List.replicate_succ,List.cons_append]
  exact (strcmp_eq_iff _ sound.value_nonzero sound.value_nonzero).mpr rfl

end Reads

end Entry

def all_bytes (entries : List Entry) : List byte := entries.flatMap Entry.bytes

theorem all_bytes_append (left right : List Entry) : all_bytes (left ++ right) = all_bytes left ++ all_bytes right :=
  List.flatMap_append

theorem all_bytes_cons (e : Entry) (rest : List Entry) : all_bytes (e :: rest) = e.bytes ++ all_bytes rest := rfl

theorem all_bytes_singleton (e : Entry) : all_bytes [e] = e.bytes := List.append_nil _

/-- The area with these entries. -/
def area_of (entries : List Entry) : List byte :=
  all_bytes entries ++ List.replicate (INITSIZE - (all_bytes entries).length) 0#8

/-- The area has one entry for each name that is set. -/
structure Repr (area : List byte) (cur_env : Int) (last : List byte → Option (List byte)) (entries : List Entry) :
    Prop where
  sound : ∀ e ∈ entries, e.Sound
  distinct : (entries.map Entry.name).Nodup
  area_eq : area = area_of entries
  fits : (all_bytes entries).length ≤ INITSIZE
  cur_eq : cur_env = (all_bytes entries).length
  last_eq : ∀ n v, last n = some v ↔ ∃ e ∈ entries, e.name = n ∧ e.value = v

/-- Nothing was set yet, or the area is there. -/
def Kept (s : System) : Prop :=
  s = start ∨ ∃ area entries, s.env.environ = some area ∧ Repr area s.env.cur_env s.last entries

/-! ### The loop -/

section Search
variable {behind : Int → byte} {name : List byte}

/-- Where the loop ends: at the entry of the name or behind the last one. -/
def EndsAt (behind : Int → byte) (area name : List byte) (before rest : List Entry) (result : Option Int) : Prop :=
  (∃ left e right, rest = left ++ e :: right ∧ e.name = name ∧
    result = some ((all_bytes (before ++ left)).length : Int)) ∨
  ((∀ e ∈ rest, e.name ≠ name) ∧ result = some ((all_bytes (before ++ rest)).length : Int) ∧
    view behind area (all_bytes (before ++ rest)).length = 0#8)

/-- The loop ends at a place that it comes to. -/
theorem search_passes {area : List byte} {p : Int} (rounds : Nat) : ∀ {q : Int}, Passes behind area name q →
    search (view behind area) name rounds q = some p → Passes behind area name p := by
  induction rounds with
  | zero =>
    intro q _ ends
    cases ends
  | succ rounds ih =>
    intro q passes ends
    rw [search] at ends
    split at ends
    · exact Option.some.inj ends ▸ passes
    · next entry =>
      split at ends
      · exact Option.some.inj ends ▸ passes
      · next other => exact ih (passes.next entry (Bool.eq_false_iff.mpr other)) ends

theorem search_ends {area : List byte} {k : Nat} (nonzero : 0#8 ∉ name) (stays : Stays behind area name) :
    ∀ (rest before : List Entry) (rounds : Nat), (∀ e ∈ rest, e.Sound) →
      area = all_bytes before ++ (all_bytes rest ++ List.replicate k 0#8) →
      Passes behind area name (all_bytes before).length → rest.length < rounds →
      EndsAt behind area name before rest (search (view behind area) name rounds (all_bytes before).length)
  | _, _, 0, _, _, _, enough => absurd enough (Nat.not_lt_zero _)
  | [], before, rounds + 1, _, area_eq, passes, _ => by
    obtain ⟨inside,_⟩ := stays _ passes
    obtain ⟨j,j_eq⟩ : ∃ j, k = j + 1 := by
      refine Nat.exists_eq_succ_of_ne_zero fun zero => ?_
      rw [area_eq,zero] at inside
      simp [all_bytes] at inside
    have zero : view behind area (all_bytes before).length = 0#8 := by
      rw [area_eq,j_eq,List.replicate_succ]
      exact view_append 0#8
    refine .inr ⟨fun _ absent => absurd absent List.not_mem_nil,?_,?_⟩
    · rw [search,if_pos zero,List.append_nil]
    · rw [List.append_nil,zero]
  | e :: rest, before, rounds + 1, sound, area_eq, passes, enough => by
    have e_sound := sound e List.mem_cons_self
    rw [all_bytes_cons,List.append_assoc] at area_eq
    have some_byte : view behind area (all_bytes before).length ≠ 0#8 := area_eq ▸ Entry.first_byte e_sound
    have compared : strcmp_eq (view behind area) (all_bytes before).length name = true ↔ e.name = name :=
      area_eq ▸ Entry.compared e_sound nonzero
    rw [search,if_neg some_byte]
    by_cases same : e.name = name
    · rw [if_pos (compared.mpr same)]
      exact .inl ⟨[],e,rest,rfl,same,by rw [List.append_nil]⟩
    · have other : strcmp_eq (view behind area) (all_bytes before).length name = false :=
        Bool.eq_false_iff.mpr fun found => same (compared.mp found)
      rw [if_neg (Bool.eq_false_iff.mp other)]
      -- the step is over the entry only when the name there is as long
      have as_long : e.name.length = name.length := by
        obtain zero | found | as_long := (stays _ passes).2
        · exact absurd zero some_byte
        · exact absurd (compared.mp found) same
        · exact Entry.as_long e_sound (area_eq ▸ as_long)
      have room : read_int (view behind area) ((all_bytes before).length + name.length + SIZE_OF_END_CHAR) = e.room := by
        rw [← as_long,add_assoc,area_eq]
        exact Entry.read_room e_sound
      have next_place : ((all_bytes before).length + name.length + SIZE_OF_END_CHAR + 4 +
          (e.room + SIZE_OF_END_CHAR) : Int) = ((all_bytes (before ++ [e])).length : Nat) := by
        rw [all_bytes_append,all_bytes_singleton,List.length_append,Entry.bytes_length e_sound,Entry.size,as_long,
          SIZE_OF_END_CHAR]
        push_cast
        ring
      have next := Passes.next passes some_byte other
      dsimp only
      rw [room,next_place] at next ⊢
      have area_next : area = all_bytes (before ++ [e]) ++ (all_bytes rest ++ List.replicate k 0#8) := by
        rw [area_eq,all_bytes_append,all_bytes_singleton,List.append_assoc]
      obtain ⟨left,found,right,rest_eq,found_eq,result⟩ | ⟨absent,result,zero⟩ :=
        search_ends nonzero stays rest (before ++ [e]) rounds
          (fun other among => sound other (List.mem_cons_of_mem _ among)) area_next next
          (by rw [List.length_cons] at enough; omega)
      · rw [List.append_assoc,List.singleton_append] at result
        exact .inl ⟨e :: left,found,right,by rw [rest_eq,List.cons_append],found_eq,result⟩
      · rw [List.append_assoc,List.singleton_append] at result zero
        exact .inr ⟨List.forall_mem_cons.mpr ⟨same,absent⟩,result,zero⟩

end Search

/-! ### The stores -/

section Stores
variable {B C name value : List byte} {p : Int}

/-- The stores of a new entry over bytes that are 0. -/
theorem put_entry_zeros (name_nonzero : 0#8 ∉ name) (value_nonzero : 0#8 ∉ value) (place : p = B.length) :
    put_entry (B ++ (List.replicate (Entry.size ⟨name,value.length,value⟩) 0#8 ++ C)) p (.own ⟨name,name_nonzero⟩)
        (.own ⟨value,value_nonzero⟩) =
      (B ++ (Entry.bytes ⟨name,value.length,value⟩ ++ C),p + Entry.size ⟨name,value.length,value⟩) := by
  have zeros : List.replicate (Entry.size ⟨name,value.length,value⟩) 0#8 ++ C =
      (List.replicate name.length 0#8 ++ [0#8]) ++ (List.replicate 4 0#8 ++
        ((List.replicate value.length 0#8 ++ [0#8]) ++ C)) := by
    have size : Entry.size ⟨name,value.length,value⟩ = name.length + 1 + (4 + (value.length + 1)) := by
      rw [Entry.size]
      ring
    rw [size,List.replicate_add (name.length + 1),List.replicate_add name.length 1,List.replicate_add 4,
      List.replicate_add value.length 1]
    simp only [List.append_assoc,List.replicate_one]
  unfold put_entry
  dsimp only [Arg.read]
  rw [zeros,write_at place (by simp)]
  have name_end : B ++ ((name ++ [0#8]) ++ (List.replicate 4 0#8 ++ ((List.replicate value.length 0#8 ++ [0#8]) ++ C))) =
      (B ++ name) ++ ([0#8] ++ (List.replicate 4 0#8 ++ ((List.replicate value.length 0#8 ++ [0#8]) ++ C))) := by
    simp only [List.append_assoc]
  rw [name_end,write_at (by rw [place,List.length_append]; push_cast; ring) rfl,← List.append_assoc (B ++ name),
    write_at (by rw [place]; simp; ring) (by rw [List.length_replicate,int_bytes_length]),
    ← List.append_assoc _ (int_bytes value.length),
    write_at (by rw [place]; simp [int_bytes_length]; ring) (by simp),List.append_assoc value,
    ← List.append_assoc _ value,write_at (by rw [place]; simp [int_bytes_length]; ring) rfl]
  refine Prod.ext ?_ ?_
  · rw [Entry.bytes_append]
    simp
  · simp only [Entry.size]
    push_cast
    ring

/-- The value is stored in the room of the old one. -/
theorem put_value {e : Entry} (sound : e.Sound) (fits : value.length ≤ e.room)
    (place : p = B.length + (e.name.length + 1) + 4) :
    write (write (B ++ (e.bytes ++ C)) p (List.replicate (e.room + 1) 0#8)) p (value ++ [0#8]) =
      B ++ (Entry.bytes { e with value } ++ C) := by
  have old_fits := sound.fits
  rw [← Entry.value_place] at place
  rw [Entry.bytes_value,← List.append_assoc e.value,
    write_at place (by simp only [List.length_append,List.length_replicate]; omega)]
  have room : e.room + 1 = (value.length + 1) + (e.room - value.length) := by omega
  rw [room,List.replicate_add,List.append_assoc (List.replicate _ _),write_at place (by simp),Entry.bytes_value,
    Nat.add_comm _ 1,List.replicate_add 1,List.replicate_one]
  simp only [List.append_assoc]

/-- The entry is taken out, and the bytes behind the others are 0. -/
theorem take_out {e : Entry} (sound : e.Sound) {D : List byte} (place : p = B.length + C.length) :
    write (write (B ++ (e.bytes ++ (C ++ D))) B.length C) p (List.replicate e.size 0#8) =
      B ++ (C ++ (List.replicate e.size 0#8 ++ D)) := by
  have split : e.bytes ++ (C ++ D) = (e.bytes ++ C).take C.length ++ ((e.bytes ++ C).drop C.length ++ D) := by
    rw [← List.append_assoc,← List.append_assoc,List.take_append_drop]
  have moved : ((e.bytes ++ C).take C.length).length = C.length := by
    rw [List.length_take,List.length_append]
    omega
  have left : ((e.bytes ++ C).drop C.length).length = (List.replicate e.size 0#8).length := by
    rw [List.length_drop,List.length_append,Entry.bytes_length sound,List.length_replicate]
    omega
  rw [split,write_mid moved,← List.append_assoc B,write_at (by rw [place,List.length_append]; rfl) left,List.append_assoc]

end Stores

/-! ### The area of some entries -/

section Areas
variable {entries left right : List Entry} {e : Entry}

theorem entries_length (sound : ∀ e ∈ entries, e.Sound) : 6 * entries.length ≤ (all_bytes entries).length := by
  induction entries with
  | nil => exact Nat.zero_le _
  | cons e rest ih =>
    have rest_length := ih fun other among => sound other (List.mem_cons_of_mem _ among)
    have size : e.size = e.name.length + e.room + 6 := rfl
    rw [all_bytes_cons,List.length_append,Entry.bytes_length (sound e List.mem_cons_self),List.length_cons]
    omega

theorem area_split : area_of (left ++ e :: right) = all_bytes left ++ (e.bytes ++ (all_bytes right ++
    List.replicate (INITSIZE - (all_bytes (left ++ e :: right)).length) 0#8)) := by
  rw [area_of]
  generalize List.replicate _ 0#8 = zeros
  rw [all_bytes_append,all_bytes_cons,List.append_assoc,List.append_assoc]

theorem all_bytes_length_split (sound : e.Sound) :
    (all_bytes (left ++ e :: right)).length = (all_bytes (left ++ right)).length + e.size := by
  rw [all_bytes_append,all_bytes_cons,all_bytes_append,List.length_append,List.length_append,List.length_append,
    Entry.bytes_length sound]
  ring

theorem area_length (fits : (all_bytes entries).length ≤ INITSIZE) : (area_of entries).length = INITSIZE := by
  rw [area_of,List.length_append,List.length_replicate]
  omega

/-- The stores of a new entry behind the last one. -/
theorem put_new {name value : List byte} (sound : Entry.Sound ⟨name,value.length,value⟩)
    (fits : (all_bytes entries).length + Entry.size ⟨name,value.length,value⟩ ≤ INITSIZE) :
    put_entry (area_of entries) (all_bytes entries).length (.own ⟨name,sound.name_nonzero⟩)
        (.own ⟨value,sound.value_nonzero⟩) =
      (area_of (entries ++ [⟨name,value.length,value⟩]),
        ((all_bytes (entries ++ [⟨name,value.length,value⟩])).length : Int)) := by
  have zeros : INITSIZE - (all_bytes entries).length = Entry.size ⟨name,value.length,value⟩ +
      (INITSIZE - ((all_bytes entries).length + Entry.size ⟨name,value.length,value⟩)) := by omega
  unfold area_of
  rw [zeros,List.replicate_add,put_entry_zeros _ _ rfl,all_bytes_append,all_bytes_singleton,List.length_append,
    Entry.bytes_length sound,List.append_assoc]
  rfl

theorem put_in_place {value : List byte} {p : Int} (sound : e.Sound) (value_sound : Entry.Sound { e with value })
    (place : p = (all_bytes left).length + (e.name.length + 1) + 4) :
    write (write (area_of (left ++ e :: right)) p (List.replicate (e.room + 1) 0#8)) p (value ++ [0#8]) =
      area_of (left ++ { e with value } :: right) := by
  rw [area_split,put_value sound value_sound.fits place,area_split,all_bytes_length_split sound,
    all_bytes_length_split value_sound]
  rfl

theorem move_down {p tail : Int} (sound : e.Sound) (fits : (all_bytes (left ++ e :: right)).length ≤ INITSIZE)
    (tail_eq : tail = (all_bytes left).length + e.size) (place : p = (all_bytes (left ++ right)).length) :
    write (write (area_of (left ++ e :: right)) (all_bytes left).length
      (((area_of (left ++ e :: right)).drop tail.toNat).take
        (((all_bytes (left ++ e :: right)).length : Int) - tail).toNat)) p (List.replicate e.size 0#8) =
      area_of (left ++ right) := by
  have size := @all_bytes_length_split left right e sound
  have both : (all_bytes (left ++ right)).length = (all_bytes left).length + (all_bytes right).length := by
    rw [all_bytes_append,List.length_append]
  have behind_entry : (area_of (left ++ e :: right)).drop tail.toNat = all_bytes right ++
      List.replicate (INITSIZE - (all_bytes (left ++ e :: right)).length) 0#8 := by
    rw [area_split,← List.append_assoc (all_bytes left)]
    refine List.drop_left' ?_
    rw [List.length_append,Entry.bytes_length sound,tail_eq]
    omega
  have others : (((all_bytes (left ++ e :: right)).length : Int) - tail).toNat = (all_bytes right).length := by omega
  have zeros : e.size + (INITSIZE - (all_bytes (left ++ e :: right)).length) =
      INITSIZE - (all_bytes (left ++ right)).length := by omega
  rw [behind_entry,others,List.take_left,area_split,take_out sound (by rw [place,both]; rfl),← List.replicate_add,zeros,
    area_of,← List.append_assoc,← all_bytes_append]

end Areas

/-! ### Strings in the area -/

section Strings
variable {area bytes : List byte} {p : Nat} {w q r : Int} {arg name value : Arg}

theorem write_length (front : 0 ≤ w) (inside : w + bytes.length ≤ area.length) :
    (write area w bytes).length = area.length := by
  rw [write,List.length_append,List.length_append,List.length_take,List.length_drop]
  omega

/-- What is at a place behind the stores. -/
theorem getElem_write (front : 0 ≤ w) (inside : w + bytes.length ≤ area.length) (i : Nat) : (write area w bytes)[i]? =
    if w ≤ i ∧ i < w + bytes.length then bytes[i - w.toNat]? else area[i]? := by
  obtain ⟨k,rfl⟩ := Int.eq_ofNat_of_zero_le front
  have taken : (area.take k).length = k := by
    rw [List.length_take]
    omega
  rw [write,Int.toNat_natCast]
  by_cases before : i < k
  · rw [List.getElem?_append_left (by rw [taken]; exact before),List.getElem?_take_of_lt before,if_neg (by omega)]
  · rw [List.getElem?_append_right (by omega),taken]
    by_cases within : i < k + bytes.length
    · rw [List.getElem?_append_left (by omega),if_pos (by omega)]
    · have place : k + bytes.length + (i - k - bytes.length) = i := by omega
      rw [List.getElem?_append_right (by omega),List.getElem?_drop,if_neg (by omega),place]

/-- A string from its first byte on. -/
theorem string_at_cons {c : byte} (here : area[p]? = some c) :
    string_at area p = if c = 0#8 then [] else c :: string_at area (p + 1) := by
  obtain ⟨inside,same⟩ := List.getElem?_eq_some_iff.mp here
  rw [string_at,List.drop_eq_getElem_cons inside,same,string_at]
  by_cases zero : c = 0#8
  · rw [if_pos zero,List.takeWhile_cons_of_neg (by simpa using zero)]
  · rw [if_neg zero,List.takeWhile_cons_of_pos (by simpa using zero)]

theorem string_at_end (behind : area[p]? = none) : string_at area p = [] := by
  rw [string_at,List.drop_eq_nil_of_le (List.getElem?_eq_none_iff.mp behind)]
  rfl

theorem string_at_nonzero : 0#8 ∉ string_at area p := by
  intro zero
  have kept := List.mem_takeWhile_imp zero
  simp at kept

theorem read_nonzero (arg : Arg) : 0#8 ∉ arg.read area := by
  cases arg with
  | own s => exact s.2
  | place p => exact string_at_nonzero

/-- A string is its bytes and its 0. -/
theorem string_at_congr {area' : List byte} (n : Nat) : ∀ {p : Nat}, (string_at area p).length = n →
    (∀ i ≤ n, area'[p + i]? = area[p + i]?) → string_at area' p = string_at area p := by
  induction n with
  | zero =>
    intro p length same
    have here : area'[p]? = area[p]? := same 0 le_rfl
    rw [List.length_eq_zero_iff] at length
    rw [length]
    cases byte_here : area[p]? with
    | none => exact string_at_end (here.trans byte_here)
    | some c =>
      rw [string_at_cons byte_here] at length
      rw [string_at_cons (here.trans byte_here)]
      split at length
      · next zero => exact if_pos zero
      · cases length
  | succ n ih =>
    intro p length same
    have here : area'[p]? = area[p]? := same 0 (Nat.zero_le _)
    cases byte_here : area[p]? with
    | none =>
      rw [string_at_end byte_here] at length
      cases length
    | some c =>
      rw [string_at_cons byte_here] at length
      rw [string_at_cons byte_here,string_at_cons (here.trans byte_here)]
      split at length
      · cases length
      · next nonzero =>
        rw [if_neg nonzero,if_neg nonzero,ih (Nat.succ.inj length)]
        intro i below
        rw [Nat.add_assoc,Nat.add_comm 1]
        exact same (i + 1) (Nat.succ_le_succ below)

/-- A string stays as it is when the stores are behind its 0 or in front of it. -/
theorem string_at_write (front : 0 ≤ w) (inside : w + bytes.length ≤ area.length)
    (apart : p + (string_at area p).length < w ∨ w + bytes.length ≤ p) :
    string_at (write area w bytes) p = string_at area p := by
  refine string_at_congr _ rfl fun i within => ?_
  rw [getElem_write front inside,if_neg (by omega)]

/-- A string that is empty stays so when zeros are stored. -/
theorem string_at_cleared {n : Nat} (empty : string_at area p = []) (front : 0 ≤ w) (inside : w + n ≤ area.length) :
    string_at (write area w (List.replicate n 0#8)) p = [] := by
  have length : (List.replicate n 0#8).length = n := List.length_replicate
  by_cases within : w ≤ p ∧ p < w + n
  · have zero : (write area w (List.replicate n 0#8))[p]? = some 0#8 := by
      rw [getElem_write front (by rw [length]; exact inside),length,if_pos within,List.getElem?_replicate_of_lt (by omega)]
    exact (string_at_cons zero).trans (if_pos rfl)
  · rw [string_at_write front (by rw [length]; exact inside) (by rw [empty,length,List.length_nil]; omega),empty]

theorem Arg.Spared.write (spared : arg.Spared area q r) (after : q ≤ w) (before : w + bytes.length ≤ r) (front : 0 ≤ w)
    (inside : w + bytes.length ≤ area.length) :
    arg.read (write area w bytes) = arg.read area ∧ arg.Spared (Environ.write area w bytes) q r := by
  cases arg with
  | own s => exact ⟨rfl,trivial⟩
  | place p =>
    have same : string_at (Environ.write area w bytes) p = string_at area p :=
      string_at_write front inside (spared.imp (fun less => by omega) fun more => by omega)
    refine ⟨same,?_⟩
    rw [Arg.Spared,same]
    exact spared

/-- The stores up to `now` have been to the bytes from `q` up to `r`, and the strings are read as before them. -/
structure StillRead (area : List byte) (q r : Int) (name value : Arg) (now : List byte) : Prop where
  length : now.length = area.length
  name_read : name.read now = name.read area
  name_spared : name.Spared now q r
  value_read : value.read now = value.read area
  value_spared : value.Spared now q r

theorem StillRead.write {now : List byte} (still : StillRead area q r name value now) (after : q ≤ w)
    (before : w + bytes.length ≤ r) (front : 0 ≤ w) (inside : w + bytes.length ≤ area.length) :
    StillRead area q r name value (Environ.write now w bytes) := by
  have length := still.length
  obtain ⟨name_read,name_spared⟩ := still.name_spared.write after before front (by rw [length]; exact inside)
  obtain ⟨value_read,value_spared⟩ := still.value_spared.write after before front (by rw [length]; exact inside)
  exact ⟨(write_length front (by rw [length]; exact inside)).trans length,name_read.trans still.name_read,name_spared,
    value_read.trans still.value_read,value_spared⟩

/-- Strings that the stores of an entry spare are like the caller's own. -/
theorem put_entry_spared {now : List byte} (still : StillRead area q r name value now) (after : q ≤ w) (front : 0 ≤ w)
    (before : w + ((name.read area).length + (value.read area).length + 6) ≤ r)
    (inside : w + ((name.read area).length + (value.read area).length + 6) ≤ area.length) :
    put_entry now w name value =
      put_entry now w (.own ⟨name.read area,read_nonzero name⟩) (.own ⟨value.read area,read_nonzero value⟩) := by
  have one : ([0#8] : List byte).length = 1 := rfl
  have four (n : Nat) : (int_bytes n).length = 4 := rfl
  have next {now : List byte} (still : StillRead area q r name value now) (k : Int) (bytes : List byte) (forward : 0 ≤ k)
      (enough : k + bytes.length ≤ (name.read area).length + (value.read area).length + 6) :
      StillRead area q r name value (write now (w + k) bytes) :=
    still.write (by omega) (by omega) (by omega) (by omega)
  have named := next still 0 (name.read area ++ [0#8]) le_rfl (by rw [List.length_append,one]; omega)
  have ended := next named (name.read area).length [0#8] (by omega) (by rw [one]; omega)
  have counted := next ended ((name.read area).length + 1) (int_bytes (value.read area).length) (by omega)
    (by rw [four]; omega)
  have valued := next counted ((name.read area).length + 1 + 4) (value.read area ++ [0#8]) (by omega)
    (by rw [List.length_append,one]; omega)
  rw [add_zero] at named ended counted valued
  simp only [← add_assoc] at counted valued
  simp only [put_entry]
  rw [still.name_read,named.name_read,ended.value_read,counted.value_read,valued.value_read]
  rfl

/-- A value is read as before when its room is cleared, if it is empty or lies elsewhere. -/
theorem Arg.read_cleared {n : Nat} (kept : arg.read area = [] ∨ arg.Spared area w (w + n)) (front : 0 ≤ w)
    (inside : w + n ≤ area.length) : arg.read (Environ.write area w (List.replicate n 0#8)) = arg.read area := by
  have length : (List.replicate n 0#8).length = n := List.length_replicate
  obtain empty | spared := kept
  · cases arg with
    | own s => rfl
    | place p => exact (string_at_cleared empty front inside).trans empty.symm
  · exact (spared.write le_rfl (by rw [length]) front (by rw [length]; exact inside)).1

end Strings

/-! ### What a call does -/

section Calls
variable {behind : Int → byte} {rounds : Nat} {area name value : List byte} {cur : Int}
  {last : List byte → Option (List byte)} {entries left right : List Entry} {e : Entry}

theorem repr_fresh : Repr (List.replicate INITSIZE 0#8) 0 (fun _ => none) [] where
  sound := fun _ absent => absurd absent List.not_mem_nil
  distinct := List.nodup_nil
  area_eq := rfl
  fits := Nat.zero_le _
  cur_eq := rfl
  last_eq := by simp

/-- The entries are the new one and those of the other names. -/
theorem Repr.put {entries' : List Entry} (repr : Repr area cur last entries) {new : Entry} (sound : new.Sound)
    (distinct : (entries'.map Entry.name).Nodup) (fits : (all_bytes entries').length ≤ INITSIZE)
    (among : ∀ x, x ∈ entries' ↔ x = new ∨ x ∈ entries ∧ x.name ≠ new.name) :
    Repr (area_of entries') (all_bytes entries').length (Function.update last new.name (some new.value)) entries' where
  sound := fun x x_among => by
    obtain same | ⟨old,_⟩ := (among x).mp x_among
    · exact same ▸ sound
    · exact repr.sound x old
  distinct := distinct
  area_eq := rfl
  fits := fits
  cur_eq := rfl
  last_eq := fun n v => by
    by_cases same : n = new.name
    · rw [same,Function.update_self,Option.some_inj]
      constructor
      · exact fun value => ⟨new,(among new).mpr (.inl rfl),rfl,value⟩
      · rintro ⟨x,x_among,x_name,x_value⟩
        obtain same | ⟨_,other⟩ := (among x).mp x_among
        · exact same ▸ x_value
        · exact absurd x_name other
    · rw [Function.update_of_ne same,repr.last_eq]
      constructor
      · rintro ⟨x,old,x_name,x_value⟩
        exact ⟨x,(among x).mpr (.inr ⟨old,x_name ▸ same⟩),x_name,x_value⟩
      · rintro ⟨x,x_among,x_name,x_value⟩
        obtain is_new | ⟨old,_⟩ := (among x).mp x_among
        · exact absurd (is_new ▸ x_name).symm same
        · exact ⟨x,old,x_name,x_value⟩

/-- The entries of the other names. -/
theorem other_entries (distinct : ((left ++ e :: right).map Entry.name).Nodup) (x : Entry) :
    x ∈ left ++ e :: right ∧ x.name ≠ e.name ↔ x ∈ left ++ right := by
  rw [List.map_append,List.map_cons,List.nodup_middle,List.nodup_cons,← List.map_append] at distinct
  constructor
  · rintro ⟨among,other⟩
    have cases := List.perm_middle.mem_iff.mp among
    obtain same | rest := List.mem_cons.mp cases
    · exact absurd (congrArg Entry.name same) other
    · exact rest
  · intro rest
    exact ⟨List.perm_middle.mem_iff.mpr (List.mem_cons_of_mem _ rest),
      fun same => distinct.1 (same ▸ List.mem_map_of_mem rest)⟩

theorem Repr.put_behind (repr : Repr area cur last entries) (sound : Entry.Sound ⟨name,value.length,value⟩)
    (absent : ∀ e ∈ entries, e.name ≠ name)
    (fits : (all_bytes entries).length + Entry.size ⟨name,value.length,value⟩ ≤ INITSIZE) :
    Repr (area_of (entries ++ [⟨name,value.length,value⟩])) (all_bytes (entries ++ [⟨name,value.length,value⟩])).length
      (Function.update last name (some value)) (entries ++ [⟨name,value.length,value⟩]) := by
  refine repr.put sound ?_ ?_ fun x => ?_
  · rw [List.map_append,List.map_singleton,List.nodup_append_comm,List.singleton_append,List.nodup_cons]
    refine ⟨fun among => ?_,repr.distinct⟩
    obtain ⟨e,e_among,same⟩ := List.mem_map.mp among
    exact absent e e_among same
  · rw [all_bytes_append,all_bytes_singleton,List.length_append,Entry.bytes_length sound]
    exact fits
  · rw [List.mem_append,List.mem_singleton,or_comm]
    exact or_congr_right (and_iff_left_of_imp (absent x)).symm

theorem Repr.put_value (repr : Repr area cur last (left ++ e :: right)) (sound : Entry.Sound { e with value }) :
    Repr (area_of (left ++ { e with value } :: right)) cur (Function.update last e.name (some value))
      (left ++ { e with value } :: right) := by
  have e_sound := repr.sound e (List.mem_append_right _ List.mem_cons_self)
  have same_length : (all_bytes (left ++ { e with value } :: right)).length = (all_bytes (left ++ e :: right)).length := by
    rw [all_bytes_length_split sound,all_bytes_length_split e_sound]
    rfl
  rw [repr.cur_eq,← same_length]
  refine repr.put sound ?_ (same_length ▸ repr.fits) fun x => ?_
  · have distinct := repr.distinct
    rw [List.map_append,List.map_cons] at distinct ⊢
    exact distinct
  · rw [other_entries repr.distinct x]
    exact List.perm_middle.mem_iff.trans List.mem_cons

/-- The entry is taken out and put behind the others. -/
theorem Repr.put_moved (repr : Repr area cur last (left ++ e :: right)) (sound : Entry.Sound ⟨e.name,value.length,value⟩)
    (fits : (all_bytes (left ++ right)).length + Entry.size ⟨e.name,value.length,value⟩ ≤ INITSIZE) :
    Repr (area_of (left ++ right ++ [⟨e.name,value.length,value⟩]))
      (all_bytes (left ++ right ++ [⟨e.name,value.length,value⟩])).length (Function.update last e.name (some value))
      (left ++ right ++ [⟨e.name,value.length,value⟩]) := by
  refine repr.put sound ?_ ?_ fun x => ?_
  · have distinct := repr.distinct
    rw [List.map_append,List.map_cons,List.nodup_middle,← List.map_append] at distinct
    rw [List.map_append,List.map_singleton,List.nodup_append_comm,List.singleton_append]
    exact distinct
  · rw [all_bytes_append _ [_],all_bytes_singleton,List.length_append,Entry.bytes_length sound]
    exact fits
  · rw [other_entries repr.distinct x,List.mem_append (s := left ++ right),List.mem_singleton,or_comm]

theorem Repr.last_none (repr : Repr area cur last entries) (absent : ∀ e ∈ entries, e.name ≠ name) :
    last name = none := by
  refine Option.eq_none_iff_forall_ne_some.mpr fun v set => ?_
  obtain ⟨e,among,same,_⟩ := (repr.last_eq name v).mp set
  exact absent e among same

theorem Repr.search (repr : Repr area cur last entries) (nonzero : 0#8 ∉ name) (stays : Stays behind area name)
    (enough : INITSIZE ≤ rounds) :
    EndsAt behind area name [] entries (search (view behind area) name rounds 0) := by
  have count := entries_length repr.sound
  have fits := repr.fits
  have positive : 0 < INITSIZE := by decide
  exact search_ends (k := INITSIZE - (all_bytes entries).length) nonzero stays entries [] rounds repr.sound
    repr.area_eq .start (by omega)

theorem int_small {n : Int} (positive : 0 ≤ n) (small : n < 2 ^ 31) : int n = n := by
  rw [int,BitVec.toInt_ofInt]
  exact Int.bmod_eq_of_le (by omega) (by omega)

theorem int_newlen (short : name.length + value.length + 6 < 2 ^ 31) :
    int (name.length + value.length + 4 + SIZE_OF_END_CHAR + SIZE_OF_END_CHAR) =
      Entry.size ⟨name,value.length,value⟩ := by
  rw [int_small (by omega) (by rw [SIZE_OF_END_CHAR]; omega),Entry.size,SIZE_OF_END_CHAR]
  push_cast
  ring

theorem int_size (small : e.size < 2 ^ 31) : int (e.name.length + 1 + (e.room + 4 + SIZE_OF_END_CHAR)) = e.size := by
  rw [Entry.size] at small ⊢
  rw [SIZE_OF_END_CHAR,int_small (by omega) (by push_cast; omega)]
  push_cast
  ring

/-- The stores of a new entry whose strings they spare. -/
theorem put_spared {name_arg value_arg : Arg} {q r : Int} (still : StillRead area q r name_arg value_arg (area_of entries))
    (name_eq : name_arg.read area = name) (value_eq : value_arg.read area = value)
    (sound : Entry.Sound ⟨name,value.length,value⟩) (after : q ≤ (all_bytes entries).length)
    (before : (all_bytes entries).length + (name.length + value.length + 6) ≤ r)
    (fits : (all_bytes entries).length + Entry.size ⟨name,value.length,value⟩ ≤ INITSIZE) :
    put_entry (area_of entries) (all_bytes entries).length name_arg value_arg =
      (area_of (entries ++ [⟨name,value.length,value⟩]),
        ((all_bytes (entries ++ [⟨name,value.length,value⟩])).length : Int)) := by
  subst name_eq
  subst value_eq
  have size : Entry.size ⟨name_arg.read area,(value_arg.read area).length,value_arg.read area⟩ =
    (name_arg.read area).length + (value_arg.read area).length + 6 := rfl
  have length : area.length = INITSIZE := still.length.symm.trans (area_length (by omega))
  rw [put_entry_spared still after (Int.natCast_nonneg _) before (by rw [length]; omega)]
  exact put_new sound fits

/-- What `setenv` leaves: the name is set, or the environment is as before. -/
def Outcome (area : List byte) (cur : Int) (last : List byte → Option (List byte)) (name value : List byte)
    (overwrite : Int) (outcome : Option (Errno × Env)) : Prop :=
  ∃ result env, outcome = some (result,env) ∧
    ((result = .ok ∧ (overwrite = 0 → last name = none) ∧ ∃ area entries, env.environ = some area ∧
        Repr area env.cur_env (Function.update last name (some value)) entries) ∨
      (result ≠ .ok ∧ env = ⟨some area,cur⟩))

theorem setenv_repr {name_arg value_arg : Arg} (overwrite : Int) (repr : Repr area cur last entries)
    (name_eq : name_arg.read area = name) (value_eq : value_arg.read area = value)
    (short : name.length + value.length + 6 < 2 ^ 31)
    (careful : name ≠ [] → 61#8 ∉ name → cur + (name.length + value.length + 6) ≤ INITSIZE →
      Stays behind area name ∧ Spares behind ⟨some area,cur⟩ name_arg value_arg overwrite)
    (enough : INITSIZE ≤ rounds) :
    Outcome area cur last name value overwrite (setenv behind rounds ⟨some area,cur⟩ name_arg value_arg overwrite) := by
  have nonzero : 0#8 ∉ name := name_eq ▸ read_nonzero name_arg
  have value_nonzero : 0#8 ∉ value := value_eq ▸ read_nonzero value_arg
  have area_is : (⟨some area,cur⟩ : Env).area = area := rfl
  unfold setenv
  simp only [area_is,name_eq,value_eq]
  by_cases wrong : name = [] ∨ 61#8 ∈ name
  · rw [if_pos wrong]
    exact ⟨.EINVAL,_,rfl,.inr ⟨by decide,rfl⟩⟩
  obtain ⟨some_name,no_equals⟩ := not_or.mp wrong
  have newlen := int_newlen short
  rw [if_neg wrong]
  simp only [Option.isSome_some,if_true,newlen]
  by_cases full : cur + Entry.size ⟨name,value.length,value⟩ < 0 ∨ cur + Entry.size ⟨name,value.length,value⟩ > INITSIZE
  · rw [if_pos full]
    exact ⟨.ENOMEM,_,rfl,.inr ⟨by decide,rfl⟩⟩
  have size : Entry.size ⟨name,value.length,value⟩ = name.length + value.length + 6 := rfl
  have room := not_lt.mp (not_or.mp full).2
  obtain ⟨stays,spares⟩ := careful some_name no_equals (by rw [size] at room; exact_mod_cast room)
  unfold Spares at spares
  simp only [area_is,name_eq,value_eq] at spares
  have value_short : value.length < 2 ^ 31 := by omega
  have new_sound : Entry.Sound ⟨name,value.length,value⟩ := ⟨some_name,nonzero,value_nonzero,le_rfl,value_short⟩
  have cur_eq := repr.cur_eq
  have length : area.length = INITSIZE := repr.area_eq ▸ area_length repr.fits
  rw [if_neg full]
  obtain ⟨left,e,right,split,same,found⟩ | ⟨absent,ends,zero⟩ := repr.search nonzero stays enough
  · rw [List.nil_append] at found
    have spares := spares _ (search_passes _ .start found)
    rw [found,Option.map_some]
    have e_sound := repr.sound e (split ▸ List.mem_append_right _ List.mem_cons_self)
    subst split
    subst same
    have e_size : e.size = e.name.length + e.room + 6 := rfl
    have total := @all_bytes_length_split left right e e_sound
    have both : (all_bytes (left ++ right)).length = (all_bytes left).length + (all_bytes right).length := by
      rw [all_bytes_append,List.length_append]
    have fits := repr.fits
    have area_small : INITSIZE < 2 ^ 31 := by decide
    have e_small : e.size < 2 ^ 31 := by omega
    have area_eq := repr.area_eq.trans area_split
    have some_byte : view behind area (all_bytes left).length ≠ 0#8 := area_eq ▸ Entry.first_byte e_sound
    have compared : strcmp_eq (view behind area) (all_bytes left).length e.name = true :=
      area_eq ▸ (Entry.compared e_sound e_sound.name_nonzero).mpr rfl
    have name_int : int (e.name.length + 1) = e.name.length + 1 := int_small (by omega) (by omega)
    have tmplen : read_int (view behind area) ((all_bytes left).length + (e.name.length + 1)) = e.room :=
      area_eq ▸ Entry.read_room e_sound
    have oldlen := int_size e_small
    rw [if_neg some_byte] at spares ⊢
    -- the entry keeps its room when the new value fits into it
    by_cases may : overwrite = 1
    · have set : overwrite = 0 → last e.name = none := fun zero => absurd (zero.symm.trans may) (by decide)
      have spares := spares compared may
      rw [tmplen] at spares
      simp only [if_pos may,name_int,tmplen,oldlen,Int.toNat_natCast]
      by_cases fits_old : (e.size : Int) ≥ Entry.size ⟨e.name,value.length,value⟩
      · have value_fits : (value.length : Int) ≤ e.room := by
          rw [size,e_size] at fits_old
          omega
        have value_sound : Entry.Sound { e with value } :=
          ⟨some_name,nonzero,value_nonzero,by exact_mod_cast value_fits,e_sound.small⟩
        have room_eq : ((e.room : Int) + SIZE_OF_END_CHAR).toNat = e.room + 1 := rfl
        rw [if_pos value_fits,← value_eq] at spares
        rw [if_pos fits_old,room_eq,Arg.read_cleared (by push_cast; exact spares) (by omega)
          (by rw [length]; push_cast; omega),value_eq,repr.area_eq,put_in_place e_sound value_sound rfl]
        exact ⟨.ok,_,rfl,.inl ⟨rfl,set,_,_,rfl,repr.put_value value_sound⟩⟩
      · have value_longer : ¬(value.length : Int) ≤ e.room := by
          rw [size,e_size] at fits_old
          omega
        rw [if_neg value_longer] at spares
        have place : cur - e.size = ((all_bytes (left ++ right)).length : Nat) := by omega
        have tail : ((all_bytes left).length + (e.name.length + 1) + 4 + (e.room + SIZE_OF_END_CHAR) : Int) =
            (all_bytes left).length + e.size := by
          rw [e_size,SIZE_OF_END_CHAR]
          push_cast
          ring
        have new_fits : (all_bytes (left ++ right)).length + Entry.size ⟨e.name,value.length,value⟩ ≤ INITSIZE := by omega
        have moved := move_down e_sound repr.fits rfl (rfl : ((all_bytes (left ++ right)).length : Int) = _)
        -- the strings are still there when the others have moved and the bytes behind them are cleared
        have still : StillRead area (all_bytes left).length (cur + (value.length - e.room)) name_arg value_arg
            (area_of (left ++ right)) := by
          rw [← moved,← repr.area_eq,← cur_eq]
          generalize slice_eq : (area.drop ((all_bytes left).length + e.size : Int).toNat).take
            (cur - ((all_bytes left).length + e.size)).toNat = slice
          have slice_length : slice.length ≤ (all_bytes right).length := by
            rw [← slice_eq,List.length_take]
            omega
          have zeros : (List.replicate e.size 0#8).length = e.size := List.length_replicate
          have first : StillRead area (all_bytes left).length (cur + (value.length - e.room)) name_arg value_arg area :=
            ⟨rfl,rfl,spares.1,rfl,spares.2⟩
          have closed : StillRead area (all_bytes left).length (cur + (value.length - e.room)) name_arg value_arg
              (write area (all_bytes left).length slice) :=
            first.write le_rfl (by omega) (Int.natCast_nonneg _) (by omega)
          exact closed.write (by omega) (by rw [zeros]; omega) (Int.natCast_nonneg _) (by rw [zeros]; omega)
        rw [if_neg fits_old,tail,place,cur_eq,repr.area_eq,moved,
          put_spared still name_eq value_eq new_sound (by omega) (by omega) new_fits]
        exact ⟨.ok,_,rfl,.inl ⟨rfl,set,_,_,rfl,repr.put_moved new_sound new_fits⟩⟩
    · rw [if_neg may]
      exact ⟨.EEXIST,_,rfl,.inr ⟨by decide,rfl⟩⟩
  · rw [List.nil_append] at ends zero
    have spares := spares _ (search_passes _ .start ends)
    rw [if_pos zero] at spares
    have fits : (all_bytes entries).length + Entry.size ⟨name,value.length,value⟩ ≤ INITSIZE := by
      rw [cur_eq] at room
      exact_mod_cast room
    have still : StillRead area cur (cur + (name.length + value.length + 6)) name_arg value_arg (area_of entries) := by
      rw [← repr.area_eq]
      exact ⟨rfl,rfl,spares.1,rfl,spares.2⟩
    rw [ends,Option.map_some,if_pos zero,cur_eq]
    have put := put_spared still name_eq value_eq new_sound (by rw [cur_eq]) (by rw [cur_eq]) fits
    rw [← repr.area_eq] at put
    rw [put]
    exact ⟨.ok,_,rfl,.inl ⟨rfl,fun _ => repr.last_none absent,_,_,rfl,repr.put_behind new_sound absent fits⟩⟩

theorem stays_fresh : Stays behind (List.replicate INITSIZE 0#8) name := by
  have zero : view behind (List.replicate INITSIZE 0#8) 0 = 0#8 := by
    rw [view,if_pos le_rfl,List.getElem?_replicate,if_pos (by decide)]
    rfl
  intro p passes
  have first : p = 0 := by
    induction passes with
    | start => rfl
    | next passes entry _ ih => exact absurd (ih ▸ zero) entry
  rw [first,List.length_replicate]
  exact ⟨by decide,.inl zero⟩

/-- The first call makes the area. -/
theorem setenv_first {env : Env} {name value : Arg} {overwrite : Int} (fresh : env.environ = none)
    (wrong : ¬(name.read env.area = [] ∨ 61#8 ∈ name.read env.area)) :
    setenv behind rounds env name value overwrite = setenv behind rounds ⟨some env.area,0⟩ name value overwrite := by
  have area_is : (⟨some env.area,0⟩ : Env).area = env.area := rfl
  unfold setenv
  simp only [area_is]
  rw [if_neg wrong,if_neg wrong,fresh]
  rfl

end Calls

section Runs
variable {behind : Int → byte} {rounds : Nat} {s : System} {name value : Arg}

/-- What `setenv` leaves of a state. -/
def Left (s : System) (name value : List byte) (overwrite : Int) (outcome : Option (Errno × Env)) : Prop :=
  ∃ result env, outcome = some (result,env) ∧
    ((result = .ok ∧ (overwrite = 0 → s.last name = none) ∧ Kept ⟨env,Function.update s.last name (some value)⟩) ∨
      (result ≠ .ok ∧ Kept { s with env } ∧ (s.last name ≠ none → env = s.env)))

theorem setenv_left (enough : INITSIZE ≤ rounds) (kept : Kept s) {overwrite : Int}
    (careful : Careful behind s (.setenv name value overwrite)) :
    Left s (name.read s.env.area) (value.read s.env.area) overwrite (setenv behind rounds s.env name value overwrite) := by
  obtain ⟨short,careful⟩ := careful
  obtain fresh | ⟨area,entries,env_eq,repr⟩ := kept
  · subst fresh
    by_cases wrong : name.read start.env.area = [] ∨ 61#8 ∈ name.read start.env.area
    · refine ⟨.EINVAL,start.env,?_,.inr ⟨by decide,.inl rfl,fun _ => rfl⟩⟩
      unfold setenv
      exact if_pos wrong
    · obtain ⟨result,env,eq,set | ⟨failed,same⟩⟩ := setenv_repr overwrite repr_fresh rfl rfl short
        (fun some_name no_equals room => ⟨stays_fresh,(careful some_name no_equals room).2⟩) enough
      · obtain ⟨ok,unset,area,entries,env_eq,repr⟩ := set
        exact ⟨result,env,(setenv_first rfl wrong).trans eq,.inl ⟨ok,unset,.inr ⟨area,entries,env_eq,repr⟩⟩⟩
      · exact ⟨result,env,(setenv_first rfl wrong).trans eq,
          .inr ⟨failed,.inr ⟨_,_,by rw [same],by rw [same]; exact repr_fresh⟩,fun set => absurd rfl set⟩⟩
  · have env_is : s.env = ⟨some area,s.env.cur_env⟩ := by rw [← env_eq]
    have area_is : s.env.area = area := by rw [Env.area,env_eq,Option.getD_some]
    rw [area_is] at short careful ⊢
    obtain ⟨result,env,eq,set | ⟨failed,same⟩⟩ := setenv_repr overwrite repr rfl rfl short
      (fun some_name no_equals room => ⟨(careful some_name no_equals room).1 area env_eq,
        env_is ▸ (careful some_name no_equals room).2⟩) enough
    · obtain ⟨ok,unset,area,entries,env_eq,repr⟩ := set
      exact ⟨result,env,env_is ▸ eq,.inl ⟨ok,unset,.inr ⟨area,entries,env_eq,repr⟩⟩⟩
    · exact ⟨result,env,env_is ▸ eq,
        .inr ⟨failed,.inr ⟨area,entries,by rw [same],by rw [same]; exact repr⟩,fun _ => same.trans env_is.symm⟩⟩

theorem step_kept (enough : INITSIZE ≤ rounds) (kept : Kept s) (op : Op) (careful : Careful behind s op) :
    Kept (step behind rounds s op) := by
  cases op with
  | getenv name => exact kept
  | setenv name value overwrite =>
    obtain ⟨result,env,eq,⟨ok,_,kept⟩ | ⟨failed,kept,_⟩⟩ := setenv_left enough kept careful
    · rw [step,eq,ok]
      exact kept
    · rw [step,eq]
      cases result with
      | ok => exact absurd rfl failed
      | EINVAL | ENOMEM | EEXIST => exact kept

theorem run_kept (enough : INITSIZE ≤ rounds) (run : CarefulRun behind rounds s) : Kept s := by
  induction run with
  | start => exact .inl rfl
  | step _ op careful ih => exact step_kept enough ih op careful

theorem getenv_right (enough : INITSIZE ≤ rounds) (kept : Kept s) (careful : Careful behind s (.getenv name)) :
    Right behind rounds s (.getenv name) := by
  obtain fresh | ⟨area,entries,env_eq,repr⟩ := kept
  · subst fresh
    rfl
  have area_is : s.env.area = area := by rw [Env.area,env_eq,Option.getD_some]
  rw [Right,getenv,area_is,env_eq]
  dsimp only
  obtain ⟨left,e,right,split,same,found⟩ | ⟨absent,ends,zero⟩ :=
    repr.search (read_nonzero name) (careful area env_eq) enough
  · have among : e ∈ entries := split ▸ List.mem_append_right _ List.mem_cons_self
    have e_sound := repr.sound e among
    have area_eq := repr.area_eq
    rw [split,area_split] at area_eq
    rw [List.nil_append] at found
    have some_byte : view behind area (all_bytes left).length ≠ 0#8 := area_eq ▸ Entry.first_byte e_sound
    rw [(repr.last_eq (name.read area) e.value).mpr ⟨e,among,same,rfl⟩,found,Option.map_some,if_neg some_byte,← same]
    refine ⟨_,area,rfl,rfl,?_⟩
    rw [add_assoc (_ : Int) _ 1]
    exact area_eq ▸ Entry.read_value e_sound
  · rw [List.nil_append] at ends zero
    rw [repr.last_none absent,ends,Option.map_some,if_pos zero]

/-- In every run whose calls all meet the condition, a call that meets it does what the law says. -/
theorem environment_law (enough : INITSIZE ≤ rounds) (run : CarefulRun behind rounds s) (op : Op)
    (careful : Careful behind s op) : Right behind rounds s op := by
  have kept := run_kept enough run
  cases op with
  | getenv name => exact getenv_right enough kept careful
  | setenv name value overwrite =>
    obtain ⟨result,env,eq,⟨_,unset,_⟩ | ⟨failed,_,same⟩⟩ := setenv_left enough kept careful
    · exact ⟨result,env,eq,fun zero set => absurd (unset zero) set⟩
    · exact ⟨result,env,eq,fun _ set => ⟨failed,same set⟩⟩

end Runs

/-! ### The values of two names -/

def A : Arg := .own ⟨[65#8],by decide⟩
def B : Arg := .own ⟨[66#8],by decide⟩
def AB : Arg := .own ⟨[65#8,66#8],by decide⟩
def C : Arg := .own ⟨[67#8],by decide⟩
def one : Arg := .own ⟨[49#8],by decide⟩
def twelve : Arg := .own ⟨[49#8,50#8],by decide⟩

/-- What is behind the area is 0. -/
def run (calls : List Op) : System := calls.foldl (step (fun _ => 0#8) INITSIZE) start

/-- The loop comes only to these places, and may. -/
abbrev Within (area name : List byte) (places : List Int) : Prop :=
  0 ∈ places ∧ ∀ p ∈ places, area[p.toNat]?.isSome = true ∧
    (view (fun _ => 0#8) area p = 0#8 ∨ strcmp_eq (view (fun _ => 0#8) area) p name = true ∨
      (strlen_eq (view (fun _ => 0#8) area) p name.length ∧ p + name.length + SIZE_OF_END_CHAR + 4 +
        (read_int (view (fun _ => 0#8) area) (p + name.length + SIZE_OF_END_CHAR) + SIZE_OF_END_CHAR) ∈ places))

instance (mem : Int → byte) (p : Int) (n : Nat) : Decidable (strlen_eq mem p n) :=
  inferInstanceAs (Decidable ((∀ i < n, mem (p+i) ≠ 0#8) ∧ mem (p+n) = 0#8))

theorem Within.passes {area name : List byte} {places : List Int} (within : Within area name places) {p : Int}
    (passes : Passes (fun _ => 0#8) area name p) : p ∈ places := by
  induction passes with
  | start => exact within.1
  | next _ entry other ih =>
    obtain zero | found | ⟨_,next⟩ := (within.2 _ ih).2
    · exact absurd zero entry
    · exact absurd found (Bool.eq_false_iff.mp other)
    · exact next

theorem Within.stays {calls : List Op} {name : Arg} {places : List Int}
    (within : Within (run calls).env.area (name.read (run calls).env.area) places) :
    ∀ area, (run calls).env.environ = some area → Stays (fun _ => 0#8) area (name.read area) := by
  intro area env_eq p passes
  rw [Env.area,env_eq,Option.getD_some] at within
  obtain ⟨some_byte,case⟩ := within.2 p (within.passes passes)
  obtain ⟨here,_⟩ := List.getElem?_eq_some_iff.mp (Option.get_mem some_byte)
  have inside : p < area.length := by omega
  obtain zero | found | ⟨as_long,_⟩ := case
  · exact ⟨inside,.inl zero⟩
  · exact ⟨inside,.inr (.inl found)⟩
  · exact ⟨inside,.inr (.inr as_long)⟩

/-- Nothing that is stored touches the strings of the caller's own. -/
theorem spares_own {behind : Int → byte} {env : Env} {name value : CString} {overwrite : Int} :
    Spares behind env (.own name) (.own value) overwrite := by
  intro p _
  split
  · exact ⟨trivial,trivial⟩
  · intro _ _
    dsimp only
    split
    · exact .inr trivial
    · exact ⟨trivial,trivial⟩

/-- A value is replaced by a longer one, which another name is then set to where it stands. -/
theorem environment_law_longer :
    Right (fun _ => 0#8) INITSIZE (run [.setenv A one 0,.setenv A twelve 1,.setenv B (.place ⟨6,by decide⟩) 0])
      (.getenv B) := by
  have first : Careful (fun _ => 0#8) start (.setenv A one 0) :=
    ⟨by decide +kernel,fun _ _ _ => ⟨fun _ absent => (by cases absent),spares_own⟩⟩
  have at_first : Within (run [.setenv A one 0]).env.area (A.read (run [.setenv A one 0]).env.area) [0] := by decide +kernel
  have second : Careful (fun _ => 0#8) (run [.setenv A one 0]) (.setenv A twelve 1) :=
    ⟨by decide +kernel,fun _ _ _ => ⟨at_first.stays,spares_own⟩⟩
  have behind_first : Within (run [.setenv A one 0,.setenv A twelve 1]).env.area
    (B.read (run [.setenv A one 0,.setenv A twelve 1]).env.area) [0,9] := by decide +kernel
  have third : Careful (fun _ => 0#8) (run [.setenv A one 0,.setenv A twelve 1]) (.setenv B (.place ⟨6,by decide⟩) 0) := by
    refine ⟨by decide +kernel,fun _ _ _ => ⟨behind_first.stays,fun p passes => ?_⟩⟩
    have place := behind_first.passes passes
    rw [List.mem_cons,List.mem_singleton] at place
    obtain rfl | rfl := place
    · rw [if_neg (by decide +kernel)]
      exact fun _ zero => absurd zero (by decide)
    · rw [if_pos (by decide +kernel)]
      exact ⟨trivial,.inl (by decide +kernel)⟩
  have at_second : Within (run [.setenv A one 0,.setenv A twelve 1,.setenv B (.place ⟨6,by decide⟩) 0]).env.area
      (B.read (run [.setenv A one 0,.setenv A twelve 1,.setenv B (.place ⟨6,by decide⟩) 0]).env.area) [0,9] := by
    decide +kernel
  have one_set : CarefulRun (fun _ => 0#8) INITSIZE (run [.setenv A one 0]) := .step .start _ first
  have longer : CarefulRun (fun _ => 0#8) INITSIZE (run [.setenv A one 0,.setenv A twelve 1]) := .step one_set _ second
  exact environment_law le_rfl (.step longer _ third) (.getenv B) at_second.stays

/-- `AB` is set, then `C`, and `getenv` steps over `AB` by one byte too few. -/
theorem second_name_lost :
    ((setenv (fun _ => 0#8) INITSIZE (run []).env AB one 1).map Prod.fst = some .ok ∧
      (setenv (fun _ => 0#8) INITSIZE (run [.setenv AB one 1]).env C twelve 1).map Prod.fst = some .ok) ∧
    ¬ Right (fun _ => 0#8) INITSIZE (run [.setenv AB one 1,.setenv C twelve 1]) (.getenv C) := by
  have set : (run [.setenv AB one 1,.setenv C twelve 1]).last [67#8] = some [49#8,50#8] := by decide +kernel
  have lost : getenv (fun _ => 0#8) INITSIZE (run [.setenv AB one 1,.setenv C twelve 1]).env C = some none := by
    decide +kernel
  refine ⟨⟨by decide +kernel,by decide +kernel⟩,fun right => ?_⟩
  have read : C.read (run [.setenv AB one 1,.setenv C twelve 1]).env.area = [67#8] := rfl
  rw [Right,read,set,lost] at right
  obtain ⟨_,_,found,_⟩ := right
  cases found

end GridOS.Environ
