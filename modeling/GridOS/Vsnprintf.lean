import GridOS.Vsprintf
import GridOS.Words

/-!
`vsnprintf` with its parser of conversions, on a target with 32 bits. The strings and the `va_format`s that
arguments point to are the caller's and lie apart from the buffer, and what `%n` stores goes to a list. As in
`number`, an `int` that leaves its range and an argument that is missing are undefined. A format that asks for no other
format puts out the same text for every buffer, and each buffer shows as much of it as it has room for.
-/
namespace GridOS.Vsnprintf
open GridOS.Environ (byte)
open GridOS.H2d
open GridOS.Vsprintf
open GridOS.Words

def chr (c : Char) : byte := BitVec.ofNat 8 c.toNat

def isdigit (c : byte) : Bool := chr '0' ≤ c && c ≤ chr '9'

def isalnum (c : byte) : Bool :=
  isdigit c || (chr 'a' ≤ c && c ≤ chr 'z') || (chr 'A' ≤ c && c ≤ chr 'Z')

inductive format_type
  | NONE | WIDTH | PRECISION | CHAR | STR | PTR | PERCENT_CHAR | INVALID | LONG_LONG | ULONG | LONG | UBYTE
  | BYTE | USHORT | SHORT | UINT | INT | NRCHARS | SIZE_T
  deriving DecidableEq

/-- No qualifier is -1 in C. -/
structure full_spec extends printf_spec where
  type : format_type
  qualifier : Option byte

/-- What the caller's pointers point to. -/
structure Caller where
  text : BitVec 32 → List byte
  va_format : BitVec 32 → List byte × List (BitVec 32)

/-! ### The parser -/

/-- The first character, or the end of the string. -/
def peek (fmt : List byte) : byte := fmt.headD 0#8

def skip_atoi (i : Int) : List byte → Option (Int × List byte)
  | [] => some (i,[])
  | c :: fmt =>
    if isdigit c then
      (int (i * 10)).bind fun i => (int (i + c.toNat)).bind fun i => skip_atoi (i - 48) fmt
    else some (i,c :: fmt)

/-- The flags behind the first `%`. -/
def skip_flags (flags : BitVec 32) : List byte → BitVec 32 × List byte
  | [] => (flags,[])
  | c :: fmt =>
    if c = chr '-' then skip_flags (flags ||| LEFT) fmt else
    if c = chr '+' then skip_flags (flags ||| PLUS) fmt else
    if c = chr ' ' then skip_flags (flags ||| SPACE) fmt else
    if c = chr '#' then skip_flags (flags ||| SPECIAL) fmt else
    if c = chr '0' then skip_flags (flags ||| ZEROPAD) fmt else (flags,c :: fmt)

/-- The size of a number. -/
def number_type (flags : BitVec 32) (qualifier : Option byte) : format_type :=
  let signed := decide (flags &&& SIGN ≠ 0#32)
  if qualifier = some (chr 'L') then .LONG_LONG else
  if qualifier = some (chr 'l') then (if signed then .LONG else .ULONG) else
  if qualifier = some (chr 'Z') ∨ qualifier = some (chr 'z') then .SIZE_T else
  if qualifier = some (chr 'H') then (if signed then .BYTE else .UBYTE) else
  if qualifier = some (chr 'h') then (if signed then .SHORT else .USHORT) else
  if signed then .INT else .UINT

/-- The letter of the conversion; what is left of the format starts behind it but for `p` and a wrong one. -/
def decode_type (spec : full_spec) (fmt : List byte) : full_spec × List byte :=
  let c := peek fmt
  let num (spec : full_spec) := ({ spec with type := number_type spec.flags spec.qualifier },fmt.tail)
  let spec := { spec with base := 10#32 }
  if c = chr 'c' then ({ spec with type := .CHAR },fmt.tail) else
  if c = chr 's' then ({ spec with type := .STR },fmt.tail) else
  if c = chr 'p' then ({ spec with type := .PTR },fmt) else
  if c = chr 'n' then ({ spec with type := .NRCHARS },fmt.tail) else
  if c = chr '%' then ({ spec with type := .PERCENT_CHAR },fmt.tail) else
  if c = chr 'o' then num { spec with base := 8#32 } else
  if c = chr 'x' then num { spec with flags := spec.flags ||| SMALL, base := 16#32 } else
  if c = chr 'X' then num { spec with base := 16#32 } else
  if c = chr 'd' ∨ c = chr 'i' then num { spec with flags := spec.flags ||| SIGN } else
  if c = chr 'u' then num spec else
  ({ spec with type := .INVALID },fmt)

/-- From the label `qualifier` on. -/
def decode_qualifier (spec : full_spec) (fmt : List byte) : full_spec × List byte :=
  let c := peek fmt
  if c = chr 'h' ∨ c = chr 'l' ∨ c = chr 'L' ∨ c = chr 'Z' ∨ c = chr 'z' ∨ c = chr 't' then
    let fmt := fmt.tail
    if c = peek fmt ∧ c = chr 'l' then decode_type { spec with qualifier := some (chr 'L') } fmt.tail else
    if c = peek fmt ∧ c = chr 'h' then decode_type { spec with qualifier := some (chr 'H') } fmt.tail else
    decode_type { spec with qualifier := some c } fmt
  else decode_type { spec with qualifier := none } fmt

/-- From the label `precision` on. -/
def decode_precision (spec : full_spec) (fmt : List byte) : Option (full_spec × List byte) :=
  let spec := { spec with precision := -1#32 }
  if peek fmt = chr '.' then
    let fmt := fmt.tail
    if isdigit (peek fmt) then
      (skip_atoi 0 fmt).map fun (precision,fmt) => decode_qualifier { spec with precision := BitVec.ofInt 32 precision } fmt
    else if peek fmt = chr '*' then some ({ spec with type := .PRECISION },fmt.tail)
    else some (decode_qualifier spec fmt)
  else some (decode_qualifier spec fmt)

/-- What comes back is the rest of the format, where C counts what is read. -/
def format_decode (fmt : List byte) (spec : full_spec) : Option (full_spec × List byte) :=
  if spec.type = .WIDTH then
    if spec.field_width.toInt < 0 then
      (int (-spec.field_width.toInt)).bind fun field_width =>
        decode_precision { spec with field_width := BitVec.ofInt 32 field_width, flags := spec.flags ||| LEFT, type := .NONE } fmt
    else decode_precision { spec with type := .NONE } fmt
  else if spec.type = .PRECISION then
    some (decode_qualifier { spec with precision := if spec.precision.toInt < 0 then 0#32 else spec.precision, type := .NONE } fmt)
  else
    let spec := { spec with type := .NONE }
    let rest := fmt.dropWhile fun c => c ≠ 0#8 ∧ c ≠ chr '%'
    if rest.length ≠ fmt.length ∨ peek rest = 0#8 then some (spec,rest) else
    let (flags,fmt) := skip_flags 0#32 fmt.tail
    let spec := { spec with flags, field_width := -1#32 }
    if isdigit (peek fmt) then
      (skip_atoi 0 fmt).bind fun (field_width,fmt) => decode_precision { spec with field_width := BitVec.ofInt 32 field_width } fmt
    else if peek fmt = chr '*' then some ({ spec with type := .WIDTH },fmt.tail)
    else decode_precision spec fmt

/-! ### The conversions -/

/-- `while (--field_width > 0)` with blanks. -/
def char_pad (stop : Nat) : (rounds : Nat) → (field_width : Int) → Out → Option (Int × Out)
  | 0, _, _ => none
  | rounds+1, field_width, out =>
    (int (field_width - 1)).bind fun field_width =>
      if 0 < field_width then char_pad stop rounds field_width (put_char stop (chr ' ') out) else some (field_width,out)

/-- A character. -/
def put_padded (stop : Nat) (c : byte) (spec : printf_spec) (out : Out) : Option Out := do
  let (field_width,out) ← if spec.flags &&& LEFT = 0#32 then
      char_pad stop (spec.field_width.toInt.toNat + 1) spec.field_width.toInt out
    else some (spec.field_width.toInt,out)
  let out := put_char stop c out
  let (_,out) ← char_pad stop (field_width.toNat + 1) field_width out
  return out

/-- `while (len < field_width--)` with blanks. -/
def string_pad (stop : Nat) (len : Int) : (rounds : Nat) → (field_width : Int) → Out → Option (Int × Out)
  | 0, _, _ => none
  | rounds+1, field_width, out =>
    (int (field_width - 1)).bind fun less =>
      if len < field_width then string_pad stop len rounds less (put_char stop (chr ' ') out) else some (less,out)

/-- The `int` that `strnlen` is taken for. -/
def string_len (s : List byte) (spec : printf_spec) : Int := (BitVec.ofNat 32 (min s.length spec.precision.toNat)).toInt

/-- A string that is a good one. -/
def string (out : Out) (stop : Nat) (s : List byte) (spec : printf_spec) : Option Out := do
  let len := string_len s spec
  let (field_width,out) ← if spec.flags &&& LEFT = 0#32 then
      string_pad stop len ((spec.field_width.toInt - len).toNat + 1) spec.field_width.toInt out
    else some (spec.field_width.toInt,out)
  let out := (s.take len.toNat).foldl (fun out c => put_char stop c out) out
  let (_,out) ← string_pad stop len ((field_width - len).toNat + 1) field_width out
  return out

/-- The string behind a pointer, or what stands for it. -/
def c_str (caller : Caller) (s : BitVec 32) : List byte :=
  if s.toNat < 0x10000 then ['(','f','o','r','c','e',' ','n','u','l','l',')'].map chr else caller.text s

/-- The number that a pointer is printed as. -/
def pointer_spec (spec : printf_spec) : printf_spec :=
  let spec := { spec with flags := spec.flags ||| SMALL }
  let spec := if spec.field_width = -1#32 then { spec with field_width := 8#32, flags := spec.flags ||| ZEROPAD } else spec
  { spec with base := 16#32 }

def va_arg : List (BitVec 32) → Option (BitVec 32 × List (BitVec 32))
  | [] => none
  | v :: args => some (v,args)

/-- The number that an argument is taken for. -/
def va_num (type : format_type) (args : List (BitVec 32)) : Option (BitVec 64 × List (BitVec 32)) := do
  let (v,args) ← va_arg args
  match type with
  | .LONG_LONG =>
    let (high,args) ← va_arg args
    return (high ++ v,args)
  | .LONG | .INT => return (v.signExtend 64,args)
  | .UBYTE => return ((v.setWidth 8).setWidth 64,args)
  | .BYTE => return ((v.setWidth 8).signExtend 64,args)
  | .USHORT => return ((v.setWidth 16).setWidth 64,args)
  | .SHORT => return ((v.setWidth 16).signExtend 64,args)
  | _ => return (v.setWidth 64,args)

/-! ### The whole function -/

/-- What `%n` has stored, and where. -/
abbrev Stored := List (BitVec 32 × Nat)

/-- The call of itself: the memory, `buf`, `size`, the format and the arguments. -/
abbrev Nested := Memory → Nat → Nat → List byte → List (BitVec 32) → Option (Memory × Stored × Nat)

structure State where
  out : Out
  args : List (BitVec 32)
  stored : Stored
  spec : full_spec
  fmt : List byte

/-- `memcpy` of the part of the format that is before the end. -/
def put_text (stop : Nat) (l : List byte) (out : Out) : Out :=
  ⟨if out.buf < stop then put out.mem out.buf (l.take (stop - out.buf)) else out.mem,out.buf + l.length⟩

/-- `pointer`; `fmt` is behind the `p`. -/
def pointer (caller : Caller) (nested : Nested) (fmt : List byte) (out : Out) (stop : Nat) (ptr : BitVec 32) (spec : printf_spec) :
    Option (Out × Stored) :=
  if ptr = 0#32 ∧ peek fmt ≠ chr 'K' then
    (string out stop (['(','n','u','l','l',')'].map chr) spec).map fun out => (out,[])
  else if peek fmt = chr 'V' then
    (nested out.mem out.buf (sub stop out.buf) (caller.va_format ptr).1 (caller.va_format ptr).2).map
      fun (mem,stored,n) => (⟨mem,out.buf + n⟩,stored)
  else (number out stop (ptr.setWidth 64) (pointer_spec spec)).map fun out => (out,[])

/-- The `switch` in the loop; `read` is what the parser has read. -/
def convert (caller : Caller) (nested : Nested) (buf stop : Nat) (read : List byte) (s : State) : Option State :=
  match s.spec.type with
  | .NONE => some { s with out := put_text stop read s.out }
  | .WIDTH => (va_arg s.args).map fun (v,args) => { s with spec := { s.spec with field_width := v }, args }
  | .PRECISION => (va_arg s.args).map fun (v,args) => { s with spec := { s.spec with precision := v }, args }
  | .CHAR => do
    let (v,args) ← va_arg s.args
    let out ← put_padded stop (v.setWidth 8) s.spec.toprintf_spec s.out
    return { s with out, args }
  | .STR => do
    let (v,args) ← va_arg s.args
    let out ← string s.out stop (c_str caller v) s.spec.toprintf_spec
    return { s with out, args }
  | .PTR => do
    let (v,args) ← va_arg s.args
    let (out,stored) ← pointer caller nested s.fmt.tail s.out stop v s.spec.toprintf_spec
    return { s with out, args, stored := s.stored ++ stored, fmt := s.fmt.dropWhile isalnum }
  | .PERCENT_CHAR | .INVALID => some { s with out := put_char stop (chr '%') s.out }
  | .NRCHARS => (va_arg s.args).map fun (v,args) => { s with args, stored := s.stored ++ [(v,s.out.buf - buf)] }
  | type => do
    let (num,args) ← va_num type s.args
    let out ← number s.out stop num s.spec.toprintf_spec
    return { s with out, args }

/-- `while (*fmt)`. -/
def convert_all (caller : Caller) (nested : Nested) (buf stop : Nat) : (rounds : Nat) → State → Option State
  | 0, _ => none
  | rounds+1, s =>
    if peek s.fmt = 0#8 then some s else
    (format_decode s.fmt s.spec).bind fun (spec,rest) =>
      (convert caller nested buf stop (s.fmt.take (s.fmt.length - rest.length)) { s with spec, fmt := rest }).bind
        (convert_all caller nested buf stop rounds)

/-- A format that is not parsed yet. -/
def start_spec : full_spec := ⟨⟨0#32,0#32,0#32,0#32⟩,.NONE,none⟩

/-- The memory, what `%n` has stored, and the number that is returned; `depth` bounds the nesting of `va_format`s. -/
def vsnprintf (caller : Caller) : (depth : Nat) → Nested
  | 0, _, _, _, _, _ => none
  | depth+1, mem, buf, size, fmt, args =>
    if (BitVec.ofNat 32 size).toInt < 0 then some (mem,[],0) else
    let size := if modulus ≤ buf + size then modulus - 1 - buf else size
    let stop := buf + size
    (convert_all caller (vsnprintf caller depth) buf stop (2 * fmt.length + 1) ⟨⟨mem,buf⟩,args,[],start_spec,fmt⟩).map fun s =>
      (if 0 < size then Function.update s.out.mem (if s.out.buf < stop then s.out.buf else stop - 1) 0#8 else s.out.mem,
        s.stored,s.out.buf - buf)

/-- The comparison is one of unsigned numbers. -/
def vscnprintf (caller : Caller) (depth : Nat) (mem : Memory) (buf size : Nat) (fmt : List byte) (args : List (BitVec 32)) :
    Option (Memory × Stored × Nat) :=
  (vsnprintf caller depth mem buf size fmt args).map fun (mem,stored,i) =>
    (mem,stored,if i < size then i else if size ≠ 0 then size - 1 else 0)

/-! ### Two ends for one output -/

section Rel
variable {α α' β β' : Type} {R : α → α' → Prop} {S : β → β' → Prop} {x : Option α} {x' : Option α'}

theorem rel_bind {f : α → Option β} {f' : α' → Option β'} (first : x.Rel R x') (rest : ∀ a a', R a a' → (f a).Rel S (f' a')) :
    (x.bind f).Rel S (x'.bind f') := by
  cases first with
  | none => exact .none
  | some related => exact rest _ _ related

theorem rel_map {f : α → β} {f' : α' → β'} (first : x.Rel R x') (rest : ∀ a a', R a a' → S (f a) (f' a')) :
    (x.map f).Rel S (x'.map f') := by
  cases first with
  | none => exact .none
  | some related => exact .some (rest _ _ related)

/-- A loop that runs under a condition, and what follows it. -/
theorem rel_join {c : Prop} [Decidable c] {f : α → Option β} {f' : α' → Option β'} {a : α} {a' : α'} (loop : x.Rel R x')
    (skip : R a a') (rest : ∀ a a', R a a' → (f a).Rel S (f' a')) :
    (if c then x.bind f else (some a).bind f).Rel S (if c then x'.bind f' else (some a').bind f') := by
  split
  · exact rel_bind loop rest
  · exact rest a a' skip

/-- What both read from the same place. -/
theorem rel_same (x : Option α) : x.Rel Eq x := by
  cases x with
  | none => exact .none
  | some a => exact .some rfl

end Rel

section Alike
variable {stop stop' : Nat} {first first' out out' : Out}

variable (stop stop' first first') in
/-- Since the first ones the same characters were put out in both. -/
def Alike (out out' : Out) : Prop := ∃ l, out = puts stop l first ∧ out' = puts stop' l first'

variable (stop stop' first first') in
/-- With the same width that is left. -/
def AlikeWith (r r' : Int × Out) : Prop := r.1 = r'.1 ∧ Alike stop stop' first first' r.2 r'.2

theorem Alike.refl : Alike stop stop' first first' first first' := ⟨[],rfl,rfl⟩

theorem Alike.puts (alike : Alike stop stop' first first' out out') (m : List byte) :
    Alike stop stop' first first' (puts stop m out) (puts stop' m out') := by
  obtain ⟨l,rfl,rfl⟩ := alike
  exact ⟨l ++ m,(puts_append ..).symm,(puts_append ..).symm⟩

theorem Alike.put_char (alike : Alike stop stop' first first' out out') (c : byte) :
    Alike stop stop' first first' (put_char stop c out) (put_char stop' c out') := alike.puts [c]

theorem Alike.ite {c : Prop} [Decidable c] {else_out else_out' : Out} (yes : Alike stop stop' first first' out out')
    (no : Alike stop stop' first first' else_out else_out') :
    Alike stop stop' first first' (if c then out else else_out) (if c then out' else else_out') := by
  split
  · exact yes
  · exact no

/-- How far `buf` has come. -/
theorem Alike.count (alike : Alike stop stop' first first' out out') : out.buf - first.buf = out'.buf - first'.buf := by
  obtain ⟨l,rfl,rfl⟩ := alike
  rw [puts_buf,puts_buf]
  omega

/-- The loops that pad: each round counts the width down, and puts out a character or is the last one. -/
theorem alike_pad {f : Nat → Nat → Int → Out → Option (Int × Out)} {more : Int → Int → Prop} [∀ w less, Decidable (more w less)]
    {c : byte} (last : ∀ stop w out, f stop 0 w out = none)
    (round : ∀ stop rounds w out, f stop (rounds+1) w out = (int (w - 1)).bind fun less =>
      if more w less then f stop rounds less (put_char stop c out) else some (less,out)) (rounds : Nat) (w : Int)
    (alike : Alike stop stop' first first' out out') :
    (f stop rounds w out).Rel (AlikeWith stop stop' first first') (f stop' rounds w out') := by
  induction rounds generalizing w out out' with
  | zero =>
    rw [last,last]
    exact .none
  | succ rounds ih =>
    rw [round,round]
    refine rel_bind (rel_same _) ?_
    rintro less _ rfl
    split
    · exact ih less (alike.put_char c)
    · exact .some ⟨rfl,alike⟩

theorem pad_alike (c : byte) (rounds : Nat) (w : Int) (alike : Alike stop stop' first first' out out') :
    (pad stop c rounds w out).Rel (AlikeWith stop stop' first first') (pad stop' c rounds w out') :=
  alike_pad (f := fun stop => pad stop c) (fun _ _ _ => rfl) (fun _ _ _ _ => rfl) rounds w alike

theorem char_pad_alike (rounds : Nat) (w : Int) (alike : Alike stop stop' first first' out out') :
    (char_pad stop rounds w out).Rel (AlikeWith stop stop' first first') (char_pad stop' rounds w out') :=
  alike_pad (f := char_pad) (fun _ _ _ => rfl) (fun _ _ _ _ => rfl) rounds w alike

theorem string_pad_alike (len : Int) (rounds : Nat) (w : Int) (alike : Alike stop stop' first first' out out') :
    (string_pad stop len rounds w out).Rel (AlikeWith stop stop' first first') (string_pad stop' len rounds w out') :=
  alike_pad (f := fun stop => string_pad stop len) (fun _ _ _ => rfl) (fun _ _ _ _ => rfl) rounds w alike

theorem zeros_alike (i rounds : Nat) (precision : Int) (alike : Alike stop stop' first first' out out') :
    (zeros stop i rounds precision out).Rel (Alike stop stop' first first') (zeros stop' i rounds precision out') := by
  induction rounds generalizing precision out out' with
  | zero => exact .none
  | succ rounds ih =>
    unfold zeros
    refine rel_bind (rel_same _) ?_
    rintro less _ rfl
    split
    · exact ih less (alike.put_char _)
    · exact .some alike

theorem Alike.copy (alike : Alike stop stop' first first' out out') (tmp : Memory) (i : Nat) :
    Alike stop stop' first first' (copy stop tmp i out) (copy stop' tmp i out') := by
  rw [copy_spec,copy_spec]
  exact alike.puts _

theorem put_fields_alike (flags base : BitVec 32) (need_pfx : Bool) (locase sign : byte) (tmp : Memory) (i : Nat)
    (precision w : Int) (alike : Alike stop stop' first first' out out') :
    (put_fields stop flags base need_pfx locase sign tmp i precision w out).Rel (Alike stop stop' first first')
      (put_fields stop' flags base need_pfx locase sign tmp i precision w out') := by
  unfold put_fields
  refine rel_join (pad_alike _ _ _ alike) ⟨rfl,alike⟩ ?_
  rintro ⟨w₁,out₁⟩ ⟨_,out₁'⟩ ⟨rfl,alike₁⟩
  have signed := Alike.ite (c := sign ≠ 0#8) (alike₁.put_char sign) alike₁
  have prefixed := Alike.ite (c := need_pfx = true)
    (Alike.ite (c := base = 16#32) ((signed.put_char 48#8).put_char (88#8 ||| locase)) (signed.put_char 48#8)) signed
  refine rel_join (pad_alike _ _ _ prefixed) ⟨rfl,prefixed⟩ ?_
  rintro ⟨w₂,out₂⟩ ⟨_,out₂'⟩ ⟨rfl,alike₂⟩
  refine rel_bind (zeros_alike _ _ _ alike₂) ?_
  intro out₃ out₃' alike₃
  refine rel_bind (pad_alike _ _ _ (alike₃.copy tmp i)) ?_
  rintro ⟨w₄,out₄⟩ ⟨_,out₄'⟩ ⟨rfl,alike₄⟩
  exact .some alike₄

theorem number_alike (num : BitVec 64) (spec : printf_spec) (alike : Alike stop stop' first first' out out') :
    (number out stop num spec).Rel (Alike stop stop' first first') (number out' stop' num spec) := by
  unfold number
  refine rel_bind (rel_same _) ?_
  rintro ⟨sign,num,w⟩ _ rfl
  refine rel_join (R := Eq) (rel_same _) rfl ?_
  rintro w _ rfl
  refine rel_bind (rel_same _) ?_
  rintro ⟨tmp,i⟩ _ rfl
  refine rel_bind (rel_same _) ?_
  rintro w _ rfl
  exact put_fields_alike _ _ _ _ _ _ _ _ _ alike

theorem put_padded_alike (c : byte) (spec : printf_spec) (alike : Alike stop stop' first first' out out') :
    (put_padded stop c spec out).Rel (Alike stop stop' first first') (put_padded stop' c spec out') := by
  unfold put_padded
  refine rel_join (char_pad_alike _ _ alike) ⟨rfl,alike⟩ ?_
  rintro ⟨w₁,out₁⟩ ⟨_,out₁'⟩ ⟨rfl,alike₁⟩
  refine rel_bind (char_pad_alike _ _ (alike₁.put_char c)) ?_
  rintro ⟨w₂,out₂⟩ ⟨_,out₂'⟩ ⟨rfl,alike₂⟩
  exact .some alike₂

theorem string_alike (s : List byte) (spec : printf_spec) (alike : Alike stop stop' first first' out out') :
    (string out stop s spec).Rel (Alike stop stop' first first') (string out' stop' s spec) := by
  unfold string
  refine rel_join (string_pad_alike _ _ _ alike) ⟨rfl,alike⟩ ?_
  rintro ⟨w₁,out₁⟩ ⟨_,out₁'⟩ ⟨rfl,alike₁⟩
  refine rel_bind (string_pad_alike _ _ _ (alike₁.puts _)) ?_
  rintro ⟨w₂,out₂⟩ ⟨_,out₂'⟩ ⟨rfl,alike₂⟩
  exact .some alike₂

/-- A copy that stops at the end puts out its characters one by one. -/
theorem put_text_eq (stop : Nat) (l : List byte) (out : Out) : put_text stop l out = puts stop l out := by
  have mem : (put_text stop l out).mem = (puts stop l out).mem := by
    funext q
    rw [puts_mem]
    unfold put_text
    by_cases before : out.buf < stop
    · simp only [if_pos before,put]
      by_cases here : out.buf ≤ q
      · rw [if_pos here,List.getElem?_take]
        by_cases stored : q < stop
        · rw [if_pos (by omega),if_pos ⟨here,stored⟩]
        · rw [if_neg (by omega),if_neg (fun both => stored both.2)]
          rfl
      · rw [if_neg here,if_neg (fun both => here both.1)]
    · have outside : ¬(out.buf ≤ q ∧ q < stop) := by omega
      rw [if_neg outside,if_neg before]
  exact congrArg₂ Out.mk mem (puts_buf stop l out).symm

theorem pointer_alike {nested nested' : Nested} {caller : Caller} (fmt : List byte) (ptr : BitVec 32) (spec : printf_spec)
    (plain : peek fmt ≠ chr 'V') (alike : Alike stop stop' first first' out out') :
    (pointer caller nested fmt out stop ptr spec).Rel (fun r r' => Alike stop stop' first first' r.1 r'.1 ∧ r.2 = r'.2)
      (pointer caller nested' fmt out' stop' ptr spec) := by
  unfold pointer
  rw [if_neg plain,if_neg plain]
  split
  · exact rel_map (string_alike _ _ alike) (fun _ _ alike => ⟨alike,rfl⟩)
  · exact rel_map (number_alike _ _ alike) (fun _ _ alike => ⟨alike,rfl⟩)

variable (stop stop' first first') in
/-- The parser and the arguments are at the same place. -/
structure AlikeState (s s' : State) : Prop where
  out : Alike stop stop' first first' s.out s'.out
  args : s.args = s'.args
  stored : s.stored = s'.stored
  spec : s.spec = s'.spec
  fmt : s.fmt = s'.fmt

theorem convert_alike {nested nested' : Nested} {caller : Caller} {s s' : State} (read : List byte)
    (plain : s.spec.type = .PTR → peek s.fmt.tail ≠ chr 'V') (alike : AlikeState stop stop' first first' s s') :
    (convert caller nested first.buf stop read s).Rel
      (fun s₁ s₁' => AlikeState stop stop' first first' s₁ s₁' ∧ s₁.fmt <:+ s.fmt)
      (convert caller nested' first'.buf stop' read s') := by
  obtain ⟨out,args,stored,spec,fmt⟩ := s
  obtain ⟨out',_,_,_,_⟩ := s'
  obtain ⟨alike,rfl,rfl,rfl,rfl⟩ := alike
  dsimp only at alike plain
  have same : fmt <:+ fmt := List.suffix_refl fmt
  unfold convert
  dsimp only
  split
  · rw [put_text_eq,put_text_eq]
    exact .some ⟨⟨alike.puts read,rfl,rfl,rfl,rfl⟩,same⟩
  · refine rel_map (rel_same _) ?_
    rintro ⟨v,args⟩ _ rfl
    exact ⟨⟨alike,rfl,rfl,rfl,rfl⟩,same⟩
  · refine rel_map (rel_same _) ?_
    rintro ⟨v,args⟩ _ rfl
    exact ⟨⟨alike,rfl,rfl,rfl,rfl⟩,same⟩
  · refine rel_bind (rel_same _) ?_
    rintro ⟨v,args⟩ _ rfl
    refine rel_bind (put_padded_alike _ _ alike) fun out₁ out₁' alike₁ => ?_
    exact .some ⟨⟨alike₁,rfl,rfl,rfl,rfl⟩,same⟩
  · refine rel_bind (rel_same _) ?_
    rintro ⟨v,args⟩ _ rfl
    refine rel_bind (string_alike _ _ alike) fun out₁ out₁' alike₁ => ?_
    exact .some ⟨⟨alike₁,rfl,rfl,rfl,rfl⟩,same⟩
  · next ptr =>
    refine rel_bind (rel_same _) ?_
    rintro ⟨v,args⟩ _ rfl
    refine rel_bind (pointer_alike _ _ _ (plain ptr) alike) ?_
    rintro ⟨out₁,more⟩ ⟨out₁',_⟩ ⟨alike₁,rfl⟩
    exact .some ⟨⟨alike₁,rfl,rfl,rfl,rfl⟩,List.dropWhile_suffix _⟩
  · exact .some ⟨⟨alike.put_char _,rfl,rfl,rfl,rfl⟩,same⟩
  · exact .some ⟨⟨alike.put_char _,rfl,rfl,rfl,rfl⟩,same⟩
  · refine rel_map (rel_same _) ?_
    rintro ⟨v,args⟩ _ rfl
    exact ⟨⟨alike,rfl,by rw [alike.count],rfl,rfl⟩,same⟩
  · refine rel_bind (rel_same _) ?_
    rintro ⟨v,args⟩ _ rfl
    refine rel_bind (number_alike _ _ alike) fun out₁ out₁' alike₁ => ?_
    exact .some ⟨⟨alike₁,rfl,rfl,rfl,rfl⟩,same⟩

end Alike

/-! ### Formats that ask for no other format -/

/-- No `p` is in front of a `V`. -/
def Plain (fmt : List byte) : Prop := ∀ rest, rest <:+ fmt → peek rest = chr 'p' → peek rest.tail ≠ chr 'V'

theorem Plain.suffix {fmt rest : List byte} (plain : Plain fmt) (behind : rest <:+ fmt) : Plain rest :=
  fun later suffix => plain later (suffix.trans behind)

/-- The parser goes on behind what it has read, and stays at the letter `p`. -/
def Decoded (fmt : List byte) (r : full_spec × List byte) : Prop := r.2 <:+ fmt ∧ (r.1.type = .PTR → peek r.2 = chr 'p')

section Parser
variable {fmt fmt' : List byte} {spec : full_spec} {r : full_spec × List byte}

theorem Decoded.behind (behind : fmt' <:+ fmt) (decoded : Decoded fmt' r) : Decoded fmt r :=
  ⟨decoded.1.trans behind,decoded.2⟩

theorem number_type_ne (flags : BitVec 32) (qualifier : Option byte) : number_type flags qualifier ≠ .PTR := by
  unfold number_type
  dsimp only
  split_ifs <;> decide

theorem decode_type_decoded (spec : full_spec) (fmt : List byte) : Decoded fmt (decode_type spec fmt) := by
  have other {spec : full_spec} (type : spec.type ≠ .PTR) : Decoded fmt (spec,fmt.tail) :=
    ⟨List.tail_suffix fmt,fun ptr => absurd ptr type⟩
  unfold decode_type
  dsimp only
  split
  · exact other nofun
  split
  · exact other nofun
  split
  · next letter => exact ⟨List.suffix_refl fmt,fun _ => letter⟩
  split
  · exact other nofun
  split
  · exact other nofun
  split
  · exact other (number_type_ne _ _)
  split
  · exact other (number_type_ne _ _)
  split
  · exact other (number_type_ne _ _)
  split
  · exact other (number_type_ne _ _)
  split
  · exact other (number_type_ne _ _)
  exact ⟨List.suffix_refl fmt,nofun⟩

theorem decode_qualifier_decoded (spec : full_spec) (fmt : List byte) : Decoded fmt (decode_qualifier spec fmt) := by
  have one : fmt.tail <:+ fmt := List.tail_suffix fmt
  have two : fmt.tail.tail <:+ fmt := (List.tail_suffix fmt.tail).trans one
  unfold decode_qualifier
  dsimp only
  split_ifs
  · exact (decode_type_decoded _ _).behind two
  · exact (decode_type_decoded _ _).behind two
  · exact (decode_type_decoded _ _).behind one
  · exact decode_type_decoded _ _

theorem skip_atoi_suffix {i n : Int} {rest : List byte} (read : skip_atoi i fmt = some (n,rest)) : rest <:+ fmt := by
  induction fmt generalizing i with
  | nil =>
    obtain ⟨-,rfl⟩ := Prod.mk.inj (Option.some.inj read)
    exact List.suffix_refl _
  | cons c fmt ih =>
    unfold skip_atoi at read
    split at read
    · simp only [Option.bind_eq_some_iff] at read
      obtain ⟨_,-,_,-,later⟩ := read
      exact (ih later).trans (List.suffix_cons c fmt)
    · obtain ⟨-,rfl⟩ := Prod.mk.inj (Option.some.inj read)
      exact List.suffix_refl _

theorem skip_flags_suffix (flags : BitVec 32) (fmt : List byte) : (skip_flags flags fmt).2 <:+ fmt := by
  induction fmt generalizing flags with
  | nil => exact List.suffix_refl _
  | cons c fmt ih =>
    have later (flags : BitVec 32) : (skip_flags flags fmt).2 <:+ c :: fmt := (ih flags).trans (List.suffix_cons c fmt)
    unfold skip_flags
    split
    · exact later _
    split
    · exact later _
    split
    · exact later _
    split
    · exact later _
    split
    · exact later _
    exact List.suffix_refl _

theorem decode_precision_decoded (decoded : decode_precision spec fmt = some r) : Decoded fmt r := by
  have one : fmt.tail <:+ fmt := List.tail_suffix fmt
  unfold decode_precision at decoded
  dsimp only at decoded
  split_ifs at decoded
  · obtain ⟨⟨_,rest⟩,read,rfl⟩ := Option.map_eq_some_iff.mp decoded
    exact (decode_qualifier_decoded _ _).behind ((skip_atoi_suffix read).trans one)
  · obtain rfl := Option.some.inj decoded
    exact ⟨(List.tail_suffix _).trans one,nofun⟩
  · obtain rfl := Option.some.inj decoded
    exact (decode_qualifier_decoded _ _).behind one
  · obtain rfl := Option.some.inj decoded
    exact decode_qualifier_decoded _ _

theorem format_decode_decoded (decoded : format_decode fmt spec = some r) : Decoded fmt r := by
  unfold format_decode at decoded
  split at decoded
  · split at decoded
    · obtain ⟨_,-,later⟩ := Option.bind_eq_some_iff.mp decoded
      exact decode_precision_decoded later
    · exact decode_precision_decoded decoded
  split at decoded
  · obtain rfl := Option.some.inj decoded
    exact decode_qualifier_decoded _ _
  dsimp only at decoded
  split at decoded
  · obtain rfl := Option.some.inj decoded
    exact ⟨List.dropWhile_suffix _,nofun⟩
  have flags : (skip_flags 0#32 fmt.tail).2 <:+ fmt := (skip_flags_suffix _ _).trans (List.tail_suffix fmt)
  split at decoded
  · obtain ⟨⟨_,rest⟩,read,later⟩ := Option.bind_eq_some_iff.mp decoded
    exact (decode_precision_decoded later).behind ((skip_atoi_suffix read).trans flags)
  split at decoded
  · obtain rfl := Option.some.inj decoded
    exact ⟨(List.tail_suffix _).trans flags,nofun⟩
  · exact (decode_precision_decoded decoded).behind flags

end Parser

/-! ### The whole output -/

/-- What a buffer shows of the text: as much as there is room for in front of a 0. -/
def shown (mem : Memory) (buf size : Nat) (l : List byte) : Memory :=
  if 0 < size then put mem buf (l.take (size - 1) ++ [0#8]) else mem

section Calls
variable {caller : Caller} {nested nested' : Nested} {stop stop' : Nat} {first first' : Out}

theorem convert_all_alike {s s' : State} (rounds : Nat) (plain : Plain s.fmt) (alike : AlikeState stop stop' first first' s s') :
    (convert_all caller nested first.buf stop rounds s).Rel (AlikeState stop stop' first first')
      (convert_all caller nested' first'.buf stop' rounds s') := by
  induction rounds generalizing s s' with
  | zero => exact .none
  | succ rounds ih =>
    unfold convert_all
    rw [← alike.fmt,← alike.spec]
    split
    · exact .some alike
    cases decoded : format_decode s.fmt s.spec with
    | none => exact .none
    | some r =>
      obtain ⟨spec,rest⟩ := r
      obtain ⟨behind,letter⟩ := format_decode_decoded decoded
      rw [Option.bind_some,Option.bind_some]
      refine rel_bind (convert_alike _ (fun ptr => plain rest behind (letter ptr)) ⟨alike.out,alike.args,alike.stored,rfl,rfl⟩) ?_
      rintro s₁ s₁' ⟨alike₁,suffix⟩
      exact ih (plain.suffix (suffix.trans behind)) alike₁

/-- The 0 is behind the text, or in the place of the last character that there was room for. -/
theorem ended_eq (mem : Memory) (buf size : Nat) (l : List byte) :
    (if 0 < size then Function.update (puts (buf + size) l ⟨mem,buf⟩).mem
      (if buf + l.length < buf + size then buf + l.length else buf + size - 1) 0#8
      else (puts (buf + size) l ⟨mem,buf⟩).mem) = shown mem buf size l := by
  unfold shown
  by_cases room : 0 < size
  · have last : (if buf + l.length < buf + size then buf + l.length else buf + size - 1) =
        buf + (l.take (size - 1)).length := by
      rw [List.length_take]
      split <;> omega
    rw [if_pos room,if_pos room,last]
    funext q
    by_cases here : q = buf + (l.take (size - 1)).length
    · subst here
      rw [Function.update_self,put_inside (by simp)]
      simp
    rw [Function.update_of_ne here,puts_mem,put]
    dsimp only
    have length : (l.take (size - 1)).length = min (size - 1) l.length := List.length_take
    by_cases stored : buf ≤ q ∧ q < buf + size
    · rw [if_pos stored,if_pos stored.1,List.getElem?_append]
      split
      · rw [List.getElem?_take,if_pos (by omega)]
      · rw [List.getElem?_eq_none (by omega),List.getElem?_eq_none]
        rw [List.length_singleton]
        omega
    · rw [if_neg stored]
      split
      · rw [List.getElem?_eq_none]
        · rfl
        · rw [List.length_append,List.length_singleton]
          omega
      · rfl
  · rw [if_neg room,if_neg room]
    funext q
    rw [puts_mem,if_neg]
    dsimp only
    omega

/-- A format that asks for no other format puts out the same text for every buffer: two calls both fail, or store the same for
    `%n`, return the length of the same text, and show as much of it as their buffers have room for. -/
theorem vsnprintf_alike {depth depth' buf buf' size size' : Nat} {fmt : List byte} (plain : Plain fmt) (mem mem' : Memory)
    (args : List (BitVec 32)) (small : size < 2^31) (small' : size' < 2^31) (inside : buf + size < modulus)
    (inside' : buf' + size' < modulus) :
    (vsnprintf caller (depth+1) mem buf size fmt args).Rel
      (fun r r' => ∃ l stored, r = (shown mem buf size l,stored,l.length) ∧ r' = (shown mem' buf' size' l,stored,l.length))
      (vsnprintf caller (depth'+1) mem' buf' size' fmt args) := by
  have not_negative : ∀ {size : Nat}, size < 2^31 → ¬(BitVec.ofNat 32 size).toInt < 0 := by
    intro size small
    rw [BitVec.toInt_eq_toNat_cond,BitVec.toNat_ofNat,Nat.mod_eq_of_lt (by omega),if_pos (by omega)]
    omega
  have start : AlikeState (buf + size) (buf' + size') ⟨mem,buf⟩ ⟨mem',buf'⟩ ⟨⟨mem,buf⟩,args,[],start_spec,fmt⟩
      ⟨⟨mem',buf'⟩,args,[],start_spec,fmt⟩ := ⟨.refl,rfl,rfl,rfl,rfl⟩
  unfold vsnprintf
  rw [if_neg (not_negative small),if_neg (not_negative small'),if_neg (not_le.mpr inside),if_neg (not_le.mpr inside')]
  refine rel_map (convert_all_alike _ plain start) ?_
  rintro s s' ⟨⟨l,out,out'⟩,-,stored,-,-⟩
  refine ⟨l,s.stored,?_,?_⟩
  · rw [out,puts_buf,ended_eq,Nat.add_sub_cancel_left]
  · rw [out',puts_buf,ended_eq,Nat.add_sub_cancel_left,stored]

/-- `vscnprintf` returns how many characters of the text the buffer shows. -/
theorem vscnprintf_alike {depth depth' buf buf' size size' : Nat} {fmt : List byte} (plain : Plain fmt) (mem mem' : Memory)
    (args : List (BitVec 32)) (small : size < 2^31) (small' : size' < 2^31) (inside : buf + size < modulus)
    (inside' : buf' + size' < modulus) :
    (vscnprintf caller (depth+1) mem buf size fmt args).Rel (fun r r' => ∃ l stored,
        r = (shown mem buf size l,stored,(l.take (size - 1)).length) ∧
        r' = (shown mem' buf' size' l,stored,(l.take (size' - 1)).length))
      (vscnprintf caller (depth'+1) mem' buf' size' fmt args) := by
  have count (size : Nat) (l : List byte) : (if l.length < size then l.length else if size ≠ 0 then size - 1 else 0) =
      (l.take (size - 1)).length := by
    rw [List.length_take]
    split
    · omega
    · split <;> omega
  refine rel_map (vsnprintf_alike plain mem mem' args small small' inside inside') ?_
  rintro _ _ ⟨l,stored,rfl,rfl⟩
  exact ⟨l,stored,by rw [← count],by rw [← count]⟩

end Calls

end GridOS.Vsnprintf
