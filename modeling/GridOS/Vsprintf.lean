import GridOS.H2d

/-!
`number`, which formats one number for `vsprintf` on a target with 32 bits. Arithmetic on an `int` is defined within 32 bits
only, and places in memory are counted: a `buf` that runs on behind `end` stays behind it.
-/
namespace GridOS.Vsprintf
open GridOS.Environ (byte)
open GridOS.H2d

def ZEROPAD : BitVec 32 := 1#32
def SIGN : BitVec 32 := 2#32
def PLUS : BitVec 32 := 4#32
def SPACE : BitVec 32 := 8#32
def LEFT : BitVec 32 := 16#32
def SMALL : BitVec 32 := 32#32
def SPECIAL : BitVec 32 := 64#32

/-- What `number` reads of the specification. -/
structure printf_spec where
  flags : BitVec 32
  field_width : BitVec 32
  base : BitVec 32
  precision : BitVec 32

/-- The result of an operation on `int`, where it is defined. -/
def int (n : Int) : Option Int := if -2^31 ≤ n ∧ n < 2^31 then some n else none

/-! ### The code -/

/-- The memory and `buf`. -/
structure Out where
  mem : Memory
  buf : Nat

/-- A character is stored before `stop`, which is `end` in C, and counted everywhere. -/
def put_char (stop : Nat) (c : byte) (out : Out) : Out :=
  ⟨if out.buf < stop then Function.update out.mem out.buf c else out.mem,out.buf + 1⟩

/-- `while (--field_width >= 0)` with the character to pad with. -/
def pad (stop : Nat) (c : byte) : (rounds : Nat) → (field_width : Int) → Out → Option (Int × Out)
  | 0, _, _ => none
  | rounds+1, field_width, out =>
    (int (field_width - 1)).bind fun field_width =>
      if 0 ≤ field_width then pad stop c rounds field_width (put_char stop c out) else some (field_width,out)

/-- `while (i <= --precision)`. -/
def zeros (stop i : Nat) : (rounds : Nat) → (precision : Int) → Out → Option Out
  | 0, _, _ => none
  | rounds+1, precision, out =>
    (int (precision - 1)).bind fun precision =>
      if i ≤ precision then zeros stop i rounds precision (put_char stop 48#8 out) else some out

/-- `while (--i >= 0)`. -/
def copy (stop : Nat) (tmp : Memory) : Nat → Out → Out
  | 0, out => out
  | i+1, out => copy stop tmp i (put_char stop (tmp i) out)

def digits : List byte :=
  [48#8,49#8,50#8,51#8,52#8,53#8,54#8,55#8,56#8,57#8,65#8,66#8,67#8,68#8,69#8,70#8]

/-- The digits in base 8 or 16, from the last one on. -/
def radix (locase : byte) (mask : BitVec 32) (shift : Nat) : (rounds : Nat) → (tmp : Memory) → (i : Nat) → BitVec 64 →
    Option (Memory × Nat)
  | 0, _, _, _ => none
  | rounds+1, tmp, i, num =>
    digits[((num.setWidth 8).setWidth 32 &&& mask).toNat]?.bind fun digit =>
      let tmp := Function.update tmp i (digit ||| locase)
      let num := num >>> shift
      if num ≠ 0#64 then radix locase mask shift rounds tmp (i+1) num else some (tmp,i+1)

/-- `h2d` takes an `unsigned long`, so the number loses its upper half. -/
def put_dec (mem : Memory) (buf : Nat) (num : BitVec 64) : Option (Memory × Nat) := h2d mem buf 0 (num.setWidth 32)

/-- The sign or 0, the number without it and the width that is left. -/
def take_sign (flags : BitVec 32) (num : BitVec 64) (field_width : Int) : Option (byte × BitVec 64 × Int) :=
  if flags &&& SIGN ≠ 0#32 then
    if num.toInt < 0 then
      if num.toInt = -2^63 then none else (int (field_width - 1)).map fun field_width => (45#8,-num,field_width)
    else if flags &&& PLUS ≠ 0#32 then (int (field_width - 1)).map fun field_width => (43#8,num,field_width)
    else if flags &&& SPACE ≠ 0#32 then (int (field_width - 1)).map fun field_width => (32#8,num,field_width)
    else some (0#8,num,field_width)
  else some (0#8,num,field_width)

/-- The string in `tmp`, in reverse order. -/
def fill_tmp (base : BitVec 32) (locase : byte) (num : BitVec 64) : Option (Memory × Nat) :=
  let tmp : Memory := fun _ => 0#8
  if num = 0#64 then some (Function.update tmp 0 48#8,1) else
  if base ≠ 10#32 then radix locase (base - 1#32) (if base = 16#32 then 4 else 3) 22 tmp 0 num else
  put_dec tmp 0 num

/-- From the leading spaces on. -/
def put_fields (stop : Nat) (flags base : BitVec 32) (need_pfx : Bool) (locase sign : byte) (tmp : Memory) (i : Nat)
    (precision field_width : Int) (out : Out) : Option Out := do
  let (field_width,out) ← if flags &&& (ZEROPAD + LEFT) = 0#32 then pad stop 32#8 (field_width.toNat + 1) field_width out
    else some (field_width,out)
  let out := if sign ≠ 0#8 then put_char stop sign out else out
  let out := if need_pfx then
      let out := put_char stop 48#8 out
      if base = 16#32 then put_char stop (88#8 ||| locase) out else out
    else out
  let (field_width,out) ← if flags &&& LEFT = 0#32 then
      pad stop (if flags &&& ZEROPAD ≠ 0#32 then 48#8 else 32#8) (field_width.toNat + 1) field_width out
    else some (field_width,out)
  let out ← zeros stop i (precision.toNat + 1) precision out
  let out := copy stop tmp i out
  let (_,out) ← pad stop 32#8 (field_width.toNat + 1) field_width out
  return out

def number (out : Out) (stop : Nat) (num : BitVec 64) (spec : printf_spec) : Option Out := do
  let need_pfx := decide (spec.flags &&& SPECIAL ≠ 0#32 ∧ spec.base ≠ 10#32)
  let locase := (spec.flags &&& SMALL).setWidth 8
  let flags := if spec.flags &&& LEFT ≠ 0#32 then spec.flags &&& ~~~ZEROPAD else spec.flags
  let (sign,num,field_width) ← take_sign flags num spec.field_width.toInt
  let field_width ← if need_pfx then
      (int (field_width - 1)).bind fun field_width => if spec.base = 16#32 then int (field_width - 1) else some field_width
    else some field_width
  let (tmp,i) ← fill_tmp spec.base locase num
  let precision := max (i : Int) spec.precision.toInt
  let field_width ← int (field_width - precision)
  put_fields stop flags spec.base need_pfx locase sign tmp i precision field_width out

/-! ### What is asked for in base 10 -/

def Flag (spec : printf_spec) (flag : BitVec 32) : Prop := spec.flags &&& flag ≠ 0#32

instance (spec : printf_spec) (flag : BitVec 32) : Decidable (Flag spec flag) := inferInstanceAs (Decidable (_ ≠ _))

/-- The value without its sign. -/
def magnitude (num : BitVec 64) (spec : printf_spec) : Nat := if Flag spec SIGN then num.toInt.natAbs else num.toNat

def sign (num : BitVec 64) (spec : printf_spec) : List byte :=
  if Flag spec SIGN then
    if num.toInt < 0 then [45#8] else if Flag spec PLUS then [43#8] else if Flag spec SPACE then [32#8] else []
  else []

/-- The width that is left for padding, or what it misses. -/
def room (num : BitVec 64) (spec : printf_spec) (s : List byte) : Int :=
  spec.field_width.toInt - (sign num spec).length - max (s.length : Int) spec.precision.toInt

/-- A string of digits with the sign and the padding around it. -/
def layout (num : BitVec 64) (spec : printf_spec) (s : List byte) : List byte :=
  let spaces := List.replicate (room num spec s).toNat 32#8
  let digits := List.replicate (spec.precision.toInt - s.length).toNat 48#8 ++ s
  if Flag spec LEFT then sign num spec ++ digits ++ spaces
  else if Flag spec ZEROPAD then sign num spec ++ List.replicate (room num spec s).toNat 48#8 ++ digits
  else spaces ++ sign num spec ++ digits

/-- The decimal digits are emitted with the sign and the padding around them, those before the end are stored and nothing else
    is, and `buf` has advanced by all of them. -/
def Emits (num : BitVec 64) (spec : printf_spec) : Prop :=
  ∀ mem buf stop, ∃ out, number ⟨mem,buf⟩ stop num spec = some out ∧
    out.buf = buf + (layout num spec (decimal (magnitude num spec))).length ∧
    ∀ q, out.mem q = if buf ≤ q ∧ q < stop then
      (layout num spec (decimal (magnitude num spec)))[q - buf]?.getD (mem q) else mem q

/-- With `revert` every `unsigned long` is written as digits that read back as it. -/
def ReadsBack : Prop := ∀ (mem : Memory) (p : Nat) (v : BitVec 32), ∃ s, h2d mem p 1 v = some (put mem p s,s.length) ∧
  (∀ c ∈ s, 48 ≤ c.toNat ∧ c.toNat < 58) ∧ read_number s = v.toNat

/-- How often the width is still counted down when nothing is left of it. -/
def countdowns (spec : printf_spec) : Int := if Flag spec LEFT then 1 else if Flag spec ZEROPAD then 2 else 3

/-- The value fits an `unsigned long`, and the width an `int` to the end. -/
def Fits (num : BitVec 64) (spec : printf_spec) : Prop :=
  magnitude num spec < 2^32 ∧ -2^31 ≤ room num spec (decimal (magnitude num spec)) - countdowns spec

/-! ### What the loops put out -/

/-- Characters one after the other. -/
def puts (stop : Nat) (l : List byte) (out : Out) : Out := l.foldl (fun out c => put_char stop c out) out

@[simp] theorem puts_nil (stop : Nat) (out : Out) : puts stop [] out = out := rfl

@[simp] theorem puts_cons (stop : Nat) (c : byte) (l : List byte) (out : Out) :
    puts stop (c :: l) out = puts stop l (put_char stop c out) := rfl

theorem puts_append (stop : Nat) (l m : List byte) (out : Out) : puts stop (l ++ m) out = puts stop m (puts stop l out) :=
  List.foldl_append

theorem puts_buf (stop : Nat) (l : List byte) (out : Out) : (puts stop l out).buf = out.buf + l.length := by
  induction l generalizing out with
  | nil => rfl
  | cons c l ih =>
    rw [puts_cons,ih,List.length_cons]
    unfold put_char
    dsimp only
    omega

/-- What is stored, and where. -/
theorem puts_mem (stop : Nat) (l : List byte) (out : Out) (q : Nat) : (puts stop l out).mem q =
    if out.buf ≤ q ∧ q < stop then l[q - out.buf]?.getD (out.mem q) else out.mem q := by
  induction l generalizing out with
  | nil => simp
  | cons c l ih =>
    rw [puts_cons,ih]
    unfold put_char
    dsimp only
    by_cases first : q = out.buf
    · rw [first,if_neg (by omega)]
      by_cases before : out.buf < stop
      · rw [if_pos before,if_pos ⟨le_rfl,before⟩,Function.update_self,Nat.sub_self]
        rfl
      · rw [if_neg before,if_neg (fun both => before both.2)]
    · have same : (if out.buf < stop then Function.update out.mem out.buf c else out.mem) q = out.mem q := by
        split
        · exact Function.update_of_ne first ..
        · rfl
      rw [same]
      by_cases behind : out.buf ≤ q ∧ q < stop
      · have place : q - out.buf = q - (out.buf + 1) + 1 := by omega
        rw [if_pos behind,if_pos (by omega),place,List.getElem?_cons_succ]
      · rw [if_neg behind,if_neg (by omega)]

theorem int_eq {n : Int} (lower : -2^31 ≤ n) (upper : n < 2^31) : int n = some n := if_pos ⟨lower,upper⟩

theorem int_none {n : Int} (lower : n < -2^31) : int n = none := if_neg (fun both => absurd both.1 (not_le.mpr lower))

/-- The width is counted down to -1, or once more when it is negative. -/
theorem pad_spec (stop : Nat) (c : byte) : ∀ (rounds : Nat) {w : Int} (out : Out), w.toNat < rounds → -2^31 ≤ w - 1 → w < 2^31 →
    pad stop c rounds w out = some (w - w.toNat - 1,puts stop (List.replicate w.toNat c) out) := by
  intro rounds
  induction rounds with
  | zero => intro w out enough; omega
  | succ rounds ih =>
    intro w out enough lower upper
    rw [pad,int_eq lower (by omega),Option.bind_some]
    by_cases more : 0 ≤ w - 1
    · obtain ⟨k,rfl⟩ : ∃ k : Nat, w = k + 1 := ⟨(w-1).toNat,by omega⟩
      have count : ((k : Int) + 1).toNat = k + 1 := by omega
      rw [if_pos more,ih _ (by omega) (by omega) (by omega),count,List.replicate_succ,puts_cons]
      simp
    · have none_left : w.toNat = 0 := by omega
      rw [if_neg more,none_left]
      simp

theorem pad_none (stop : Nat) (c : byte) (rounds : Nat) {w : Int} (out : Out) (lower : w - 1 < -2^31) :
    pad stop c (rounds+1) w out = none := by
  rw [pad,int_none lower]
  rfl

theorem pad_eq (stop : Nat) (c : byte) {w : Int} (out : Out) (upper : w < 2^31) : pad stop c (w.toNat + 1) w out =
    if -2^31 ≤ w - 1 then some (w - w.toNat - 1,puts stop (List.replicate w.toNat c) out) else none := by
  split
  · next lower => exact pad_spec stop c _ out (Nat.lt_succ_self _) lower upper
  · next below => exact pad_none stop c _ out (not_le.mp below)

/-- A loop that finds no width left counts it down once. -/
theorem pad_spent (stop : Nat) (c : byte) {w : Int} (out : Out) (spent : w < 0) : pad stop c (w.toNat + 1) w out =
    if -2^31 ≤ w - 1 then some (w - 1,out) else none := by
  have none_left : w.toNat = 0 := by omega
  rw [pad_eq stop c out (by omega),none_left]
  simp

theorem zeros_spec (stop i : Nat) : ∀ (rounds : Nat) {precision : Int} (out : Out), precision.toNat < rounds → i ≤ precision →
    precision < 2^31 → zeros stop i rounds precision out = some (puts stop (List.replicate (precision - i).toNat 48#8) out) := by
  intro rounds
  induction rounds with
  | zero => intro precision out enough; omega
  | succ rounds ih =>
    intro precision out enough above upper
    rw [zeros,int_eq (by omega) (by omega),Option.bind_some]
    by_cases more : (i : Int) ≤ precision - 1
    · have count : (precision - i).toNat = (precision - 1 - i).toNat + 1 := by omega
      rw [if_pos more,ih _ (by omega) more (by omega),count,List.replicate_succ,puts_cons]
    · have none_left : (precision - i).toNat = 0 := by omega
      rw [if_neg more,none_left]
      rfl

theorem copy_spec (stop : Nat) (tmp : Memory) (i : Nat) (out : Out) :
    copy stop tmp i out = puts stop ((List.range i).reverse.map tmp) out := by
  induction i generalizing out with
  | zero => rfl
  | succ i ih => rw [copy,ih,List.range_succ,List.reverse_concat,List.map_cons,puts_cons]

/-! ### The flags -/

variable {num : BitVec 64} {spec : printf_spec}

/-- The flags once the conflict of two of them is settled. -/
def settled (flags : BitVec 32) : BitVec 32 := if flags &&& LEFT ≠ 0#32 then flags &&& ~~~ZEROPAD else flags

theorem settled_and (flags : BitVec 32) {flag : BitVec 32} (other : ~~~ZEROPAD &&& flag = flag) :
    settled flags &&& flag = flags &&& flag := by
  unfold settled
  split
  · rw [BitVec.and_assoc,other]
  · rfl

theorem settled_both (flags : BitVec 32) : settled flags &&& (ZEROPAD + LEFT) = 0#32 ↔
    flags &&& ZEROPAD = 0#32 ∧ flags &&& LEFT = 0#32 := by
  have sum : ZEROPAD + LEFT = ZEROPAD ||| LEFT := by decide
  rw [sum,BitVec.and_or_distrib_left,BitVec.or_eq_zero_iff,settled_and flags (by decide : ~~~ZEROPAD &&& LEFT = LEFT)]
  refine and_congr_left fun right => ?_
  unfold settled
  rw [if_neg (not_not.mpr right)]

/-! ### The whole function in base 10 -/

/-- The sign character as a string. -/
def sign_string (sign : byte) : List byte := if sign ≠ 0#8 then [sign] else []

theorem int_of_lt {n : Int} (upper : n < 2^31) : int n = if -2^31 ≤ n then some n else none := by
  split
  · next lower => exact int_eq lower upper
  · next below => exact int_none (not_le.mp below)

theorem take_sign_spec (num : BitVec 64) (spec : printf_spec) (defined : ¬(Flag spec SIGN ∧ num.toInt = -2^63)) :
    ∃ c num', sign_string c = sign num spec ∧ num'.toNat = magnitude num spec ∧
      take_sign (settled spec.flags) num spec.field_width.toInt =
        if -2^31 ≤ spec.field_width.toInt - (sign num spec).length then
          some (c,num',spec.field_width.toInt - (sign num spec).length) else none := by
  have lower := BitVec.le_toInt spec.field_width
  have upper : spec.field_width.toInt < 2^31 := BitVec.toInt_lt
  have bound := num.isLt
  have counted (c : byte) (num' : BitVec 64) : ((int (spec.field_width.toInt - 1)).map fun w => (c,num',w)) =
      if -2^31 ≤ spec.field_width.toInt - 1 then some (c,num',spec.field_width.toInt - 1) else none := by
    rw [int_of_lt (by omega)]
    split <;> rfl
  have plain (c : byte) (num' : BitVec 64) : some (c,num',spec.field_width.toInt) =
      if -2^31 ≤ spec.field_width.toInt - 0 then some (c,num',spec.field_width.toInt - 0) else none := by
    rw [Int.sub_zero,if_pos (by omega)]
  unfold take_sign
  rw [settled_and spec.flags (by decide : ~~~ZEROPAD &&& SIGN = SIGN),
    settled_and spec.flags (by decide : ~~~ZEROPAD &&& PLUS = PLUS),
    settled_and spec.flags (by decide : ~~~ZEROPAD &&& SPACE = SPACE)]
  unfold sign magnitude
  by_cases signed : Flag spec SIGN
  · have flag : spec.flags &&& SIGN ≠ 0#32 := signed
    rw [if_pos flag,if_pos signed,if_pos signed]
    by_cases negative : num.toInt < 0
    · rw [if_pos negative,if_pos negative,if_neg (fun least => defined ⟨signed,least⟩),counted]
      refine ⟨45#8,-num,rfl,?_,rfl⟩
      rw [BitVec.toInt_eq_toNat_cond] at negative ⊢
      rw [BitVec.toNat_neg]
      split at negative <;> omega
    rw [if_neg negative,if_neg negative]
    have same : num.toNat = num.toInt.natAbs := by
      rw [BitVec.toInt_eq_toNat_cond] at negative ⊢
      split at negative <;> omega
    by_cases plus : Flag spec PLUS
    · have flag : spec.flags &&& PLUS ≠ 0#32 := plus
      rw [if_pos flag,if_pos plus,counted]
      exact ⟨43#8,num,rfl,same,rfl⟩
    have no_plus : ¬spec.flags &&& PLUS ≠ 0#32 := plus
    rw [if_neg no_plus,if_neg plus]
    by_cases space : Flag spec SPACE
    · have flag : spec.flags &&& SPACE ≠ 0#32 := space
      rw [if_pos flag,if_pos space,counted]
      exact ⟨32#8,num,rfl,same,rfl⟩
    · have no_space : ¬spec.flags &&& SPACE ≠ 0#32 := space
      rw [if_neg no_space,if_neg space,plain]
      exact ⟨0#8,num,rfl,same,rfl⟩
  · have flag : ¬spec.flags &&& SIGN ≠ 0#32 := signed
    rw [if_neg flag,if_neg signed,if_neg signed,plain]
    exact ⟨0#8,num,rfl,rfl,rfl⟩

/-- The digits are those of the low half. -/
theorem fill_tmp_spec (locase : byte) (num : BitVec 64) : ∃ tmp,
    fill_tmp 10#32 locase num = some (tmp,(decimal (num.toNat % 2^32)).length) ∧
      (List.range (decimal (num.toNat % 2^32)).length).reverse.map tmp = decimal (num.toNat % 2^32) := by
  have back (mem : Memory) (n : Nat) :
      (List.range (decimal n).length).reverse.map (put mem 0 ((little n).map digit_char)) = decimal n := by
    rw [decimal_length,List.map_reverse,decimal,List.map_reverse]
    congr 1
    refine List.ext_getElem (by simp) fun j inside _ => ?_
    rw [List.length_map,List.length_range] at inside
    have here : put mem 0 ((little n).map digit_char) (0 + j) = _ := put_inside (by rw [List.length_map]; exact inside)
    rw [Nat.zero_add] at here
    rw [List.getElem_map,List.getElem_range,here]
  unfold fill_tmp
  dsimp only
  by_cases zero : num = 0#64
  · rw [if_pos zero,zero]
    exact ⟨_,rfl,rfl⟩
  · rw [if_neg zero,if_neg (by decide),put_dec,h2d_little,BitVec.toNat_setWidth,decimal_length]
    refine ⟨_,rfl,?_⟩
    rw [← decimal_length]
    exact back _ _

theorem put_sign (stop : Nat) (c : byte) (out : Out) :
    (if c ≠ 0#8 then put_char stop c out else out) = puts stop (sign_string c) out := by
  unfold sign_string
  split <;> rfl

theorem put_fields_spec (stop : Nat) (base : BitVec 32) (locase : byte) {c : byte} {tmp : Memory} {s : List byte} (out : Out)
    (sign_is : sign_string c = sign num spec) (tmp_is : (List.range s.length).reverse.map tmp = s) (few : s.length < 2^31)
    (lower : -2^31 ≤ room num spec s) :
    put_fields stop (settled spec.flags) base false locase c tmp s.length (max s.length spec.precision.toInt)
      (room num spec s) out =
      if -2^31 ≤ room num spec s - countdowns spec then some (puts stop (layout num spec s) out) else none := by
  have width : spec.field_width.toInt < 2^31 := BitVec.toInt_lt
  have bound : spec.precision.toInt < 2^31 := BitVec.toInt_lt
  have upper : room num spec s < 2^31 := by
    unfold room
    omega
  have precision (out : Out) : zeros stop s.length ((max s.length spec.precision.toInt : Int).toNat + 1)
      (max s.length spec.precision.toInt) out =
      some (puts stop (List.replicate (spec.precision.toInt - s.length).toNat 48#8) out) := by
    have count : (max (s.length : Int) spec.precision.toInt - s.length).toNat = (spec.precision.toInt - s.length).toNat := by omega
    rw [zeros_spec stop s.length _ out (Nat.lt_succ_self _) (by omega) (by omega),count]
  unfold put_fields
  simp only [Bool.false_eq_true,if_false,put_sign,sign_is,precision,copy_spec,tmp_is,Option.bind_eq_bind,
    Option.bind_some,settled_and spec.flags (by decide : ~~~ZEROPAD &&& LEFT = LEFT)]
  by_cases left : Flag spec LEFT
  · have flag : ¬spec.flags &&& LEFT = 0#32 := left
    have both : ¬settled spec.flags &&& (ZEROPAD + LEFT) = 0#32 := fun none_set => flag ((settled_both _).mp none_set).2
    have one : countdowns spec = 1 := if_pos left
    rw [if_neg both,if_neg flag,one,pad_eq _ _ _ upper]
    unfold layout
    rw [if_pos left,puts_append,puts_append,puts_append]
    split <;> rfl
  have flag : spec.flags &&& LEFT = 0#32 := not_not.mp left
  have same : settled spec.flags = spec.flags := if_neg left
  have spent : room num spec s - (room num spec s).toNat - 1 < 0 := by omega
  by_cases zero : Flag spec ZEROPAD
  · have zero_flag : spec.flags &&& ZEROPAD ≠ 0#32 := zero
    have both : ¬settled spec.flags &&& (ZEROPAD + LEFT) = 0#32 :=
      fun none_set => zero_flag ((settled_both _).mp none_set).1
    have two : countdowns spec = 2 := (if_neg left).trans (if_pos zero)
    rw [if_neg both,if_pos flag,same,if_pos zero_flag,two,pad_eq _ _ _ upper]
    unfold layout
    rw [if_neg left,if_pos zero,puts_append,puts_append,puts_append]
    by_cases lower : -2^31 ≤ room num spec s - 1
    · rw [if_pos lower,Option.bind_some,pad_spent _ _ _ spent]
      by_cases still : -2^31 ≤ room num spec s - 2
      · rw [if_pos still,if_pos (by omega)]
        rfl
      · rw [if_neg still,if_neg (by omega)]
        rfl
    · rw [if_neg lower,if_neg (by omega)]
      rfl
  · have zero_flag : spec.flags &&& ZEROPAD = 0#32 := not_not.mp zero
    have both : settled spec.flags &&& (ZEROPAD + LEFT) = 0#32 := (settled_both _).mpr ⟨zero_flag,flag⟩
    have three : countdowns spec = 3 := (if_neg left).trans (if_neg zero)
    simp only [if_pos both,if_pos flag]
    rw [three,pad_eq _ _ _ upper]
    unfold layout
    rw [if_neg left,if_neg zero,puts_append,puts_append,puts_append]
    by_cases lower : -2^31 ≤ room num spec s - 1
    · rw [if_pos lower,Option.bind_some,pad_spent _ _ _ spent]
      by_cases second : -2^31 ≤ room num spec s - 2
      · rw [if_pos (by omega),Option.bind_some,pad_spent _ _ _ (by omega)]
        by_cases third : -2^31 ≤ room num spec s - 3
        · rw [if_pos third,if_pos (by omega)]
          rfl
        · rw [if_neg third,if_neg (by omega)]
          rfl
      · have third : ¬-2^31 ≤ room num spec s - 3 := by omega
        rw [if_neg (by omega),if_neg third]
        rfl
    · have third : ¬-2^31 ≤ room num spec s - 3 := by omega
      rw [if_neg lower,if_neg third]
      rfl

theorem countdowns_pos (spec : printf_spec) : 1 ≤ countdowns spec := by
  unfold countdowns
  split
  · omega
  · split <;> omega

theorem decimal_short (n : Nat) : (decimal (n % 2^32)).length ≤ 10 := by
  rw [decimal_length]
  unfold little
  split
  · exact Nat.one_le_ofNat
  · exact (Nat.digits_length_le_iff (by decide) _).mpr (lt_trans (Nat.mod_lt _ (by decide)) (by decide))

/-- What the code puts out is made of the digits of the low half, and is defined while the width fits an `int`. -/
theorem number_spec (base : spec.base = 10#32) (defined : ¬(Flag spec SIGN ∧ num.toInt = -2^63)) (out : Out) (stop : Nat) :
    number out stop num spec =
      if -2^31 ≤ room num spec (decimal (magnitude num spec % 2^32)) - countdowns spec then
        some (puts stop (layout num spec (decimal (magnitude num spec % 2^32))) out) else none := by
  obtain ⟨c,num',sign_is,value,signed⟩ := take_sign_spec num spec defined
  obtain ⟨tmp,filled,tmp_is⟩ := fill_tmp_spec ((spec.flags &&& SMALL).setWidth 8) num'
  rw [value] at filled tmp_is
  have short := decimal_short (magnitude num spec)
  have pfx : decide (spec.flags &&& SPECIAL ≠ 0#32 ∧ 10#32 ≠ 10#32) = false := decide_eq_false (fun both => both.2 rfl)
  have flags : (if spec.flags &&& LEFT ≠ 0#32 then spec.flags &&& ~~~ZEROPAD else spec.flags) = settled spec.flags := rfl
  have width : spec.field_width.toInt < 2^31 := BitVec.toInt_lt
  have times := countdowns_pos spec
  have left : spec.field_width.toInt - (sign num spec).length -
      max ((decimal (magnitude num spec % 2^32)).length : Int) spec.precision.toInt =
      room num spec (decimal (magnitude num spec % 2^32)) := rfl
  unfold number
  simp only [flags,signed,base,pfx,Bool.false_eq_true,if_false,Option.bind_eq_bind]
  by_cases first : -2^31 ≤ spec.field_width.toInt - (sign num spec).length
  · rw [if_pos first,Option.bind_some]
    dsimp only
    rw [filled,Option.bind_some,Option.bind_some,left,int_of_lt (by omega)]
    by_cases second : -2^31 ≤ room num spec (decimal (magnitude num spec % 2^32))
    · rw [if_pos second,Option.bind_some]
      exact put_fields_spec stop 10#32 _ out sign_is tmp_is (by omega) second
    · rw [if_neg second,if_neg (by omega)]
      rfl
  · rw [if_neg first,if_neg (by omega)]
    rfl

/-! ### Reading the output back -/

theorem read_on_other {c : byte} (other : ¬(48 ≤ c.toNat ∧ c.toNat < 58)) (n k : Nat) : read_on n (List.replicate k c) = n := by
  induction k with
  | zero => rfl
  | succ k ih =>
    rw [List.replicate_succ,← List.singleton_append,read_on_append]
    unfold read_on at ih ⊢
    rw [List.foldl_cons,List.foldl_nil,if_neg other]
    exact ih

theorem read_on_zeros (k : Nat) : read_on 0 (List.replicate k 48#8) = 0 := by
  induction k with
  | zero => rfl
  | succ k ih =>
    rw [List.replicate_succ,← List.singleton_append,read_on_append]
    exact ih

theorem read_on_sign (n : Nat) : read_on n (sign num spec) = n := by
  unfold sign
  split_ifs <;> rfl

/-- The layout around the digits of a number reads as the number. -/
theorem read_layout (num : BitVec 64) (spec : printf_spec) (n : Nat) : read_number (layout num spec (decimal n)) = n := by
  have spaces (m k : Nat) : read_on m (List.replicate k 32#8) = m := read_on_other (by decide) m k
  unfold read_number layout
  split_ifs
  · simp only [read_on_append,read_on_sign,read_on_zeros,read_on_decimal,spaces]
  · simp only [read_on_append,read_on_sign,read_on_zeros,read_on_decimal]
  · simp only [read_on_append,read_on_sign,read_on_zeros,read_on_decimal,spaces]

/-- Output that is the same everywhere is the same. -/
theorem puts_inj {l m : List byte} (same : ∀ out stop, puts stop l out = puts stop m out) : l = m := by
  have start := same ⟨fun _ => 0#8,0⟩ l.length
  have lengths := congrArg Out.buf start
  rw [puts_buf,puts_buf,Nat.zero_add,Nat.zero_add] at lengths
  refine List.ext_getElem lengths fun j inside inside' => ?_
  have bytes := congrFun (congrArg Out.mem start) j
  rw [puts_mem,puts_mem,if_pos ⟨Nat.zero_le j,inside⟩,if_pos ⟨Nat.zero_le j,inside⟩,Nat.sub_zero,
    List.getElem?_eq_getElem inside,List.getElem?_eq_getElem inside'] at bytes
  exact bytes

/-! ### Which numbers come out right -/

theorem emits_iff_puts (num : BitVec 64) (spec : printf_spec) : Emits num spec ↔ ∀ out stop,
    number out stop num spec = some (puts stop (layout num spec (decimal (magnitude num spec))) out) := by
  constructor
  · intro emits out stop
    obtain ⟨⟨after,place⟩,run,buf,mem⟩ := emits out.mem out.buf stop
    have same_mem : after = (puts stop (layout num spec (decimal (magnitude num spec))) out).mem :=
      funext fun q => (mem q).trans (puts_mem ..).symm
    have same_buf : place = (puts stop (layout num spec (decimal (magnitude num spec))) out).buf := buf.trans (puts_buf ..).symm
    rw [run,same_mem,same_buf]
  · intro puts mem buf stop
    exact ⟨_,puts _ stop,puts_buf ..,puts_mem stop _ ⟨mem,buf⟩⟩

theorem reads_back : ReadsBack := by
  intro mem p v
  refine ⟨_,h2d_decimal mem p v,?_,read_on_decimal _⟩
  intro c member
  obtain ⟨d,digit,rfl⟩ := List.mem_map.mp member
  have small := little_lt (List.mem_reverse.mp digit)
  rw [digit_char_toNat small]
  omega

/-- The least `long long` has no negative. -/
theorem number_least (least : Flag spec SIGN ∧ num.toInt = -2^63) (out : Out) (stop : Nat) :
    number out stop num spec = none := by
  have sign_flag : settled spec.flags &&& SIGN ≠ 0#32 := by
    rw [settled_and spec.flags (by decide : ~~~ZEROPAD &&& SIGN = SIGN)]
    exact least.1
  have none_taken : take_sign (settled spec.flags) num spec.field_width.toInt = none := by
    unfold take_sign
    rw [if_pos sign_flag,if_pos (by omega),if_pos least.2]
  have flags : (if spec.flags &&& LEFT ≠ 0#32 then spec.flags &&& ~~~ZEROPAD else spec.flags) = settled spec.flags := rfl
  unfold number
  simp only [flags,none_taken]
  rfl

/-- In base 10 the number is emitted as it should be exactly when its value fits an `unsigned long` and the width an `int`. -/
theorem number_iff (num : BitVec 64) (spec : printf_spec) (base : spec.base = 10#32) :
    Emits num spec ∧ ReadsBack ↔ Fits num spec := by
  rw [and_iff_left reads_back,emits_iff_puts]
  constructor
  · intro emits
    have defined : ¬(Flag spec SIGN ∧ num.toInt = -2^63) := by
      intro least
      have run := emits ⟨fun _ => 0#8,0⟩ 0
      rw [number_least least] at run
      cases run
    have run := fun out stop => (number_spec base defined out stop).symm.trans (emits out stop)
    have enough : -2^31 ≤ room num spec (decimal (magnitude num spec % 2^32)) - countdowns spec := by
      by_contra less
      have start := run ⟨fun _ => 0#8,0⟩ 0
      rw [if_neg less] at start
      cases start
    have same := puts_inj fun out stop => Option.some.inj ((if_pos enough).symm.trans (run out stop))
    have value : magnitude num spec % 2^32 = magnitude num spec := by
      rw [← read_layout num spec (magnitude num spec % 2^32),same,read_layout]
    rw [value] at enough
    exact ⟨by omega,enough⟩
  · rintro ⟨small,enough⟩ out stop
    have defined : ¬(Flag spec SIGN ∧ num.toInt = -2^63) := by
      rintro ⟨signed,least⟩
      unfold magnitude at small
      rw [if_pos signed,least] at small
      exact absurd small (by decide)
    have value : magnitude num spec % 2^32 = magnitude num spec := Nat.mod_eq_of_lt small
    have run := number_spec base defined out stop
    rw [value,if_pos enough] at run
    exact run

/-- A value with a sign in a padded field. -/
theorem number_padded : Emits (-123) ⟨ZEROPAD + SIGN,8#32,10#32,5#32⟩ ∧ ReadsBack :=
  (number_iff (-123) ⟨ZEROPAD + SIGN,8#32,10#32,5#32⟩ rfl).mpr ⟨by decide,by decide⟩

/-- `2^32` is printed as 0. -/
theorem upper_half_lost : ¬Emits 4294967296#64 ⟨0#32,0#32,10#32,0#32⟩ := by
  intro emits
  obtain ⟨out,run,buf,_⟩ := emits (fun _ => 0#8) 0 64
  cases run
  exact absurd buf (by decide)

end GridOS.Vsprintf
