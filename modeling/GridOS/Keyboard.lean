import Mathlib.Tactic

/-!
The keyboard of `source/subsystem/session/kb_unicode.c`: the tables, `kb_input_stream`, and the word
`ext_code` in which it keeps the shift and caps lock state and the prefix of an extended key. The prefix
is an assignment to the word and is never taken back, and the two shift keys share a bit.
-/
namespace GridOS.Keyboard

def KEY_MAX : Nat := 0x2ff
def BASE_KEY_MAX_NUM : Nat := 111
def IF_EXTEND : Nat := 0xe0
def KEY_SHIFT_LEFT : Nat := 0x2a
def KEY_SHIFT_RIGHT : Nat := 0x36
def KEY_CAP_LOCK : Nat := 0x3a

def EXTER_SHIFT_BIT : BitVec 32 := 1
def EXTER_CAP_LOCK_BIT : BitVec 32 := 2
def EXT_CODE_1 : BitVec 32 := 4

def IFI_DEVICE_PKG_COUNT : Nat := 32

/-! ### The tables -/

def K (t s f : Nat) : Nat := t ||| s <<< 8 ||| f <<< 16

/-- A character from `'\201'` on is negative as an `int`. -/
def octal (c : Nat) : Nat := 0xFFFFFF00 + c

def chars (s : String) : List Nat := s.toList.map Char.toNat

/-- The three tables differ in four of their rows of characters. -/
def code_key (digits top middle bottom : String) : List Nat :=
  [0,K 0o33 0 0] ++ chars digits ++ [0o177,9] ++ chars top ++ [13,0] ++ chars middle ++ [0] ++ chars bottom ++
  [0,42,0,32,0] ++ [octal 0o201,octal 0o202,octal 0o203,octal 0o204,octal 0o205] ++
  [octal 0o206,octal 0o207,octal 0o210,octal 0o211,octal 0o212,0,0] ++ chars "789-456+1230" ++
  [0o177,0,0,octal 0o213,octal 0o214,0,0,0,0,0,0,0,0] ++ [13,0,47] ++ List.replicate 13 0 ++
  [K 0o33 91 65,K 0o33 91 66,K 0o33 91 68,K 0o33 91 67] ++ List.replicate (KEY_MAX - 116) 0

def normal_code_key : List Nat := code_key "1234567890-=" "qwertyuiop[]" "asdfghjkl;'`" "\\zxcvbnm,./"
def shift_code_key : List Nat := code_key "!@#$%^&*()_+" "qwertyuiop\x7b\x7d" "asdfghjkl:\"~" "|zxcvbnm<>?"
def cap_lock_code_key : List Nat := code_key "1234567890-=" "QWERTYUIOP[]" "ASDFGHJKL;'`" "\\ZXCVBNM,./"

def KEY_UP : Nat := 112
def KEY_DOWN : Nat := 113
def KEY_LEFT : Nat := 114
def KEY_RIGHT : Nat := 115

def double_key_table : List Nat :=
  List.replicate 64 0 ++ [0,0,0,0,0,0,0,0,KEY_UP,0,0,KEY_LEFT,0,KEY_RIGHT,0,0] ++
  [KEY_DOWN,0,0,0,0,0,0,0,0,0,0,0,0,0,0,0] ++ List.replicate (KEY_MAX - 96) 0

/-- Each name in the table is that of its own place. -/
def single_key_table : List Nat := List.range BASE_KEY_MAX_NUM

inductive KeyTable
  | double
  | single
  deriving DecidableEq

def KeyTable.codes : KeyTable → List Nat
  | .double => double_key_table
  | .single => single_key_table

example : normal_code_key.length = KEY_MAX ∧ double_key_table.length = KEY_MAX := by decide +kernel

/-! ### The device -/

structure ifi_package where
  flags : Nat
  code : Nat
  deriving DecidableEq

structure ifi_device where
  ifi_buffer : Nat → ifi_package
  store_pos : Nat
  fetch_pos : Nat
  free_count : Nat
  ext_code : BitVec 32

/-- `ifi_device_create`, whose memory is cleared. -/
def ifi_device_create : ifi_device := ⟨fun _ => ⟨0,0⟩,0,0,IFI_DEVICE_PKG_COUNT,0⟩

def in_shift_state (dev : ifi_device) : Bool := dev.ext_code &&& EXTER_SHIFT_BIT ≠ 0
def in_cap_lock_state (dev : ifi_device) : Bool := dev.ext_code &&& EXTER_CAP_LOCK_BIT ≠ 0

/-- A byte of an `unsigned int`. -/
def byte (entry i : Nat) : Nat := entry >>> (8 * i) % 256

/-- The bytes from an entry of the table on up to a 0, which the loop does not look for in that entry alone. -/
def sequence (code_table : List Nat) (index : Nat) : List Nat :=
  ((code_table.drop index).flatMap (fun entry => [byte entry 0,byte entry 1,byte entry 2,byte entry 3])).takeWhile
    (fun code => decide (code ≠ 0))

/-- One round of the loop that stores. -/
def store (dev : ifi_device) (code : Nat) : ifi_device :=
  { dev with
    ifi_buffer := Function.update dev.ifi_buffer dev.store_pos ⟨0,code⟩
    store_pos := if dev.store_pos + 1 = IFI_DEVICE_PKG_COUNT then 0 else dev.store_pos + 1
    free_count := dev.free_count - 1 }

section Input
variable (behind : Nat → Nat)

/-- The codes of a key; what lies behind `single_key_table` is whatever it is. -/
def code_of (table_name : Option KeyTable) (scancode : Nat) (code_table : List Nat) : List Nat :=
  match table_name with
  | some table => sequence code_table (table.codes.getD scancode (behind scancode))
  | none => [0]

def store_code (dev : ifi_device) (table_name : Option KeyTable) (scancode : Nat) (code_table : List Nat) :
    Nat × ifi_device :=
  let code := code_of behind table_name scancode code_table
  if dev.free_count < code.length then (0,dev) else (code.length,code.foldl store dev)

def set_ext_cap_lock_bit (dev : ifi_device) : ifi_device :=
  if in_cap_lock_state dev then { dev with ext_code := dev.ext_code &&& ~~~EXTER_CAP_LOCK_BIT }
  else { dev with ext_code := dev.ext_code ||| EXTER_CAP_LOCK_BIT }

/-- The table that the characters are taken from. -/
def code_table (dev : ifi_device) : List Nat :=
  if in_shift_state dev then shift_code_key else if in_cap_lock_state dev then cap_lock_code_key else normal_code_key

/-- The table that the scan code is looked up in, none for a release. -/
def table_name (dev : ifi_device) (scancode : Nat) (down : Int) : Option KeyTable :=
  if down = 0 then none
  else if dev.ext_code = EXT_CODE_1 ∨ (scancode > 71 ∧ scancode < 81) then some .double
  else some .single

/-- A scan code, which is a byte, and 1 for a press, 2 for a repeat or 0 for a release. -/
structure Scan where
  scancode : Nat
  down : Int
  small : scancode < 256

def kb_input_stream (dev : ifi_device) (e : Scan) : Nat × ifi_device :=
  if e.scancode = IF_EXTEND then (0,{ dev with ext_code := EXT_CODE_1 }) else
  if e.scancode = KEY_SHIFT_LEFT ∨ e.scancode = KEY_SHIFT_RIGHT then
    if e.down = 1 then (0,{ dev with ext_code := dev.ext_code ||| EXTER_SHIFT_BIT })
    else if e.down = 0 then (0,{ dev with ext_code := dev.ext_code &&& ~~~EXTER_SHIFT_BIT })
    else (0,dev)
  else if e.scancode = KEY_CAP_LOCK then
    if e.down = 1 then (0,set_ext_cap_lock_bit dev) else (0,dev)
  else store_code behind dev (table_name dev e.scancode e.down) e.scancode (code_table dev)

end Input

end GridOS.Keyboard
