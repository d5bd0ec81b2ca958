import GridOS.Wheel

/-!
The timers of the kernel on one processor: the five levels of a base, `tv1` to `tv5`, are `vec 0` to `vec 4`. A
list holds the timers whose nodes are linked into it, and a timer is pending while its node has a next one.
-/
namespace GridOS.Timer

def TVR_BITS : Nat := 8
def TVN_BITS : Nat := 6
def TVR_SIZE : Nat := 1 <<< TVR_BITS
def TVN_SIZE : Nat := 1 <<< TVN_BITS
def TVR_MASK : Nat := TVR_SIZE - 1
def TVN_MASK : Nat := TVN_SIZE - 1
def MAX_TVAL : Nat := 1 <<< (TVR_BITS + 4 * TVN_BITS) - 1

structure timer_list where
  expires : BitVec 32
  slack : BitVec 32
  deferrable : Bool
  pending : Bool

structure tvec_base (τ : Type) where
  timer_jiffies : BitVec 32
  next_timer : BitVec 32
  active_timers : BitVec 32
  vec : Nat → Nat → List τ

/-- The base, the timers and the clock, and the timers of the tick that `__run_timers` is at. -/
structure World (τ : Type) extends tvec_base τ where
  timers : τ → timer_list
  jiffies_64 : Nat
  work_list : List τ

def time_before (a b : BitVec 32) : Bool := (a - b).toInt < 0

def time_after_eq (a b : BitVec 32) : Bool := 0 ≤ (a - b).toInt

/-- The last bit that is set in a word. -/
def find_last_bit (word : BitVec 32) : Nat := if word = 0 then 32 else Nat.log2 word.toNat

/-- The time that a timer is put off to, so that timers of about the same time go off together. -/
def apply_slack (slack expires jiffies : BitVec 32) : BitVec 32 :=
  let round (expires_limit : BitVec 32) : BitVec 32 :=
    let mask := expires ^^^ expires_limit
    if mask = 0 then expires else
    let bit := find_last_bit mask
    expires_limit &&& ~~~((1#32 <<< bit) - 1)
  if 0 ≤ slack.toInt then round (expires + slack) else
  let delta := (expires - jiffies).toInt
  if delta < 256 then expires else round (expires + BitVec.ofInt 32 (delta / 256))

/-- The slot for a time: its level and its number there. -/
def internal_add_timer_vec (timer_jiffies expires : BitVec 32) : Nat × Nat :=
  let idx := expires - timer_jiffies
  if idx.toNat < TVR_SIZE then (0,expires.toNat &&& TVR_MASK)
  else if idx.toNat < 1 <<< (TVR_BITS + TVN_BITS) then (1,expires.toNat >>> TVR_BITS &&& TVN_MASK)
  else if idx.toNat < 1 <<< (TVR_BITS + 2 * TVN_BITS) then (2,expires.toNat >>> (TVR_BITS + TVN_BITS) &&& TVN_MASK)
  else if idx.toNat < 1 <<< (TVR_BITS + 3 * TVN_BITS) then (3,expires.toNat >>> (TVR_BITS + 2 * TVN_BITS) &&& TVN_MASK)
  else if idx.toInt < 0 then (0,timer_jiffies.toNat &&& TVR_MASK)
  else
    let expires := if idx.toNat > MAX_TVAL then BitVec.ofNat 32 MAX_TVAL + timer_jiffies else expires
    (4,expires.toNat >>> (TVR_BITS + 3 * TVN_BITS) &&& TVN_MASK)

section Code
variable {τ : Type} [DecidableEq τ]

def World.jiffies (w : World τ) : BitVec 32 := BitVec.ofNat 32 w.jiffies_64

/-- One list of the wheel changes. -/
def World.set_vec (w : World τ) (n i : Nat) (list : List τ) : World τ :=
  { w with vec := fun n' i' => if n' = n ∧ i' = i then list else w.vec n' i' }

/-- The node leaves the list that it is in. -/
def detach_timer (w : World τ) (timer : τ) (clear_pending : Bool) : World τ :=
  { w with vec := fun n i => (w.vec n i).filter (· ≠ timer)
           work_list := w.work_list.filter (· ≠ timer)
           timers := Function.update w.timers timer
             { w.timers timer with pending := !clear_pending && (w.timers timer).pending } }

def detach_expired_timer (w : World τ) (timer : τ) : World τ :=
  let w' := detach_timer w timer true
  if (w.timers timer).deferrable then w' else { w' with active_timers := w'.active_timers - 1 }

def detach_if_pending (w : World τ) (timer : τ) (clear_pending : Bool) : World τ :=
  if (w.timers timer).pending then
    let w' := detach_timer w timer clear_pending
    if (w.timers timer).deferrable then w' else
    { w' with active_timers := w'.active_timers - 1
              next_timer := if (w.timers timer).expires = w'.next_timer then w'.timer_jiffies else w'.next_timer }
  else w

/-- `list_add_tail` to the slot of the timer. -/
def list_add_timer (w : World τ) (timer : τ) : World τ :=
  let slot := internal_add_timer_vec w.timer_jiffies (w.timers timer).expires
  { w.set_vec slot.1 slot.2 (w.vec slot.1 slot.2 ++ [timer]) with
    timers := Function.update w.timers timer { w.timers timer with pending := true } }

def internal_add_timer (w : World τ) (timer : τ) : World τ :=
  let w' := list_add_timer w timer
  if (w.timers timer).deferrable then w' else
  { w' with next_timer := if time_before (w.timers timer).expires w'.next_timer then (w.timers timer).expires else w'.next_timer
            active_timers := w'.active_timers + 1 }

/-- The slot that begins with the tick is spread over the levels below. -/
def cascade (w : World τ) (n index : Nat) : World τ :=
  (w.vec n index).foldl internal_add_timer (w.set_vec n index [])

def World.INDEX (w : World τ) (N : Nat) : Nat := w.timer_jiffies.toNat >>> (TVR_BITS + N * TVN_BITS) &&& TVN_MASK

/-- The levels cascade one after the other as long as the slot is the first one of its level. -/
def cascades : List Nat → World τ → World τ
  | [], w => w
  | N :: rest, w =>
    let index := w.INDEX N
    let w := cascade w (N+1) index
    if index = 0 then cascades rest w else w

/-- `__run_timers` for one tick, up to the loop over the work list. -/
def run_timers_turn (w : World τ) : World τ :=
  let index := w.timer_jiffies.toNat &&& TVR_MASK
  let w := if index = 0 then cascades [0,1,2,3] w else w
  { w.set_vec 0 index [] with timer_jiffies := w.timer_jiffies + 1, work_list := w.vec 0 index }

def mod_timer (w : World τ) (timer : τ) (expires : BitVec 32) : World τ :=
  let w := detach_if_pending w timer false
  internal_add_timer { w with timers := Function.update w.timers timer { w.timers timer with expires } } timer

/-- The time that `hal_timer_mod` puts the timer to. -/
def World.slacked (w : World τ) (timer : τ) (expires : BitVec 32) : BitVec 32 :=
  apply_slack (w.timers timer).slack expires w.jiffies

def hal_timer_mod (w : World τ) (timer : τ) (expires : BitVec 32) : World τ :=
  let expires := w.slacked timer expires
  if (w.timers timer).pending ∧ (w.timers timer).expires = expires then w else mod_timer w timer expires

def hal_timer_add (w : World τ) (timer : τ) : World τ :=
  if (w.timers timer).pending then w else hal_timer_mod w timer (w.timers timer).expires

def hal_timer_del (w : World τ) (timer : τ) : World τ := detach_if_pending w timer true

end Code

/-! ### The slack -/

/-- The mask of the bits below one. -/
theorem mask_toNat {bit : Nat} (inside : bit < 32) : ((1#32 <<< bit) - 1).toNat = 2 ^ bit - 1 := by
  have small : 2 ^ bit < 2 ^ 32 := Nat.pow_lt_pow_right (by decide) inside
  have pos := Nat.two_pow_pos bit
  have shifted : (1#32 <<< bit).toNat = 2 ^ bit := by
    rw [BitVec.toNat_shiftLeft,Nat.shiftLeft_eq]
    norm_num
    exact small
  have one : (1 : BitVec 32).toNat = 1 := rfl
  rw [BitVec.toNat_sub,shifted,one]
  omega

/-- The bits below one are cleared. -/
theorem clear_below (word : BitVec 32) {bit : Nat} (inside : bit < 32) :
    (word &&& ~~~((1#32 <<< bit) - 1)).toNat = word.toNat / 2 ^ bit * 2 ^ bit := by
  have same : word &&& ~~~((1#32 <<< bit) - 1) = (word >>> bit) <<< bit := by
    apply BitVec.eq_of_getLsbD_eq
    intro i below
    have mask : ((1#32 <<< bit) - 1).getLsbD i = decide (i < bit) := by
      rw [BitVec.getLsbD,mask_toNat inside,Nat.testBit_two_pow_sub_one]
    rw [BitVec.getLsbD_and,BitVec.getLsbD_not,mask,BitVec.getLsbD_shiftLeft,BitVec.getLsbD_ushiftRight]
    by_cases low : i < bit
    · simp [low]
    · have place : bit + (i - bit) = i := by omega
      simp [low,below,place]
  have bound : word.toNat / 2 ^ bit * 2 ^ bit < 2 ^ 32 := (Nat.div_mul_le_self ..).trans_lt word.isLt
  rw [same,BitVec.toNat_shiftLeft,BitVec.toNat_ushiftRight,Nat.shiftRight_eq_div_pow,Nat.shiftLeft_eq,
    Nat.mod_eq_of_lt bound]

/-- The time that the slack rounds down to is between the two. -/
theorem last_bit_between {x l : Nat} (le : x ≤ l) (differ : x ^^^ l ≠ 0) :
    x ≤ l / 2 ^ Nat.log2 (x ^^^ l) * 2 ^ Nat.log2 (x ^^^ l) := by
  have apart : x / 2 ^ Nat.log2 (x ^^^ l) ≠ l / 2 ^ Nat.log2 (x ^^^ l) := by
    intro same
    have zero : (x ^^^ l) / 2 ^ Nat.log2 (x ^^^ l) = 0 := by
      rw [← Nat.shiftRight_eq_div_pow,Nat.shiftRight_xor_distrib,Nat.shiftRight_eq_div_pow,Nat.shiftRight_eq_div_pow,
        same,Nat.xor_self]
    have reach := Nat.log2_self_le differ
    exact absurd (Nat.lt_of_div_eq_zero (Nat.two_pow_pos _) zero) (Nat.not_lt.mpr reach)
  have less : x / 2 ^ Nat.log2 (x ^^^ l) < l / 2 ^ Nat.log2 (x ^^^ l) :=
    Nat.lt_of_le_of_ne (Nat.div_le_div_right le) apart
  calc x ≤ (x / 2 ^ Nat.log2 (x ^^^ l) + 1) * 2 ^ Nat.log2 (x ^^^ l) := by
        rw [Nat.mul_comm]
        exact (Nat.lt_mul_div_succ x (Nat.two_pow_pos _)).le
    _ ≤ l / 2 ^ Nat.log2 (x ^^^ l) * 2 ^ Nat.log2 (x ^^^ l) := Nat.mul_le_mul_right _ less

/-- How far `apply_slack` may put a timer off. -/
def allowed_slack (slack expires jiffies : BitVec 32) : Nat :=
  if 0 ≤ slack.toInt then slack.toNat else
  if (expires - jiffies).toInt < 256 then 0 else ((expires - jiffies).toInt / 256).toNat

/-- Rounding down goes no further back than the time asked for. -/
theorem round_between (expires expires_limit : BitVec 32) :
    ((if expires ^^^ expires_limit = 0 then expires else
      expires_limit &&& ~~~((1#32 <<< find_last_bit (expires ^^^ expires_limit)) - 1)) - expires).toNat ≤
      (expires_limit - expires).toNat := by
  split
  · rw [BitVec.sub_self]
    exact Nat.zero_le _
  · next differ =>
    rw [find_last_bit,if_neg differ]
    have some : expires.toNat ^^^ expires_limit.toNat ≠ 0 := by
      rw [← BitVec.toNat_xor]
      exact fun none => differ (BitVec.eq_of_toNat_eq none)
    have inside : Nat.log2 (expires ^^^ expires_limit).toNat < 32 :=
      (Nat.log2_lt (by rw [BitVec.toNat_xor]; exact some)).mpr (BitVec.isLt _)
    have between : expires.toNat ≤ expires_limit.toNat → expires.toNat ≤
        expires_limit.toNat / 2 ^ Nat.log2 (expires ^^^ expires_limit).toNat *
          2 ^ Nat.log2 (expires ^^^ expires_limit).toNat := by
      intro le
      rw [BitVec.toNat_xor]
      exact last_bit_between le some
    have below := Nat.div_mul_le_self expires_limit.toNat (2 ^ Nat.log2 (expires ^^^ expires_limit).toNat)
    have bound := expires_limit.isLt
    have start := expires.isLt
    rw [BitVec.toNat_sub,BitVec.toNat_sub,clear_below expires_limit inside]
    generalize expires_limit.toNat / 2 ^ Nat.log2 (expires ^^^ expires_limit).toNat *
      2 ^ Nat.log2 (expires ^^^ expires_limit).toNat = rounded at *
    omega

/-- From the time asked for on, at most the slack. -/
theorem apply_slack_between (slack expires jiffies : BitVec 32) :
    (apply_slack slack expires jiffies - expires).toNat ≤ allowed_slack slack expires jiffies := by
  unfold apply_slack allowed_slack
  dsimp only
  split
  · refine (round_between ..).trans_eq ?_
    rw [BitVec.add_comm,BitVec.add_sub_cancel]
  · split
    · rw [BitVec.sub_self]
      exact le_rfl
    · next delta =>
      refine (round_between ..).trans ?_
      rw [BitVec.add_comm,BitVec.add_sub_cancel]
      have pos : 0 ≤ (expires - jiffies).toInt / 256 := by omega
      obtain ⟨part,same⟩ := Int.eq_ofNat_of_zero_le pos
      rw [same,BitVec.ofInt_natCast,BitVec.toNat_ofNat,Int.toNat_natCast]
      exact Nat.mod_le ..

/-! ### The slot of a time -/

/-- The masks and shifts as divisions. -/
theorem internal_add_timer_vec_eq (timer_jiffies expires : BitVec 32) :
    internal_add_timer_vec timer_jiffies expires =
      if (expires - timer_jiffies).toNat < 256 then (0,expires.toNat % 256)
      else if (expires - timer_jiffies).toNat < 16384 then (1,expires.toNat / 256 % 64)
      else if (expires - timer_jiffies).toNat < 1048576 then (2,expires.toNat / 16384 % 64)
      else if (expires - timer_jiffies).toNat < 67108864 then (3,expires.toNat / 1048576 % 64)
      else if (expires - timer_jiffies).toInt < 0 then (0,timer_jiffies.toNat % 256)
      else (4,expires.toNat / 67108864 % 64) := by
  have largest : ¬(expires - timer_jiffies).toNat > MAX_TVAL := by
    have bound := (expires - timer_jiffies).isLt
    have value : MAX_TVAL = 4294967295 := rfl
    omega
  have root (n : Nat) : n &&& TVR_MASK = n % 256 := Nat.and_two_pow_sub_one_eq_mod n 8
  have vec (n : Nat) : n &&& TVN_MASK = n % 64 := Nat.and_two_pow_sub_one_eq_mod n 6
  unfold internal_add_timer_vec
  dsimp only
  rw [if_neg largest]
  simp only [root,vec,Nat.shiftRight_eq_div_pow]
  rfl

/-- A time that is past goes to the tick that comes next. -/
theorem vec_of_past {W : Nat} {E : Int} (past : E < W) (recent : (W : Int) - 2 ^ 31 ≤ E) :
    internal_add_timer_vec (BitVec.ofNat 32 W) (BitVec.ofInt 32 E) = (0,Wheel.slotOf 256 64 W 0) := by
  have idx : (BitVec.ofInt 32 E - BitVec.ofNat 32 W).toNat = (2 ^ 32 + E - W).toNat := by
    rw [BitVec.toNat_sub,BitVec.toNat_ofNat,BitVec.toNat_ofInt]
    omega
  have negative : (BitVec.ofInt 32 E - BitVec.ofNat 32 W).toInt < 0 := by
    rw [BitVec.toInt_eq_toNat_cond,idx]
    split <;> omega
  rw [internal_add_timer_vec_eq,idx,if_neg (by omega),if_neg (by omega),if_neg (by omega),if_neg (by omega),
    if_pos negative,BitVec.toNat_ofNat,Wheel.slotOf,Wheel.block,Wheel.size,Nat.div_one]
  congr 1
  omega

/-- Any other time goes to the level that is as long as the distance. -/
theorem vec_of_near {W D : Nat} (later : W ≤ D) (near : D - W < 2 ^ 31) : ∃ level ≤ 4,
    internal_add_timer_vec (BitVec.ofNat 32 W) (BitVec.ofNat 32 D) = (level,Wheel.slotOf 256 64 D level) ∧
      Wheel.Level 256 64 W D level := by
  have idx : (BitVec.ofNat 32 D - BitVec.ofNat 32 W).toNat = D - W := by
    rw [BitVec.toNat_sub,BitVec.toNat_ofNat,BitVec.toNat_ofNat]
    omega
  have positive : ¬(BitVec.ofNat 32 D - BitVec.ofNat 32 W).toInt < 0 := by
    rw [BitVec.toInt_eq_toNat_cond,idx]
    split <;> omega
  have lengths : Wheel.block 256 64 1 = 256 ∧ Wheel.block 256 64 2 = 16384 ∧ Wheel.block 256 64 3 = 1048576 ∧
      Wheel.block 256 64 4 = 67108864 := ⟨rfl,rfl,rfl,rfl⟩
  obtain ⟨one,two,three,four⟩ := lengths
  rw [internal_add_timer_vec_eq,idx,BitVec.toNat_ofNat]
  by_cases root : D - W < 256
  · rw [if_pos root]
    refine ⟨0,by decide,?_,later,.inl rfl,by rw [Wheel.block,Wheel.size]; omega⟩
    rw [Wheel.slotOf,Wheel.block,Wheel.size,Nat.div_one]
    congr 1
    omega
  rw [if_neg root]
  by_cases second : D - W < 16384
  · rw [if_pos second]
    refine ⟨1,by decide,?_,later,.inr (by omega),by rw [one,Wheel.size]; omega⟩
    rw [Wheel.slotOf,one,Wheel.size]
    congr 1
    omega
  rw [if_neg second]
  by_cases third : D - W < 1048576
  · rw [if_pos third]
    refine ⟨2,by decide,?_,later,.inr (by omega),by rw [two,Wheel.size]; omega⟩
    rw [Wheel.slotOf,two,Wheel.size]
    congr 1
    omega
  rw [if_neg third]
  by_cases fourth : D - W < 67108864
  · rw [if_pos fourth]
    refine ⟨3,by decide,?_,later,.inr (by omega),by rw [three,Wheel.size]; omega⟩
    rw [Wheel.slotOf,three,Wheel.size]
    congr 1
    omega
  rw [if_neg fourth,if_neg positive]
  refine ⟨4,by decide,?_,later,.inr (by omega),by rw [four,Wheel.size]; omega⟩
  rw [Wheel.slotOf,four,Wheel.size]
  congr 1
  omega

end GridOS.Timer
