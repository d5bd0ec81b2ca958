import GridOS.Environ

/-!
`h2d`, the decimal digits of an `unsigned long` of 32 bits: the digits are written from the last one on, and with `revert`
two loops turn them round, one for an even number of digits and one for an odd number.
-/
namespace GridOS.H2d
open GridOS.Environ (byte)

abbrev Memory := Nat → byte

/-! ### The code -/

/-- The first loop, from the `i`-th digit on. -/
def emit (p : Nat) : (rounds : Nat) → Memory → (i : Nat) → (hex : BitVec 32) → Option (Memory × Nat)
  | 0, _, _, _ => none
  | rounds+1, mem, i, hex =>
    let r := hex % 10#32
    let hex := hex / 10#32
    let r := r + 48#32
    let mem := Function.update mem (p + i) (r.setWidth 8)
    let i := i + 1
    if hex < 10#32 then some (Function.update mem (p + i) ((hex + 48#32).setWidth 8),i+1) else emit p rounds mem i hex

def swap (mem : Memory) (a b : Nat) : Memory :=
  let r := mem a
  Function.update (Function.update mem a (mem b)) b r

/-- The loops that turn the digits round; `again r_f r_t` is the condition at their end. -/
def turn (p : Nat) (again : Nat → Nat → Bool) : (rounds : Nat) → Memory → (r_t r_f : Nat) → Option Memory
  | 0, _, _, _ => none
  | rounds+1, mem, r_t, r_f =>
    let mem := swap mem (p + r_t) (p + r_f)
    let r_t := r_t + 1
    let r_f := r_f - 1
    if again r_f r_t then turn p again rounds mem r_t r_f else some mem

/-- The memory and the number of digits. -/
def h2d (mem : Memory) (p : Nat) (revert : Int) (hex : BitVec 32) : Option (Memory × Nat) :=
  if hex < 10#32 then some (Function.update mem p ((hex + 48#32).setWidth 8),1) else
  match emit p 10 mem 0 hex with
  | none => none
  | some (mem,i) =>
    if revert = 0 then some (mem,i) else
    let turned := if i % 2 = 0 then turn p (fun r_f r_t => decide (r_f > r_t)) i mem 0 (i-1)
      else turn p (fun r_f r_t => decide (r_f ≠ r_t)) i mem 0 (i-1)
    turned.map (fun mem => (mem,i))

/-! ### Decimal digits -/

def digit_char (d : Nat) : byte := BitVec.ofNat 8 (48 + d)

/-- The decimal digits of a number from the last one on; 0 has one. -/
def little (n : Nat) : List Nat := if n = 0 then [0] else Nat.digits 10 n

/-- The decimal digits of a number as they are written. -/
def decimal (n : Nat) : List byte := (little n).reverse.map digit_char

/-- Digits are read behind a number; other characters do not count. -/
def read_on (n : Nat) (s : List byte) : Nat :=
  s.foldl (fun n c => if 48 ≤ c.toNat ∧ c.toNat < 58 then 10 * n + (c.toNat - 48) else n) n

/-- The number that a string is read as. -/
def read_number (s : List byte) : Nat := read_on 0 s

theorem little_small {n : Nat} (small : n < 10) : little n = [n] := by
  unfold little
  split
  · next zero => rw [zero]
  · next some_n => exact Nat.digits_of_lt 10 n some_n small

theorem little_step {n : Nat} (big : 10 ≤ n) : little n = n % 10 :: little (n / 10) := by
  have here : n ≠ 0 := by omega
  have there : n / 10 ≠ 0 := by omega
  unfold little
  rw [if_neg here,if_neg there,Nat.digits_def' (by omega) (by omega)]

theorem little_lt {n d : Nat} (member : d ∈ little n) : d < 10 := by
  unfold little at member
  split at member
  · rw [List.mem_singleton] at member
    omega
  · exact Nat.digits_lt_base (by omega) member

theorem ofDigits_little (n : Nat) : Nat.ofDigits 10 (little n) = n := by
  unfold little
  split
  · next zero => rw [zero]; rfl
  · exact Nat.ofDigits_digits 10 n

theorem digit_char_toNat {d : Nat} (digit : d < 10) : (digit_char d).toNat = 48 + d := by
  unfold digit_char
  rw [BitVec.toNat_ofNat]
  omega

theorem decimal_length (n : Nat) : (decimal n).length = (little n).length := by
  unfold decimal
  rw [List.length_map,List.length_reverse]

theorem read_on_append (n : Nat) (s t : List byte) : read_on n (s ++ t) = read_on (read_on n s) t := List.foldl_append

theorem read_on_digit (n : Nat) {d : Nat} (digit : d < 10) : read_on n [digit_char d] = 10 * n + d := by
  unfold read_on
  rw [List.foldl_cons,List.foldl_nil,digit_char_toNat digit,if_pos (by omega),Nat.add_sub_cancel_left]

theorem read_on_digits (n : Nat) {ds : List Nat} (digits : ∀ d ∈ ds, d < 10) :
    read_on n (ds.reverse.map digit_char) = 10 ^ ds.length * n + Nat.ofDigits 10 ds := by
  induction ds with
  | nil => simp [read_on]
  | cons d ds ih =>
    rw [List.reverse_cons,List.map_append,read_on_append,ih (fun e member => digits e (List.mem_cons_of_mem _ member)),
      List.map_singleton,read_on_digit _ (digits d List.mem_cons_self),Nat.ofDigits_cons,List.length_cons]
    ring

theorem read_on_decimal (n : Nat) : read_on 0 (decimal n) = n := by
  unfold decimal
  rw [read_on_digits 0 (fun d => little_lt),ofDigits_little,Nat.mul_zero,Nat.zero_add]

/-! ### Bytes in memory -/

/-- Memory with a list of bytes at a place. -/
def put (mem : Memory) (p : Nat) (l : List byte) : Memory := fun q => if p ≤ q then l[q - p]?.getD (mem q) else mem q

@[simp] theorem put_nil (mem : Memory) (p : Nat) : put mem p [] = mem := by
  funext q
  simp [put]

theorem put_inside {mem : Memory} {p j : Nat} {l : List byte} (inside : j < l.length) : put mem p l (p + j) = l[j] := by
  unfold put
  rw [if_pos (Nat.le_add_right ..),Nat.add_sub_cancel_left,List.getElem?_eq_getElem inside]
  rfl

theorem put_outside {mem : Memory} {p q : Nat} {l : List byte} (outside : q < p ∨ p + l.length ≤ q) : put mem p l q = mem q := by
  unfold put
  split
  · rw [List.getElem?_eq_none (by omega)]
    rfl
  · rfl

theorem update_put (mem : Memory) (p : Nat) (l : List byte) (c : byte) :
    Function.update (put mem p l) (p + l.length) c = put mem p (l ++ [c]) := by
  funext q
  by_cases here : q = p + l.length
  · rw [here,Function.update_self,put_inside (by rw [List.length_append,List.length_singleton]; omega)]
    simp
  rw [Function.update_of_ne here]
  by_cases inside : p ≤ q ∧ q < p + l.length
  · obtain ⟨j,rfl⟩ : ∃ j, q = p + j := ⟨q - p,by omega⟩
    rw [put_inside (by omega),put_inside (by rw [List.length_append]; omega),List.getElem_append_left]
  · rw [put_outside (by omega),put_outside (by rw [List.length_append,List.length_singleton]; omega)]

/-! ### The loops -/

theorem setWidth_digit {hex : BitVec 32} (digit : hex.toNat < 10) : (hex + 48#32).setWidth 8 = digit_char hex.toNat := by
  refine BitVec.eq_of_toNat_eq ?_
  rw [digit_char_toNat digit,BitVec.toNat_setWidth,BitVec.toNat_add,BitVec.toNat_ofNat]
  omega

theorem emit_spec (mem : Memory) (p : Nat) : ∀ (rounds : Nat) (done : List byte) {hex : BitVec 32},
    10 ≤ hex.toNat → hex.toNat < 10 ^ (rounds + 1) →
    emit p rounds (put mem p done) done.length hex =
      some (put mem p (done ++ (little hex.toNat).map digit_char),done.length + (little hex.toNat).length) := by
  intro rounds
  induction rounds with
  | zero => intro done hex big small; omega
  | succ rounds ih =>
    intro done hex big small
    have quotient : (hex / 10#32).toNat = hex.toNat / 10 := BitVec.toNat_udiv ..
    have digit : (hex % 10#32).toNat = hex.toNat % 10 := BitVec.toNat_umod ..
    have last : (hex % 10#32).toNat < 10 := by omega
    rw [emit,little_step big,setWidth_digit last,update_put,digit]
    have length : done.length + 1 = (done ++ [digit_char (hex.toNat % 10)]).length := by simp
    rw [length]
    split
    · next less =>
      have first : (hex / 10#32).toNat < 10 := less
      rw [update_put,setWidth_digit first,little_small (by omega),quotient]
      simp
    · next more =>
      have rest : ¬(hex / 10#32).toNat < 10 := more
      have fewer : hex.toNat / 10 < 10 ^ (rounds + 1) := by
        rw [Nat.div_lt_iff_lt_mul (by omega),← Nat.pow_succ]
        exact small
      rw [ih _ (by omega) (by rw [quotient]; exact fewer),quotient]
      simp
      omega

/-- The first and the last `k` of `n` bytes changed round. -/
def mirrored (mem : Memory) (p n k : Nat) : Memory := fun q =>
  if p ≤ q ∧ q < p + n ∧ (q - p < k ∨ n ≤ q - p + k) then mem (p + (n - 1 - (q - p))) else mem q

theorem swap_mirrored (mem : Memory) (p : Nat) {n k : Nat} (apart : k < n - 1 - k) :
    swap (mirrored mem p n k) (p + k) (p + (n - 1 - k)) = mirrored mem p n (k+1) := by
  funext q
  unfold swap
  by_cases last : q = p + (n - 1 - k)
  · rw [last,Function.update_self]
    unfold mirrored
    rw [if_neg (by omega),if_pos (by omega)]
    congr 1
    omega
  rw [Function.update_of_ne last]
  by_cases first : q = p + k
  · rw [first,Function.update_self]
    unfold mirrored
    rw [if_neg (by omega),if_pos (by omega)]
    congr 1
    omega
  rw [Function.update_of_ne first]
  unfold mirrored
  refine if_congr ?_ rfl rfl
  omega

/-- Both loops end in the middle: where the ends have met or passed each other. -/
theorem turn_spec (mem : Memory) (p : Nat) {n : Nat} {again : Nat → Nat → Bool}
    (condition : ∀ k, k + 1 ≤ n / 2 → (again (n - 1 - k - 1) (k+1) = true ↔ k + 1 < n / 2)) :
    ∀ {rounds k : Nat}, k < n / 2 → n / 2 ≤ k + rounds →
      turn p again rounds (mirrored mem p n k) k (n - 1 - k) = some (mirrored mem p n (n / 2)) := by
  intro rounds
  induction rounds with
  | zero => intro k less enough; omega
  | succ rounds ih =>
    intro k less enough
    rw [turn,swap_mirrored mem p (by omega)]
    by_cases more : k + 1 < n / 2
    · have place : n - 1 - k - 1 = n - 1 - (k+1) := by omega
      rw [if_pos ((condition k (by omega)).mpr more),place]
      exact ih more (by omega)
    · have middle : k + 1 = n / 2 := by omega
      rw [if_neg (mt (condition k (by omega)).mp more),middle]

theorem mirrored_put (mem : Memory) (p : Nat) (l : List byte) :
    mirrored (put mem p l) p l.length (l.length / 2) = put mem p l.reverse := by
  funext q
  unfold mirrored
  by_cases inside : p ≤ q ∧ q < p + l.length
  · obtain ⟨j,rfl⟩ : ∃ j, q = p + j := ⟨q - p,by omega⟩
    have mirror : put mem p l.reverse (p + j) = l[l.length - 1 - j] := by
      rw [put_inside (by rw [List.length_reverse]; omega),List.getElem_reverse]
    rw [mirror,Nat.add_sub_cancel_left]
    split
    · rw [put_inside (by omega)]
    · rw [put_inside (by omega)]
      congr 1
      omega
  · rw [if_neg (by omega),put_outside (by omega),put_outside (by rw [List.length_reverse]; omega)]

theorem mirrored_zero (mem : Memory) (p n : Nat) : mirrored mem p n 0 = mem := by
  funext q
  unfold mirrored
  rw [if_neg (by omega)]

/-! ### The whole function -/

theorem h2d_small (mem : Memory) (p : Nat) (revert : Int) {hex : BitVec 32} (small : hex.toNat < 10) :
    h2d mem p revert hex = some (put mem p [digit_char hex.toNat],1) := by
  have less : hex < 10#32 := small
  have place := update_put mem p [] (digit_char hex.toNat)
  rw [put_nil,List.length_nil,Nat.add_zero,List.nil_append] at place
  unfold h2d
  rw [if_pos less,setWidth_digit small,place]

/-- The digits from the last one on. -/
theorem h2d_little (mem : Memory) (p : Nat) (hex : BitVec 32) :
    h2d mem p 0 hex = some (put mem p ((little hex.toNat).map digit_char),(little hex.toNat).length) := by
  by_cases small : hex.toNat < 10
  · rw [h2d_small mem p 0 small,little_small small]
    rfl
  · have less : ¬hex < 10#32 := small
    have emitted := emit_spec mem p 10 [] (not_lt.mp small) (lt_trans hex.isLt (by decide))
    rw [put_nil,List.length_nil,List.nil_append,Nat.zero_add] at emitted
    unfold h2d
    rw [if_neg less,emitted]
    rfl

/-- The digits as they are written. -/
theorem h2d_decimal (mem : Memory) (p : Nat) (hex : BitVec 32) :
    h2d mem p 1 hex = some (put mem p (decimal hex.toNat),(decimal hex.toNat).length) := by
  by_cases small : hex.toNat < 10
  · unfold decimal
    rw [h2d_small mem p 1 small,little_small small]
    rfl
  · have less : ¬hex < 10#32 := small
    have emitted := emit_spec mem p 10 [] (not_lt.mp small) (lt_trans hex.isLt (by decide))
    rw [put_nil,List.length_nil,List.nil_append,Nat.zero_add] at emitted
    have two : 2 ≤ (little hex.toNat).length := by
      have more := little_step (not_lt.mp small)
      have some_digit : little (hex.toNat / 10) ≠ [] := by
        unfold little
        rw [if_neg (by omega)]
        exact Nat.digits_ne_nil_iff_ne_zero.mpr (by omega)
      have positive := List.length_pos_iff.mpr some_digit
      rw [more,List.length_cons]
      omega
    have turned : ∀ again : Nat → Nat → Bool,
        (∀ k, k + 1 ≤ (little hex.toNat).length / 2 →
          (again ((little hex.toNat).length - 1 - k - 1) (k+1) = true ↔ k + 1 < (little hex.toNat).length / 2)) →
        turn p again (little hex.toNat).length (put mem p ((little hex.toNat).map digit_char)) 0
          ((little hex.toNat).length - 1) = some (put mem p (decimal hex.toNat)) := by
      intro again condition
      have round := mirrored_put mem p ((little hex.toNat).map digit_char)
      rw [List.length_map,← List.map_reverse] at round
      have run : turn p again (little hex.toNat).length
          (mirrored (put mem p ((little hex.toNat).map digit_char)) p (little hex.toNat).length 0) 0
          ((little hex.toNat).length - 1 - 0) = some _ := turn_spec _ p condition (by omega) (by omega)
      rwa [mirrored_zero,Nat.sub_zero,round] at run
    unfold h2d
    rw [if_neg less,emitted]
    dsimp only
    rw [if_neg (by decide),decimal_length]
    split
    · next even =>
      have condition (k : Nat) (within : k + 1 ≤ (little hex.toNat).length / 2) :
          decide ((little hex.toNat).length - 1 - k - 1 > k + 1) = true ↔ k + 1 < (little hex.toNat).length / 2 := by
        rw [decide_eq_true_iff]
        omega
      rw [turned _ condition]
      rfl
    · next odd =>
      have condition (k : Nat) (within : k + 1 ≤ (little hex.toNat).length / 2) :
          decide ((little hex.toNat).length - 1 - k - 1 ≠ k + 1) = true ↔ k + 1 < (little hex.toNat).length / 2 := by
        rw [decide_eq_true_iff]
        omega
      rw [turned _ condition]
      rfl

end GridOS.H2d
