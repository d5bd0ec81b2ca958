import Mathlib.Tactic

/-!
The arithmetic of a hierarchical timing wheel. Level 0 has `r` slots of one tick each, and each later level `q`
slots, each as long as the whole level before it. A time `D` that lies in a slot of a level belongs to the slot
`D / block level`, counted round the level, and at time `W` a level holds the slots from the first one that does
not begin before `W`: a slot that begins at `W` is spread over the levels below before `W` itself is served.
-/
namespace GridOS.Wheel

section
variable (r q : Nat)

/-- The ticks in a slot of a level. -/
def block : Nat → Nat
  | 0 => 1
  | k+1 => r * q ^ k

/-- The slots of a level. -/
def size : Nat → Nat
  | 0 => r
  | _+1 => q

/-- The slot of a time. -/
def slotOf (D level : Nat) : Nat := D / block r q level % size r q level

/-- The number of the first slot that does not begin before `W`. -/
def first (W level : Nat) : Nat := (W + (block r q level - 1)) / block r q level

/-- A level at time `W` may hold `D` in this slot. -/
structure Holds (W D level slot : Nat) : Prop where
  slot_eq : slot = slotOf r q D level
  lower : first r q W level ≤ D / block r q level
  upper : D / block r q level < first r q W level + size r q level

/-- The level that a time `D` is put into at time `W`. -/
def Level (W D level : Nat) : Prop :=
  W ≤ D ∧ (level = 0 ∨ block r q level ≤ D - W) ∧ D - W < block r q level * size r q level

end

section Arithmetic
variable {r q : Nat} (rpos : 0 < r) (qpos : 0 < q) {W D level slot : Nat}

theorem block_succ (k : Nat) : block r q (k+1) = block r q k * size r q k := by
  cases k with
  | zero => rw [block,block,size,Nat.pow_zero,Nat.mul_one,Nat.one_mul]
  | succ k => rw [block,block,size,Nat.pow_succ,Nat.mul_assoc]

theorem block_dvd {j k : Nat} (le : j ≤ k) : block r q j ∣ block r q k := by
  induction le with
  | refl => exact dvd_rfl
  | step _ ih => exact ih.trans ⟨_,block_succ _⟩

/-- The next level begins a slot with `W` exactly when this one is at its first slot. -/
theorem begins_succ (begins : block r q level ∣ W) : slotOf r q W level = 0 ↔ block r q (level+1) ∣ W := by
  rw [slotOf,← Nat.dvd_iff_mod_eq_zero,Nat.dvd_div_iff_mul_dvd begins,block_succ]

include rpos qpos

theorem block_pos (k : Nat) : 0 < block r q k := by
  cases k with
  | zero => exact Nat.one_pos
  | succ k => exact Nat.mul_pos rpos (Nat.pow_pos qpos)

theorem block_le {j k : Nat} (le : j ≤ k) : block r q j ≤ block r q k :=
  Nat.le_of_dvd (block_pos rpos qpos k) (block_dvd le)

theorem first_of_dvd (begins : block r q level ∣ W) : first r q W level = W / block r q level := by
  obtain ⟨n,rfl⟩ := begins
  have pos := block_pos rpos qpos level
  rw [first,Nat.mul_add_div pos,Nat.div_eq_of_lt (by omega),Nat.mul_div_cancel_left _ pos,Nat.add_zero]

theorem first_succ : first r q (W+1) level = W / block r q level + 1 := by
  have pos := block_pos rpos qpos level
  have same : W + 1 + (block r q level - 1) = W + block r q level := by omega
  rw [first,same,Nat.add_div_right _ pos]

theorem first_of_not_dvd (inside : ¬block r q level ∣ W) : first r q W level = W / block r q level + 1 := by
  have pos := block_pos rpos qpos level
  have some : 0 < W % block r q level := Nat.pos_of_ne_zero (fun none => inside (Nat.dvd_of_mod_eq_zero none))
  have less := Nat.mod_lt W pos
  have split := Nat.div_add_mod W (block r q level)
  have same : W + (block r q level - 1) =
      block r q level * (W / block r q level + 1) + (W % block r q level - 1) := by
    rw [Nat.mul_add,Nat.mul_one]
    omega
  have rest : (W % block r q level - 1) / block r q level = 0 := Nat.div_eq_of_lt (by omega)
  rw [first,same,Nat.mul_add_div pos,rest,Nat.add_zero]

/-- The first slot is the one of `W` or the next. -/
theorem first_le : first r q W level ≤ W / block r q level + 1 := by
  by_cases begins : block r q level ∣ W
  · rw [first_of_dvd rpos qpos begins]
    omega
  · rw [first_of_not_dvd rpos qpos begins]

theorem le_first : W ≤ block r q level * first r q W level := by
  by_cases begins : block r q level ∣ W
  · rw [first_of_dvd rpos qpos begins,Nat.mul_div_cancel' begins]
  · rw [first_of_not_dvd rpos qpos begins]
    exact (Nat.lt_mul_div_succ W (block_pos rpos qpos level)).le

/-- A time that is put into a level is less than a round of the level ahead. -/
theorem Level.upper {W' : Nat} (put : Level r q W D level) (le : W ≤ W') :
    D / block r q level < first r q W' level + size r q level := by
  obtain ⟨later,_,near⟩ := put
  have reach : W' ≤ block r q level * first r q W' level := le_first rpos qpos
  apply Nat.div_lt_of_lt_mul
  rw [Nat.mul_add]
  omega

/-- Above level 0 it is a slot or more ahead. -/
theorem Level.lower (put : Level r q W D level) (above : level ≠ 0) :
    W / block r q level + 1 ≤ D / block r q level := by
  obtain ⟨later,far,_⟩ := put
  have distance := far.resolve_left above
  calc W / block r q level + 1 = (W + block r q level) / block r q level :=
        (Nat.add_div_right _ (block_pos rpos qpos level)).symm
    _ ≤ D / block r q level := Nat.div_le_div_right (by omega)

/-- Where a time is put it may be held. -/
theorem Level.holds (put : Level r q W D level) : Holds r q W D level (slotOf r q D level) := by
  refine ⟨rfl,?_,put.upper rpos qpos le_rfl⟩
  by_cases bottom : level = 0
  · subst bottom
    rw [first_of_dvd rpos qpos (one_dvd W)]
    exact Nat.div_le_div_right put.1
  · exact (first_le rpos qpos).trans (put.lower rpos qpos bottom)

/-- Where a time is put above level 0 it may be held at the next tick too. -/
theorem Level.holds_next (put : Level r q W D level) (above : level ≠ 0) :
    Holds r q (W+1) D level (slotOf r q D level) := by
  refine ⟨rfl,?_,put.upper rpos qpos (Nat.le_succ W)⟩
  rw [first_succ rpos qpos]
  exact put.lower rpos qpos above

/-- At the next tick the level still holds what is not in a slot that begins now. -/
theorem Holds.next (holds : Holds r q W D level slot)
    (other : block r q level ∣ W → slot ≠ slotOf r q W level) : Holds r q (W+1) D level slot := by
  obtain ⟨own,lower,upper⟩ := holds
  by_cases begins : block r q level ∣ W
  · rw [first_of_dvd rpos qpos begins] at lower upper
    have apart : D / block r q level ≠ W / block r q level := by
      intro same
      exact other begins (by rw [own,slotOf,same]; rfl)
    refine ⟨own,?_,?_⟩
    · rw [first_succ rpos qpos]
      omega
    · rw [first_succ rpos qpos]
      omega
  · rw [first_of_not_dvd rpos qpos begins] at lower upper
    exact ⟨own,by rw [first_succ rpos qpos]; exact lower,by rw [first_succ rpos qpos]; exact upper⟩

/-- What is in a slot that begins now lies in that slot itself. -/
theorem Holds.begins (holds : Holds r q W D level slot) (begins : block r q level ∣ W)
    (own : slot = slotOf r q W level) : W ≤ D ∧ D - W < block r q level := by
  obtain ⟨here,lower,upper⟩ := holds
  rw [first_of_dvd rpos qpos begins] at lower upper
  have round : W / block r q level ≡ D / block r q level [MOD size r q level] := by
    rw [own] at here
    exact here
  have same : D / block r q level - W / block r q level = 0 :=
    Nat.eq_zero_of_dvd_of_lt ((Nat.modEq_iff_dvd' lower).mp round) (by omega)
  have equal : D / block r q level = W / block r q level := by omega
  have start := Nat.mul_div_cancel' begins
  have split := Nat.div_add_mod D (block r q level)
  have less := Nat.mod_lt D (block_pos rpos qpos level)
  rw [equal,start] at split
  omega

/-- What a level holds is not over. -/
theorem Holds.le (holds : Holds r q W D level slot) : W ≤ D :=
  calc W ≤ block r q level * first r q W level := le_first rpos qpos
    _ ≤ block r q level * (D / block r q level) := Nat.mul_le_mul_left _ holds.lower
    _ ≤ D := Nat.mul_div_le ..

end Arithmetic

end GridOS.Wheel
