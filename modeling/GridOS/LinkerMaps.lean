import GridOS.Linker

/-!
`load` with its jumps to `open_again` and the files that it maps for the analysis. An alias is followed without the unmap
that every other way out has.
-/
namespace GridOS.LinkerMaps
open GridOS.Linker

/-- How many files were mapped so far, and which of the mappings were given back. -/
structure Maps where
  mapped : Nat
  unmapped : List Nat

def Maps.map (m : Maps) : Maps := { m with mapped := m.mapped + 1 }

/-- `_unmap_exe_file`. -/
def Maps.unmap (m : Maps) (base : Nat) : Maps := { m with unmapped := m.unmapped ++ [base] }

section Code
variable {φ : Type} (kernel : Kernel φ)

/-- `load` from the label `open_again` on, if it comes there no more often than the rounds. -/
def open_again : (rounds : Nat) → (new_loaded : Bool) → State φ → Maps → Name → Option (Loaded φ × State φ × Maps)
  | 0, _, _, _, _ => none
  | rounds+1, new_loaded, s, m, name =>
    match kernel.open_exe name (is_injected s name) with
    | some exe => some (.handle exe,s,m)
    | none =>
      if new_loaded then some (.invalid,s,m) else
      match kernel.map_exe_file name with
      | none => some (.invalid,s,m)
      | some file =>
        let base := m.mapped
        let m := m.map
        if kernel.elf_analyze file then
          if kernel.inject_exe name then
            -- behind `end1` the file is opened again under its name
            open_again rounds true { s with injected := name :: s.injected } (m.unmap base) name
          else some (.invalid,s,m.unmap base)
        else
          match alias_name file with
          | none => some (.invalid,s,m.unmap base)
          | some name =>
            match get_obj_from_linear_list s name with
            | some (image,s) => some (.aliased image,s,m)
            | none => open_again rounds false s m name

end Code

section Statements
variable {φ : Type} (kernel : Kernel φ)

/-- `load` ends, and each file that it has mapped was unmapped exactly once. -/
def Unmaps (s : State φ) (name : Name) : Prop :=
  ∃ rounds result after maps, open_again kernel rounds false s ⟨0,[]⟩ name = some (result,after,maps) ∧
    ∀ base < maps.mapped, maps.unmapped.count base = 1

/-- The name that `load` goes on with instead of this one. -/
def target (s : State φ) (name : Name) : Option Name :=
  match kernel.open_exe name (is_injected s name) with
  | some _ => none
  | none =>
    match kernel.map_exe_file name with
    | none => none
    | some file => if kernel.elf_analyze file then none else alias_name file

/-- The name opens, cannot be mapped, or is the name of a file that holds no alias. -/
def NoAlias (s : State φ) (name : Name) : Prop := target kernel s name = none

/-- The name after so many aliases, none of which names an image in the list. -/
def follow (s : State φ) : Nat → Name → Option Name
  | 0, name => some name
  | n+1, name => ((target kernel s name).filter (fun name => (locate s name).isNone)).bind (follow s n)

end Statements

section Proofs
variable {φ : Type} {kernel : Kernel φ}

/-- Following an alias, the mapping is left behind. -/
theorem open_again_alias {s : State φ} {name other : Name} (leads : target kernel s name = some other) (rounds : Nat)
    (m : Maps) :
    open_again kernel (rounds+1) false s m name =
      match get_obj_from_linear_list s other with
      | some (image,s) => some (.aliased image,s,m.map)
      | none => open_again kernel rounds false s m.map other := by
  unfold target at leads
  rw [open_again]
  cases opened : kernel.open_exe name (is_injected s name) with
  | some exe => rw [opened] at leads; cases leads
  | none =>
    rw [opened] at leads
    dsimp only at leads ⊢
    rw [if_neg Bool.false_ne_true]
    cases mapped : kernel.map_exe_file name with
    | none => rw [mapped] at leads; cases leads
    | some file =>
      rw [mapped] at leads
      dsimp only at leads ⊢
      by_cases elf : kernel.elf_analyze file = true
      · rw [if_pos elf] at leads
        cases leads
      · rw [if_neg elf] at leads ⊢
        rw [leads]

/-- Without an alias two passes are enough, and at most one file is mapped and given back. -/
theorem open_again_direct {s : State φ} {name : Name} (direct : NoAlias kernel s name) (rounds : Nat) (m : Maps) :
    ∃ result after maps, open_again kernel (rounds+2) false s m name = some (result,after,maps) ∧
      (maps = m ∨ maps = m.map.unmap m.mapped) := by
  unfold NoAlias target at direct
  rw [open_again]
  cases opened : kernel.open_exe name (is_injected s name) with
  | some exe => exact ⟨_,_,_,rfl,.inl rfl⟩
  | none =>
    rw [opened] at direct
    dsimp only at direct ⊢
    rw [if_neg Bool.false_ne_true]
    cases mapped : kernel.map_exe_file name with
    | none => exact ⟨_,_,_,rfl,.inl rfl⟩
    | some file =>
      rw [mapped] at direct
      dsimp only at direct ⊢
      by_cases elf : kernel.elf_analyze file = true
      · rw [if_pos elf]
        by_cases injected : kernel.inject_exe name = true
        · rw [if_pos injected,open_again]
          cases kernel.open_exe name (is_injected { s with injected := name :: s.injected } name) with
          | some exe => exact ⟨_,_,_,rfl,.inr rfl⟩
          | none => exact ⟨_,_,_,rfl,.inr rfl⟩
        · rw [if_neg injected]
          exact ⟨_,_,_,rfl,.inr rfl⟩
      · rw [if_neg elf] at direct ⊢
        rw [direct]
        exact ⟨_,_,_,rfl,.inr rfl⟩

/-- More rounds do not change what comes out. -/
theorem open_again_mono : ∀ (rounds : Nat) {new_loaded : Bool} {s : State φ} {m : Maps} {name : Name}
    {out : Loaded φ × State φ × Maps}, open_again kernel rounds new_loaded s m name = some out →
    open_again kernel (rounds+1) new_loaded s m name = some out := by
  intro rounds
  induction rounds with
  | zero => intro new_loaded s m name out done; cases done
  | succ rounds ih =>
    intro new_loaded s m name out done
    rw [open_again] at done ⊢
    cases opened : kernel.open_exe name (is_injected s name) with
    | some exe =>
      rw [opened] at done
      exact done
    | none =>
      rw [opened] at done
      dsimp only at done ⊢
      split at done
      · next again => rwa [if_pos again]
      · next first =>
        rw [if_neg first]
        cases mapped : kernel.map_exe_file name with
        | none =>
          rw [mapped] at done
          exact done
        | some file =>
          rw [mapped] at done
          dsimp only at done ⊢
          split at done
          · next elf =>
            rw [if_pos elf]
            split at done
            · next injected =>
              rw [if_pos injected]
              exact ih done
            · next refused => rwa [if_neg refused]
          · next no_elf =>
            rw [if_neg no_elf]
            cases text : alias_name file with
            | none =>
              rw [text] at done
              exact done
            | some other =>
              rw [text] at done
              dsimp only at done ⊢
              cases known : get_obj_from_linear_list s other with
              | some image =>
                rw [known] at done
                exact done
              | none =>
                rw [known] at done
                exact ih done

theorem open_again_le {rounds more : Nat} {new_loaded : Bool} {s : State φ} {m : Maps} {name : Name}
    {out : Loaded φ × State φ × Maps} (le : rounds ≤ more) (done : open_again kernel rounds new_loaded s m name = some out) :
    open_again kernel more new_loaded s m name = some out := by
  induction more, le using Nat.le_induction with
  | base => exact done
  | succ more _ ih => exact open_again_mono more ih

theorem open_again_unique {rounds rounds' : Nat} {new_loaded : Bool} {s : State φ} {m : Maps} {name : Name}
    {out out' : Loaded φ × State φ × Maps} (done : open_again kernel rounds new_loaded s m name = some out)
    (done' : open_again kernel rounds' new_loaded s m name = some out') : out = out' :=
  Option.some.inj ((open_again_le (Nat.le_max_left ..) done).symm.trans (open_again_le (Nat.le_max_right ..) done'))

/-- A mapping from before is not given back any more. -/
theorem open_again_keeps : ∀ (rounds : Nat) {s : State φ} {m : Maps} {name : Name}
    {result : Loaded φ} {after : State φ} {maps : Maps},
    open_again kernel rounds false s m name = some (result,after,maps) →
    m.mapped ≤ maps.mapped ∧ ∀ base < m.mapped, maps.unmapped.count base = m.unmapped.count base := by
  intro rounds
  induction rounds with
  | zero => intro s m name result after maps done; cases done
  | succ rounds ih =>
    intro s m name result after maps done
    cases leads : target kernel s name with
    | none =>
      obtain ⟨_,_,_,direct,ends⟩ := open_again_direct leads rounds m
      obtain ⟨rfl,rfl,rfl⟩ : _ = result ∧ _ = after ∧ _ = maps := by simpa using open_again_unique direct done
      rcases ends with rfl | rfl
      · exact ⟨le_rfl,fun _ _ => rfl⟩
      · refine ⟨Nat.le_succ _,fun base before => ?_⟩
        have other : m.mapped ≠ base := by omega
        simp [Maps.unmap,Maps.map,other]
    | some other =>
      rw [open_again_alias leads] at done
      split at done
      · obtain ⟨rfl,rfl,rfl⟩ : _ = result ∧ _ = after ∧ _ = maps := by simpa using done
        exact ⟨Nat.le_succ _,fun _ _ => rfl⟩
      · obtain ⟨more,kept⟩ := ih done
        exact ⟨Nat.le_of_succ_le more,fun base before => kept base (Nat.lt_succ_of_lt before)⟩

/-! ### Which names load as they should -/

/-- `load` ends and gives its mappings back exactly when it does not follow an alias. -/
theorem unmaps_iff (kernel : Kernel φ) (s : State φ) (name : Name) : Unmaps kernel s name ↔ NoAlias kernel s name := by
  constructor
  · rintro ⟨rounds,result,after,maps,done,once⟩
    cases leads : target kernel s name with
    | none => exact leads
    | some other =>
      -- the first mapping is left behind, whatever follows
      have none_back : 0 < maps.mapped ∧ maps.unmapped.count 0 = 0 := by
        have done := open_again_mono rounds done
        rw [open_again_alias leads] at done
        split at done
        · obtain ⟨rfl,rfl,rfl⟩ : _ = result ∧ _ = after ∧ _ = maps := by simpa using done
          exact ⟨Nat.one_pos,rfl⟩
        · obtain ⟨more,kept⟩ := open_again_keeps rounds done
          exact ⟨more,kept 0 Nat.one_pos⟩
      have back := once 0 none_back.1
      rw [none_back.2] at back
      cases back
  · intro direct
    obtain ⟨result,after,maps,done,ends⟩ := open_again_direct direct 0 ⟨0,[]⟩
    refine ⟨_,result,after,maps,done,?_⟩
    rcases ends with rfl | rfl
    · exact fun base none_mapped => absurd none_mapped (Nat.not_lt_zero _)
    · intro base mapped
      obtain rfl : base = 0 := Nat.lt_one_iff.mp mapped
      rfl

/-- `load` ends exactly when the aliases from the name on come to an image of the list or to a name that is none. -/
theorem ends_iff (kernel : Kernel φ) (s : State φ) (name : Name) (m : Maps) :
    (∃ rounds out, open_again kernel rounds false s m name = some out) ↔ ∃ n, follow kernel s n name = none := by
  constructor
  · rintro ⟨rounds,out,done⟩
    induction rounds generalizing name m with
    | zero => cases done
    | succ rounds ih =>
      cases leads : target kernel s name with
      | none => exact ⟨1,by rw [follow,leads]; rfl⟩
      | some other =>
        rw [open_again_alias leads] at done
        unfold get_obj_from_linear_list at done
        cases known : locate s other with
        | some image => exact ⟨1,by rw [follow,leads]; simp [known]⟩
        | none =>
          rw [known] at done
          obtain ⟨n,ends⟩ := ih other m.map done
          exact ⟨n+1,by rw [follow,leads]; simpa [known] using ends⟩
  · rintro ⟨n,ends⟩
    induction n generalizing name m with
    | zero => cases ends
    | succ n ih =>
      cases leads : target kernel s name with
      | none =>
        obtain ⟨_,_,_,done,_⟩ := open_again_direct leads 0 m
        exact ⟨_,_,done⟩
      | some other =>
        cases known : locate s other with
        | some image =>
          have run := open_again_alias leads 0 m
          rw [get_obj_from_linear_list,known] at run
          exact ⟨1,_,run⟩
        | none =>
          rw [follow,leads] at ends
          have ends : follow kernel s n other = none := by simpa [known] using ends
          obtain ⟨rounds,out,done⟩ := ih other m.map ends
          refine ⟨rounds+1,out,?_⟩
          rw [open_again_alias leads,get_obj_from_linear_list,known]
          exact done

/-- With its jumps `load` comes to what it is without them. -/
theorem open_again_load : ∀ {rounds : Nat} {s : State φ} {m : Maps} {name : Name} {result : Loaded φ} {after : State φ},
    load kernel rounds s name = some (result,after) →
    ∃ maps, open_again kernel (rounds+1) false s m name = some (result,after,maps) := by
  intro rounds
  induction rounds with
  | zero => intro s m name result after done; cases done
  | succ rounds ih =>
    intro s m name result after done
    rw [load,← is_injected] at done
    rw [open_again]
    cases opened : kernel.open_exe name (is_injected s name) with
    | some exe =>
      rw [opened] at done
      obtain ⟨rfl,rfl⟩ := Prod.mk.inj (Option.some.inj done)
      exact ⟨_,rfl⟩
    | none =>
      rw [opened] at done
      dsimp only at done ⊢
      rw [if_neg Bool.false_ne_true]
      cases mapped : kernel.map_exe_file name with
      | none =>
        rw [mapped] at done
        obtain ⟨rfl,rfl⟩ := Prod.mk.inj (Option.some.inj done)
        exact ⟨_,rfl⟩
      | some file =>
        rw [mapped] at done
        dsimp only at done ⊢
        split at done
        · next elf =>
          rw [if_pos elf]
          split at done
          · next injected =>
            have there : is_injected { s with injected := name :: s.injected } name = true :=
              decide_eq_true List.mem_cons_self
            rw [if_pos injected,open_again,there]
            cases again : kernel.open_exe name true with
            | some exe =>
              rw [again] at done
              obtain ⟨rfl,rfl⟩ := Prod.mk.inj (Option.some.inj done)
              exact ⟨_,rfl⟩
            | none =>
              rw [again] at done
              obtain ⟨rfl,rfl⟩ := Prod.mk.inj (Option.some.inj done)
              exact ⟨_,rfl⟩
          · next refused =>
            rw [if_neg refused]
            obtain ⟨rfl,rfl⟩ := Prod.mk.inj (Option.some.inj done)
            exact ⟨_,rfl⟩
        · next no_elf =>
          rw [if_neg no_elf]
          cases text : alias_name file with
          | none =>
            rw [text] at done
            obtain ⟨rfl,rfl⟩ := Prod.mk.inj (Option.some.inj done)
            exact ⟨_,rfl⟩
          | some other =>
            rw [text] at done
            dsimp only at done ⊢
            cases known : get_obj_from_linear_list s other with
            | some image =>
              rw [known] at done
              obtain ⟨rfl,rfl⟩ := Prod.mk.inj (Option.some.inj done)
              exact ⟨_,rfl⟩
            | none =>
              rw [known] at done
              exact ih done

/-! ### Two alias files -/

/-- The file g is an image, m an alias of g, and a one of itself. -/
def aliases : Kernel Nat where
  open_exe name _ := if name = ['g'] then some ⟨0,[]⟩ else none
  map_exe_file name :=
    if name = ['m'] then some "alias g ".toList else if name = ['a'] then some "alias a ".toList else none
  inject_exe _ := false
  elf_analyze _ := false

/-- The mapping of m is left behind, and the alias of itself is followed without end. -/
theorem alias_stays_mapped : ¬Unmaps aliases start ['m'] ∧ ¬Unmaps aliases start ['a'] ∧
    ∀ rounds m, open_again aliases rounds false start m ['a'] = none := by
  have leads : target aliases start ['a'] = some ['a'] := by decide
  have never : ∀ rounds m, open_again aliases rounds false start m ['a'] = none := by
    intro rounds
    induction rounds with
    | zero => exact fun _ => rfl
    | succ rounds ih =>
      intro m
      rw [open_again_alias leads]
      exact ih m.map
  refine ⟨?_,?_,never⟩
  · rintro ⟨rounds,result,after,maps,done,once⟩
    have run : open_again aliases 2 false start ⟨0,[]⟩ ['m'] = some (.handle ⟨0,[]⟩,start,⟨1,[]⟩) := rfl
    obtain ⟨rfl,rfl,rfl⟩ : _ = result ∧ _ = after ∧ _ = maps := by simpa using open_again_unique run done
    exact absurd (once 0 Nat.one_pos) (by decide)
  · rintro ⟨rounds,result,after,maps,done,_⟩
    rw [never] at done
    cases done

end Proofs

end GridOS.LinkerMaps
