import Mathlib.Logic.Function.Basic

/-!
Pages that are shared until they are written. The entries of some address spaces name frames; the frames
of a backing store may be named by any number of entries, every other frame by one. What the spaces hold
is a page for each key, either one of the backing store or a content of its own.
-/
namespace GridOS.CopyOnWrite
universe u v w
variable {κ : Type u} {φ : Type v} {γ : Type w}

/-- The frames that the keys are mapped to, and the contents of the frames. -/
structure Spaces (κ : Type u) (φ : Type v) (γ : Type w) where
  frame : κ → Option φ
  memory : φ → γ

inductive Page (φ : Type v) (γ : Type w)
  | backed (frame : φ)
  | own (content : γ)

/-- What the spaces hold. -/
structure Pages (κ : Type u) (φ : Type v) (γ : Type w) where
  page : κ → Option (Page φ γ)
  backing : φ → γ

section Definitions
variable [DecidableEq κ] [DecidableEq φ]

def Spaces.map (s : Spaces κ φ γ) (k : κ) (f : Option φ) : Spaces κ φ γ := { s with frame := Function.update s.frame k f }
def Spaces.fill (s : Spaces κ φ γ) (f : φ) (c : γ) : Spaces κ φ γ := { s with memory := Function.update s.memory f c }

def Pages.set (a : Pages κ φ γ) (k : κ) (p : Option (Page φ γ)) : Pages κ φ γ := { a with page := Function.update a.page k p }

def Pages.content (a : Pages κ φ γ) (k : κ) : Option γ :=
  (a.page k).map fun
    | .backed f => a.backing f
    | .own c => c

/-- A write to a page of the backing store is one to the store, and any other is seen by nobody else. -/
def Pages.write (a : Pages κ φ γ) (k : κ) (c : γ) : Pages κ φ γ :=
  match a.page k with
  | none => a
  | some (.backed f) => { a with backing := Function.update a.backing f c }
  | some (.own _) => a.set k (some (.own c))

end Definitions

/-- No frame in use is free, and two keys name one frame only if it is of the backing store. -/
structure Sound (backed free : φ → Prop) (s : Spaces κ φ γ) : Prop where
  apart : ∀ f, backed f → ¬free f
  used : ∀ k f, s.frame k = some f → ¬free f
  single : ∀ k k' f, s.frame k = some f → s.frame k' = some f → ¬backed f → k = k'

/-- The page is what the spaces hold for the key. -/
inductive Holds (backed : φ → Prop) (s : Spaces κ φ γ) (k : κ) : Option (Page φ γ) → Prop
  | absent (unmapped : s.frame k = none) : Holds backed s k none
  | backed {f : φ} (mapped : s.frame k = some f) (store : backed f) : Holds backed s k (some (.backed f))
  | own {f : φ} (mapped : s.frame k = some f) (other : ¬backed f) : Holds backed s k (some (.own (s.memory f)))

structure Views (backed : φ → Prop) (s : Spaces κ φ γ) (a : Pages κ φ γ) : Prop where
  page : ∀ k, Holds backed s k (a.page k)
  backing : ∀ f, backed f → a.backing f = s.memory f

section
variable {backed free : φ → Prop} {s : Spaces κ φ γ} {a : Pages κ φ γ} {k k' : κ} {f f' : φ} {c : γ}

/-- Another key's page, when nothing of it changes. -/
theorem Holds.congr {s' : Spaces κ φ γ} {page : Option (Page φ γ)} (holds : Holds backed s k page)
    (frame : s'.frame k = s.frame k) (memory : ∀ f, s.frame k = some f → ¬backed f → s'.memory f = s.memory f) :
    Holds backed s' k page := by
  cases holds with
  | absent unmapped => exact .absent (frame.trans unmapped)
  | backed mapped store => exact .backed (frame.trans mapped) store
  | own mapped other =>
    rw [← memory _ mapped other]
    exact .own (frame.trans mapped) other

theorem Sound.weaken {free' : φ → Prop} (sound : Sound backed free s) (less : ∀ f, free' f → free f) : Sound backed free' s :=
  ⟨fun f store given => sound.apart f store (less f given),fun k f mapped given => sound.used k f mapped (less f given),sound.single⟩

theorem Views.content (views : Views backed s a) (mapped : s.frame k = some f) : a.content k = some (s.memory f) := by
  have holds := views.page k
  rw [Pages.content]
  cases page : a.page k with
  | none =>
    rw [page] at holds
    cases holds with
    | absent unmapped => rw [mapped] at unmapped; cases unmapped
  | some p =>
    rw [page] at holds
    cases holds with
    | backed mapped' store =>
      obtain rfl := Option.some.inj (mapped.symm.trans mapped')
      exact congrArg some (views.backing f store)
    | own mapped' other =>
      obtain rfl := Option.some.inj (mapped.symm.trans mapped')
      rfl

theorem Views.absent_iff (views : Views backed s a) : a.page k = none ↔ s.frame k = none := by
  have holds := views.page k
  constructor
  · intro none
    rw [none] at holds
    cases holds with
    | absent unmapped => exact unmapped
  · intro unmapped
    cases page : a.page k with
    | none => rfl
    | some p =>
      rw [page] at holds
      cases holds with
      | backed mapped _ => rw [unmapped] at mapped; cases mapped
      | own mapped _ => rw [unmapped] at mapped; cases mapped

/-! ### The operations -/

section Keys
variable [DecidableEq κ]

@[simp] theorem map_self (o : Option φ) : (s.map k o).frame k = o := Function.update_self ..

@[simp] theorem map_other (differ : k' ≠ k) (o : Option φ) : (s.map k o).frame k' = s.frame k' :=
  Function.update_of_ne differ ..

@[simp] theorem set_self (p : Option (Page φ γ)) : (a.set k p).page k = p := Function.update_self ..

@[simp] theorem set_other (differ : k' ≠ k) (p : Option (Page φ γ)) : (a.set k p).page k' = a.page k' :=
  Function.update_of_ne differ ..

/-- A key is mapped to a frame of the backing store. -/
theorem Sound.share (sound : Sound backed free s) (store : backed f) : Sound backed free (s.map k (some f)) := by
  refine ⟨sound.apart,?_,?_⟩
  · intro k' f' mapped
    by_cases here : k' = k
    · subst here
      obtain rfl := Option.some.inj ((map_self _).symm.trans mapped)
      exact sound.apart f store
    · rw [map_other here] at mapped
      exact sound.used k' f' mapped
  · intro k₁ k₂ f' first second other
    have differ {k'} (mapped : (s.map k (some f)).frame k' = some f') : k' ≠ k := by
      rintro rfl
      obtain rfl := Option.some.inj ((map_self _).symm.trans mapped)
      exact other store
    have first' := (map_other (differ first) _).symm.trans first
    have second' := (map_other (differ second) _).symm.trans second
    exact sound.single k₁ k₂ f' first' second' other

theorem Views.share (views : Views backed s a) (store : backed f) :
    Views backed (s.map k (some f)) (a.set k (some (.backed f))) := by
  refine ⟨?_,views.backing⟩
  intro k'
  by_cases here : k' = k
  · subst here
    rw [set_self]
    exact .backed (map_self _) store
  · rw [set_other here]
    exact (views.page k').congr (map_other here _) fun _ _ _ => rfl

/-- A key is unmapped; its frame becomes free unless it is of the backing store. -/
theorem Sound.unmap {free' : φ → Prop} (sound : Sound backed free s)
    (more : ∀ f, free' f → free f ∨ s.frame k = some f ∧ ¬backed f) : Sound backed free' (s.map k none) := by
  have kept {k' f} (mapped : (s.map k none).frame k' = some f) : k' ≠ k ∧ s.frame k' = some f := by
    by_cases here : k' = k
    · subst here
      cases (map_self _).symm.trans mapped
    · exact ⟨here,(map_other here _).symm.trans mapped⟩
  refine ⟨?_,?_,?_⟩
  · intro f store given
    obtain given | ⟨_,other⟩ := more f given
    · exact sound.apart f store given
    · exact other store
  · intro k' f mapped given
    obtain ⟨differ,mapped'⟩ := kept mapped
    obtain given | ⟨freed,other⟩ := more f given
    · exact sound.used k' f mapped' given
    · exact differ (sound.single k' k f mapped' freed other)
  · exact fun k₁ k₂ f first second other => sound.single k₁ k₂ f (kept first).2 (kept second).2 other

theorem Views.unmap (views : Views backed s a) : Views backed (s.map k none) (a.set k none) := by
  refine ⟨?_,views.backing⟩
  intro k'
  by_cases here : k' = k
  · subst here
    rw [set_self]
    exact .absent (map_self _)
  · rw [set_other here]
    exact (views.page k').congr (map_other here _) fun _ _ _ => rfl

end Keys

section Frames
variable [DecidableEq φ]

@[simp] theorem fill_self : (s.fill f c).memory f = c := Function.update_self ..

@[simp] theorem fill_other (differ : f' ≠ f) : (s.fill f c).memory f' = s.memory f' := Function.update_of_ne differ ..

theorem Sound.fill (sound : Sound backed free s) : Sound backed free (s.fill f c) := ⟨sound.apart,sound.used,sound.single⟩

variable [DecidableEq κ]

/-- A key is mapped to a free frame with a new content. -/
theorem Sound.own {free' : φ → Prop} (sound : Sound backed free s) (taken : free f) (less : ∀ f', free' f' → free f' ∧ f' ≠ f) :
    Sound backed free' ((s.fill f c).map k (some f)) := by
  refine ⟨fun f' store given => sound.apart f' store (less f' given).1,?_,?_⟩
  · intro k' f' mapped given
    by_cases here : k' = k
    · subst here
      obtain rfl := Option.some.inj ((map_self _).symm.trans mapped)
      exact (less f given).2 rfl
    · have mapped' : s.frame k' = some f' := (map_other here _).symm.trans mapped
      exact sound.used k' f' mapped' (less f' given).1
  · intro k₁ k₂ f' first second other
    have place {k'} (mapped : ((s.fill f c).map k (some f)).frame k' = some f') : k' = k ∧ f' = f ∨ s.frame k' = some f' ∧ f' ≠ f := by
      by_cases here : k' = k
      · subst here
        exact .inl ⟨rfl,(Option.some.inj ((map_self _).symm.trans mapped)).symm⟩
      · have mapped' : s.frame k' = some f' := (map_other here _).symm.trans mapped
        exact .inr ⟨mapped',fun same => sound.used k' f' mapped' (same ▸ taken)⟩
    obtain ⟨rfl,same⟩ | ⟨first',differ⟩ := place first
    · obtain ⟨rfl,_⟩ | ⟨_,differ⟩ := place second
      · rfl
      · exact absurd same differ
    · obtain ⟨rfl,same⟩ | ⟨second',_⟩ := place second
      · exact absurd same differ
      · exact sound.single k₁ k₂ f' first' second' other

theorem Views.own (views : Views backed s a) (sound : Sound backed free s) (taken : free f) :
    Views backed ((s.fill f c).map k (some f)) (a.set k (some (.own c))) := by
  refine ⟨?_,?_⟩
  · intro k'
    by_cases here : k' = k
    · subst here
      have holds : Holds backed ((s.fill f c).map k' (some f)) k' (some (.own _)) :=
        .own (map_self _) fun store => sound.apart f store taken
      have filled : ((s.fill f c).map k' (some f)).memory f = c := fill_self
      rw [set_self]
      rwa [filled] at holds
    · rw [set_other here]
      refine (views.page k').congr (map_other here _) ?_
      rintro f' mapped _
      exact fill_other fun same => sound.used k' f' mapped (same ▸ taken)
  · intro f' store
    refine (views.backing f' store).trans (fill_other ?_).symm
    rintro rfl
    exact sound.apart f' store taken

/-- The frame of a key gets a new content. -/
theorem Views.write (views : Views backed s a) (sound : Sound backed free s) (mapped : s.frame k = some f) :
    Views backed (s.fill f c) (a.write k c) := by
  have holds := views.page k
  rw [Pages.write]
  cases page : a.page k with
  | none => rw [views.absent_iff.mp page] at mapped; cases mapped
  | some p =>
    rw [page] at holds
    cases holds with
    | backed mapped' store =>
      obtain rfl := Option.some.inj (mapped.symm.trans mapped')
      refine ⟨?_,?_⟩
      · intro k'
        refine (views.page k').congr rfl ?_
        rintro f' _ other
        exact fill_other fun same => other (same ▸ store)
      · intro f' store'
        show Function.update a.backing f c f' = Function.update s.memory f c f'
        by_cases here : f' = f
        · rw [here,Function.update_self,Function.update_self]
        · rw [Function.update_of_ne here,Function.update_of_ne here]
          exact views.backing f' store'
    | own mapped' other =>
      obtain rfl := Option.some.inj (mapped.symm.trans mapped')
      refine ⟨?_,?_⟩
      · intro k'
        by_cases here : k' = k
        · subst here
          have holds : Holds backed (s.fill f c) k' (some (.own _)) := .own mapped other
          rw [set_self]
          rwa [fill_self] at holds
        · rw [set_other here]
          refine (views.page k').congr rfl ?_
          rintro f' mapped₁ other₁
          refine fill_other ?_
          rintro rfl
          exact here (sound.single k' k f' mapped₁ mapped other₁)
      · intro f' store
        refine (views.backing f' store).trans (fill_other ?_).symm
        rintro rfl
        exact other store

end Frames

end

end GridOS.CopyOnWrite
