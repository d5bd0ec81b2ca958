import Mathlib.Logic.Function.Basic
import Mathlib.Data.List.Basic

/-!
Open addressing. A table is a family of cells, and each key has its way through them. A search
goes the way of its key and stops at a cell that was never used or that has the key, a deleted
one too. The one invariant is that each entry is where a search for its key stops.
-/
namespace GridOS.ProbeTable

inductive Cell (κ ν : Type)
  | empty
  | deleted (key : κ)
  | live (key : κ) (value : ν)

variable {ι κ ν : Type} [DecidableEq κ]

/-- A search for the key stops here. -/
def Cell.stops (key : κ) : Cell κ ν → Bool
  | .empty => true
  | .deleted k => k = key
  | .live k _ => k = key

def Cell.value : Cell κ ν → Option ν
  | .live _ v => some v
  | _ => none

def find (way : κ → List ι) (cells : ι → Cell κ ν) (key : κ) : Option ι :=
  (way key).find? (fun i => (cells i).stops key)

def lookup (way : κ → List ι) (cells : ι → Cell κ ν) (key : κ) : Option ν :=
  (find way cells key).bind (fun i => (cells i).value)

/-- Each entry is where a search for its key stops. -/
def Reached (way : κ → List ι) (cells : ι → Cell κ ν) : Prop :=
  ∀ i k v, cells i = .live k v → find way cells k = some i

variable {way : κ → List ι} {cells : ι → Cell κ ν} {i j : ι} {k k' : κ} {v v' : ν}

@[simp]
theorem stops_live : (Cell.live k v).stops k' = decide (k = k') := rfl

@[simp]
theorem stops_deleted : (Cell.deleted k : Cell κ ν).stops k' = decide (k = k') := rfl

theorem find_eq_some_iff : find way cells k = some i ↔
    (cells i).stops k = true ∧ ∃ before after, way k = before ++ i :: after ∧ ∀ a ∈ before, (cells a).stops k = false := by
  simp [find,List.find?_eq_some_iff_append]

theorem stops_of_find (found : find way cells k = some i) : (cells i).stops k = true := (find_eq_some_iff.mp found).1

theorem find_congr {other : ι → Cell κ ν} (same : ∀ i, (other i).stops k = (cells i).stops k) :
    find way other k = find way cells k := by
  unfold find
  congr 1
  funext i
  exact same i

theorem Reached.unique (reached : Reached way cells) (first : cells i = .live k v) (second : cells j = .live k v') :
    i = j :=
  Option.some.inj ((reached i k v first).symm.trans (reached j k v' second))

/-- A search finds exactly the entries. -/
theorem Reached.lookup_eq_some (reached : Reached way cells) :
    lookup way cells k = some v ↔ ∃ i, cells i = .live k v := by
  constructor
  · intro found
    obtain ⟨i,stop,here⟩ := Option.bind_eq_some_iff.mp found
    have stops := stops_of_find stop
    cases cell : cells i with
    | empty => simp [cell,Cell.value] at here
    | deleted k' => simp [cell,Cell.value] at here
    | live k' w =>
      rw [cell,stops_live,decide_eq_true_iff] at stops
      simp only [cell,Cell.value,Option.some.injEq] at here
      exact ⟨i,by rw [cell,stops,here]⟩
  · rintro ⟨i,cell⟩
    rw [lookup,reached i k v cell,Option.bind_some,cell]
    rfl

theorem Reached.lookup_eq_none (reached : Reached way cells) :
    lookup way cells k = none ↔ ∀ i v, cells i ≠ .live k v := by
  rw [Option.eq_none_iff_forall_ne_some]
  constructor
  · exact fun none i v cell => none v (reached.lookup_eq_some.mpr ⟨i,cell⟩)
  · rintro absent v found
    obtain ⟨i,cell⟩ := reached.lookup_eq_some.mp found
    exact absent i v cell

/-- Where a table has the same entries otherwise, it has the same values. -/
theorem Reached.lookup_congr {other : ι → Cell κ ν} (reached : Reached way cells) (reached' : Reached way other)
    (same : ∀ i v, other i = .live k v ↔ cells i = .live k v) : lookup way other k = lookup way cells k := by
  ext v
  rw [reached.lookup_eq_some,reached'.lookup_eq_some]
  exact exists_congr (fun i => same i v)

variable [DecidableEq ι]

/-! ### Removing -/

/-- A search that passes an entry passes its deleted cell too, and one that stops there does so still. -/
theorem find_delete (entry : cells j = .live k v) (key : κ) :
    find way (Function.update cells j (.deleted k)) key = find way cells key := by
  apply find_congr
  intro x
  by_cases same : x = j
  · rw [same,Function.update_self,entry]
    rfl
  · rw [Function.update_of_ne same]

theorem Reached.delete (reached : Reached way cells) (entry : cells j = .live k v) :
    Reached way (Function.update cells j (.deleted k)) := by
  intro i k' v' cell
  have other : i ≠ j := by
    rintro rfl
    rw [Function.update_self] at cell
    cases cell
  rw [Function.update_of_ne other] at cell
  rw [find_delete entry,reached i k' v' cell]

theorem Reached.lookup_delete (reached : Reached way cells) (entry : cells j = .live k v) :
    lookup way (Function.update cells j (.deleted k)) = Function.update (lookup way cells) k none := by
  have reached' := reached.delete entry
  funext k'
  by_cases same : k' = k
  · subst same
    rw [Function.update_self,reached'.lookup_eq_none]
    intro i v' cell
    by_cases here : i = j
    · rw [here,Function.update_self] at cell
      cases cell
    · rw [Function.update_of_ne here] at cell
      exact here (reached.unique cell entry)
  · rw [Function.update_of_ne same]
    apply reached.lookup_congr reached'
    intro i v'
    by_cases here : i = j
    · rw [here,Function.update_self,entry]
      simp [Ne.symm same]
    · rw [Function.update_of_ne here]

/-! ### Putting -/

/-- The cell may get the key's entry: it has none, and a search for the key comes to it. -/
structure Open (way : κ → List ι) (cells : ι → Cell κ ν) (key : κ) (j : ι) : Prop where
  free : ∀ k v, cells j ≠ .live k v
  way : ∃ before after, way key = before ++ j :: after ∧ j ∉ before ∧ ∀ a ∈ before, (cells a).stops key = false

theorem Reached.put (reached : Reached way cells) (opened : Open way cells k j) (absent : ∀ i v, cells i ≠ .live k v)
    (v : ν) : Reached way (Function.update cells j (.live k v)) := by
  intro i k' v' cell
  by_cases here : i = j
  · rw [here,Function.update_self] at cell
    cases cell
    obtain ⟨before,after,split,first,passed⟩ := opened.way
    refine find_eq_some_iff.mpr ⟨by simp [here],before,after,here ▸ split,fun a mem => ?_⟩
    have other : a ≠ j := by
      rintro rfl
      exact first mem
    rw [Function.update_of_ne other]
    exact passed a mem
  · rw [Function.update_of_ne here] at cell
    have other : k ≠ k' := by
      rintro rfl
      exact absent i v' cell
    obtain ⟨stop,before,after,split,passed⟩ := find_eq_some_iff.mp (reached i k' v' cell)
    refine find_eq_some_iff.mpr ⟨by rwa [Function.update_of_ne here],before,after,split,fun a mem => ?_⟩
    by_cases same : a = j
    · rw [same,Function.update_self,stops_live,decide_eq_false other]
    · rw [Function.update_of_ne same]
      exact passed a mem

theorem Reached.lookup_put (reached : Reached way cells) (opened : Open way cells k j)
    (absent : ∀ i v, cells i ≠ .live k v) (v : ν) :
    lookup way (Function.update cells j (.live k v)) = Function.update (lookup way cells) k (some v) := by
  have reached' := reached.put opened absent v
  funext k'
  by_cases same : k' = k
  · subst same
    rw [Function.update_self]
    exact reached'.lookup_eq_some.mpr ⟨j,Function.update_self ..⟩
  · rw [Function.update_of_ne same]
    apply reached.lookup_congr reached'
    intro i v'
    by_cases here : i = j
    · rw [here,Function.update_self]
      simp [Ne.symm same,opened.free]
    · rw [Function.update_of_ne here]

end GridOS.ProbeTable
