import ItemStore.Dict.Lemmas

/-!
Dictionaries that keep their keys in order, and the part of one between two bounds.
-/

namespace ItemStore

structure SortedDict (κ α : Type) [Ord κ] where
  entries : Dict κ α
  ascending : entries.Ascending
deriving DecidableEq

inductive Bound (κ : Type) where
  | unbounded
  | included (key : κ)
  | excluded (key : κ)

namespace Bound

variable {κ : Type} [Ord κ]

def admitsFrom : Bound κ → κ → Bool
  | .unbounded, _ => true
  | .included low, key => (compare key low).isGE
  | .excluded low, key => (compare key low).isGT

def admitsTo : Bound κ → κ → Bool
  | .unbounded, _ => true
  | .included high, key => (compare key high).isLE
  | .excluded high, key => (compare key high).isLT

theorem admitsFrom_mono [Std.TransOrd κ] {bound : Bound κ} {key other : κ}
    (less : compare key other = .lt) (admitted : bound.admitsFrom key = true) :
    bound.admitsFrom other = true := by
  cases bound with
  | unbounded => rfl
  | included low =>
      have before := Std.OrientedCmp.isLE_of_isGE admitted
      exact Std.OrientedCmp.isGE_of_isLE (Std.TransCmp.isLE_trans before (by rw [less]; rfl))
  | excluded low =>
      have before := Std.OrientedCmp.lt_of_gt (Ordering.isGT_iff_eq_gt.mp admitted)
      exact Ordering.isGT_iff_eq_gt.mpr
        (Std.OrientedCmp.gt_of_lt (Std.TransCmp.lt_trans before less))

end Bound

namespace SortedDict

variable {κ α : Type} [Ord κ]

def empty : SortedDict κ α := ⟨[], Dict.ascending_nil⟩

def isEmpty (dict : SortedDict κ α) : Bool :=
  dict.entries.isEmpty

def get? (dict : SortedDict κ α) (key : κ) : Option α :=
  dict.entries.get? key

def insert [Std.TransOrd κ] [Std.LawfulEqOrd κ] (dict : SortedDict κ α) (key : κ) (value : α) :
    SortedDict κ α :=
  ⟨dict.entries.insert key value, Dict.ascending_insert dict.ascending key value⟩

def erase (dict : SortedDict κ α) (key : κ) : SortedDict κ α :=
  ⟨dict.entries.erase key, Dict.ascending_erase dict.ascending key⟩

def range (dict : SortedDict κ α) (lower upper : Bound κ) : List (κ × α) :=
  dict.entries.filter fun entry => lower.admitsFrom entry.1 && upper.admitsTo entry.1

@[simp] theorem get?_empty (key : κ) : (empty : SortedDict κ α).get? key = none := rfl

theorem eq_empty {dict : SortedDict κ α} (none : dict.isEmpty = true) : dict = .empty := by
  obtain ⟨entries, ascending⟩ := dict
  obtain rfl := List.isEmpty_iff.mp none
  rfl

theorem isEmpty_insert [Std.TransOrd κ] [Std.LawfulEqOrd κ] (dict : SortedDict κ α) (key : κ)
    (value : α) : (dict.insert key value).isEmpty = false := by
  rw [isEmpty, List.isEmpty_eq_false_iff]
  intro none
  have found := Dict.get?_insert_self dict.entries key value
  rw [show dict.entries.insert key value = [] from none] at found
  cases found

section LookUps

variable [Std.LawfulEqOrd κ]

theorem get?_eq_some_iff {dict : SortedDict κ α} {key : κ} {value : α} :
    dict.get? key = some value ↔ (key, value) ∈ dict.entries :=
  ⟨Dict.mem_of_get?_eq_some, Dict.get?_eq_some_of_mem dict.ascending⟩

variable [DecidableEq κ] (dict : SortedDict κ α) (key other : κ)

theorem get?_erase : (dict.erase key).get? other =
    if key = other then none else dict.get? other := by
  by_cases same : key = other
  · subst same
    rw [if_pos rfl]
    exact Dict.get?_erase_self dict.entries key
  · rw [if_neg same]
    exact Dict.get?_erase_of_ne (Ne.symm same) dict.entries

theorem get?_insert [Std.TransOrd κ] (value : α) : (dict.insert key value).get? other =
    if key = other then some value else dict.get? other := by
  by_cases same : key = other
  · subst same
    rw [if_pos rfl]
    exact Dict.get?_insert_self dict.entries key value
  · rw [if_neg same]
    exact Dict.get?_insert_of_ne (Ne.symm same) dict.entries value

end LookUps

end SortedDict
end ItemStore
