import ItemStore.Key.Row
import ItemStore.Number.Order

/-!
Key values, row keys and spaces are linearly ordered, and keys that compare as equal are the same.
-/

namespace ItemStore

namespace KeyValue

@[simp] theorem compare_string (a b : String) :
    compare (KeyValue.string a) (.string b) = compare a b := rfl

@[simp] theorem compare_number (a b : Number) :
    compare (KeyValue.number a) (.number b) = compare a b := rfl

@[simp] theorem compare_binary (a b : Bytes) :
    compare (KeyValue.binary a) (.binary b) = compare a b := rfl

instance : Std.TransOrd KeyValue where
  eq_swap {a b} := by
    cases a <;> cases b
    case string.string => exact Std.OrientedOrd.eq_swap (α := String)
    case number.number => exact Std.OrientedOrd.eq_swap (α := Number)
    case binary.binary => exact Std.OrientedOrd.eq_swap (α := Bytes)
    all_goals rfl
  isLE_trans {a b c} first second := by
    cases a <;> cases b <;> cases c
    case string.string.string => exact Std.TransOrd.isLE_trans (α := String) first second
    case number.number.number => exact Std.TransOrd.isLE_trans (α := Number) first second
    case binary.binary.binary => exact Std.TransOrd.isLE_trans (α := Bytes) first second
    all_goals first | rfl | exact Bool.noConfusion first | exact Bool.noConfusion second

instance : Std.LawfulEqOrd KeyValue where
  compare_self := Std.ReflOrd.compare_self
  eq_of_compare {a b} same := by
    cases a <;> cases b
    case string.string => exact congrArg string (Std.LawfulEqOrd.eq_of_compare (α := String) same)
    case number.number => exact congrArg number (Std.LawfulEqOrd.eq_of_compare (α := Number) same)
    case binary.binary => exact congrArg binary (Std.LawfulEqOrd.eq_of_compare (α := Bytes) same)
    all_goals exact Ordering.noConfusion same

end KeyValue

/-! Orders by one part and then another. -/

section Lexicographic

variable {α β γ : Type} [Ord β] [Ord γ] [Std.LawfulEqOrd β] [Std.LawfulEqOrd γ]

theorem eq_of_compareLex (first : α → β) (second : α → γ)
    (ext : ∀ a b, first a = first b → second a = second b → a = b) {a b : α}
    (same : compareLex (compareOn first) (compareOn second) a b = .eq) : a = b := by
  rw [compareLex_eq_eq] at same
  exact ext a b (Std.LawfulEqOrd.eq_of_compare same.1) (Std.LawfulEqOrd.eq_of_compare same.2)

end Lexicographic

instance : Std.TransOrd RowKey :=
  inferInstanceAs (Std.TransCmp (compareLex (compareOn RowKey.hash) (compareOn RowKey.sort)))

instance : Std.LawfulEqOrd RowKey where
  compare_self := Std.ReflOrd.compare_self
  eq_of_compare := eq_of_compareLex RowKey.hash RowKey.sort fun
    | ⟨_, _⟩, ⟨_, _⟩, rfl, rfl => rfl

instance : Std.TransOrd Space :=
  inferInstanceAs (Std.TransCmp (compareLex (compareOn Space.table) (compareOn Space.index)))

instance : Std.LawfulEqOrd Space where
  compare_self := Std.ReflOrd.compare_self
  eq_of_compare := eq_of_compareLex Space.table Space.index fun
    | ⟨_, _⟩, ⟨_, _⟩, rfl, rfl => rfl

end ItemStore
