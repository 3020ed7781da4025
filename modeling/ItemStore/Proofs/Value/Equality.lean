import ItemStore.Number.Order
import ItemStore.Value.Equality

/-!
Equality of values is an equivalence, also among texts that denote no number.
-/

namespace ItemStore

def Number.denoted (text : String) : Number ⊕ String :=
  match parse text with
  | .ok number => .inl number
  | .error _ => .inr text

theorem Number.of_denoted_eq {a b : String} (same : denoted a = denoted b) :
    a = b ∨ ∃ number, parse a = .ok number ∧ parse b = .ok number := by
  simp only [denoted] at same
  split at same <;> split at same <;> simp_all

namespace AttributeValue

theorem equalNumbers_iff (a b : String) :
    equalNumbers a b = true ↔ Number.denoted a = Number.denoted b := by
  constructor
  · intro equal
    simp only [equalNumbers, Number.compareTexts?] at equal
    split at equal
    · rename_i compared
      split at compared
      · rename_i x y readA readB
        cases compared
        have same : x = y := Std.LawfulEqOrd.eq_of_compare (eq_of_beq equal)
        simp only [Number.denoted, readA, readB, same]
      · cases compared
    · rw [eq_of_beq equal]
  · intro same
    rcases Number.of_denoted_eq same with rfl | ⟨number, readA, readB⟩
    · simp only [equalNumbers, Number.compareTexts?]
      cases Number.parse a <;> simp
    · simp [equalNumbers, Number.compareTexts?, readA, readB]

theorem parse_eq_of_equalNumbers {a b : String} (same : equalNumbers a b = true) :
    Number.parse a = Number.parse b := by
  rcases Number.of_denoted_eq ((equalNumbers_iff a b).mp same) with rfl | ⟨number, readA, readB⟩
  · rfl
  · rw [readA, readB]

mutual
theorem equal_refl : ∀ value : AttributeValue, equal value value = true
  | .string _ | .binary _ | .boolean _ | .null _ => by simp [equal]
  | .number text => by simp [equal, equalNumbers_iff]
  | .stringSet _ | .numberSet _ | .binarySet _ => by
      rw [equal]
      exact List.isPerm_iff.mpr (List.Perm.refl _)
  | .list elements => by
      rw [equal]
      exact equalElements_refl elements
  | .map entries => by
      rw [equal]
      exact equalEntries_refl entries

theorem equalElements_refl : ∀ elements : List AttributeValue,
    equalElements elements elements = true
  | [] => rfl
  | value :: rest => by
      rw [equalElements, equal_refl value, equalElements_refl rest]
      rfl

theorem equalEntries_refl : ∀ entries : List (String × AttributeValue),
    equalEntries entries entries = true
  | [] => rfl
  | (name, value) :: rest => by
      rw [equalEntries, equal_refl value, equalEntries_refl rest]
      simp
end

mutual
theorem equal_symm : ∀ {a b : AttributeValue}, equal a b = true → equal b a = true
  | .string _, b, same | .binary _, b, same | .boolean _, b, same | .null _, b, same => by
      cases b <;> simp only [equal, Bool.false_eq_true, beq_iff_eq] at same
      rw [same, equal]
      exact beq_self_eq_true _
  | .number _, b, same => by
      cases b <;> simp only [equal, Bool.false_eq_true, equalNumbers_iff] at same
      rw [equal, equalNumbers_iff, same]
  | .stringSet _, b, same | .numberSet _, b, same | .binarySet _, b, same => by
      cases b <;> simp only [equal, Bool.false_eq_true, List.isPerm_iff] at same
      rw [equal, List.isPerm_iff]
      exact same.symm
  | .list _, b, same => by
      cases b <;> simp only [equal, Bool.false_eq_true] at same
      rw [equal]
      exact equalElements_symm same
  | .map _, b, same => by
      cases b <;> simp only [equal, Bool.false_eq_true] at same
      rw [equal]
      exact equalEntries_symm same

theorem equalElements_symm : ∀ {as bs : List AttributeValue},
    equalElements as bs = true → equalElements bs as = true
  | [], [], same => same
  | _ :: _, _ :: _, same => by
      simp only [equalElements, Bool.and_eq_true] at same ⊢
      exact ⟨equal_symm same.1, equalElements_symm same.2⟩

theorem equalEntries_symm : ∀ {as bs : List (String × AttributeValue)},
    equalEntries as bs = true → equalEntries bs as = true
  | [], [], same => same
  | (_, _) :: _, (_, _) :: _, same => by
      simp only [equalEntries, Bool.and_eq_true, beq_iff_eq] at same ⊢
      exact ⟨same.1.symm, equal_symm same.2.1, equalEntries_symm same.2.2⟩
end

mutual
theorem equal_trans : ∀ {a b c : AttributeValue}, equal a b = true → equal b c = true →
    equal a c = true
  | .string _, b, c, first, second | .binary _, b, c, first, second
  | .boolean _, b, c, first, second | .null _, b, c, first, second => by
      cases b <;> simp only [equal, Bool.false_eq_true, beq_iff_eq] at first
      rw [first]
      exact second
  | .number _, b, c, first, second => by
      cases b <;> simp only [equal, Bool.false_eq_true, equalNumbers_iff] at first
      cases c <;> simp only [equal, Bool.false_eq_true, equalNumbers_iff] at second
      rw [equal, equalNumbers_iff, first, second]
  | .stringSet _, b, c, first, second | .numberSet _, b, c, first, second
  | .binarySet _, b, c, first, second => by
      cases b <;> simp only [equal, Bool.false_eq_true, List.isPerm_iff] at first
      cases c <;> simp only [equal, Bool.false_eq_true, List.isPerm_iff] at second
      rw [equal, List.isPerm_iff]
      exact first.trans second
  | .list _, b, c, first, second => by
      cases b <;> simp only [equal, Bool.false_eq_true] at first
      cases c <;> simp only [equal, Bool.false_eq_true] at second
      rw [equal]
      exact equalElements_trans first second
  | .map _, b, c, first, second => by
      cases b <;> simp only [equal, Bool.false_eq_true] at first
      cases c <;> simp only [equal, Bool.false_eq_true] at second
      rw [equal]
      exact equalEntries_trans first second

theorem equalElements_trans : ∀ {as bs cs : List AttributeValue}, equalElements as bs = true →
    equalElements bs cs = true → equalElements as cs = true
  | [], [], _, _, second => second
  | a :: as, b :: bs, c :: cs, first, second => by
      simp only [equalElements, Bool.and_eq_true] at first second ⊢
      exact ⟨equal_trans first.1 second.1, equalElements_trans first.2 second.2⟩

theorem equalEntries_trans : ∀ {as bs cs : List (String × AttributeValue)},
    equalEntries as bs = true → equalEntries bs cs = true → equalEntries as cs = true
  | [], [], _, _, second => second
  | (_, a) :: as, (_, b) :: bs, (_, c) :: cs, first, second => by
      simp only [equalEntries, Bool.and_eq_true, beq_iff_eq] at first second ⊢
      exact ⟨first.1.trans second.1, equal_trans first.2.1 second.2.1,
        equalEntries_trans first.2.2 second.2.2⟩
end

end AttributeValue

namespace Item

theorem equal_refl (item : Item) : item.equal item = true :=
  AttributeValue.equalEntries_refl item

theorem equal_symm {a b : Item} (same : a.equal b = true) : b.equal a = true :=
  AttributeValue.equalEntries_symm same

theorem equal_trans {a b c : Item} (first : a.equal b = true) (second : b.equal c = true) :
    a.equal c = true :=
  AttributeValue.equalEntries_trans first second

theorem keys_eq_of_equal : ∀ {a b : Item}, a.equal b = true → Dict.keys a = Dict.keys b
  | [], [], _ => rfl
  | (_, _) :: as, (_, _) :: bs, same => by
      simp only [equal, AttributeValue.equalEntries, Bool.and_eq_true, beq_iff_eq] at same
      exact List.cons_eq_cons.mpr ⟨same.1, keys_eq_of_equal same.2.2⟩

theorem get?_of_equal : ∀ {a b : Item}, a.equal b = true → ∀ name,
    Dict.get? a name = none ∧ Dict.get? b name = none ∨
      ∃ value other, Dict.get? a name = some value ∧ Dict.get? b name = some other ∧
        value.equal other = true
  | [], [], _, _ => Or.inl ⟨rfl, rfl⟩
  | (bound, value) :: as, (other, _) :: bs, same, name => by
      simp only [equal, AttributeValue.equalEntries, Bool.and_eq_true, beq_iff_eq] at same
      obtain ⟨rfl, values, rest⟩ := same
      simp only [Dict.get?]
      split
      · exact Or.inr ⟨_, _, rfl, rfl, values⟩
      · exact get?_of_equal rest name

end Item
end ItemStore
