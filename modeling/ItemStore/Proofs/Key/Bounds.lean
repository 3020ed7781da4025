import ItemStore.Key.Order
import ItemStore.Key.SortCondition

/-!
The bounds that a condition puts on a read in key order: no value that matches lies outside them,
and what lies beyond a bound is followed by nothing that matches.
-/

namespace ItemStore

theorem isLE_of_lt {α : Type} [Ord α] {a b : α} (less : compare a b = .lt) :
    (compare a b).isLE = true := by
  rw [less]
  rfl

section Prefixes

variable {α : Type} [BEq α] [LawfulBEq α]

theorem isPrefixOf_cons {first : α} {rest whole : List α}
    (begins : (first :: rest).isPrefixOf whole = true) :
    ∃ later, whole = first :: later ∧ rest.isPrefixOf later = true := by
  cases whole with
  | nil => cases begins
  | cons other later =>
      simp only [List.isPrefixOf, Bool.and_eq_true, beq_iff_eq] at begins
      exact ⟨later, by rw [begins.1], begins.2⟩

variable [Ord α] [Std.LawfulEqOrd α]

theorem compare_ne_lt_of_isPrefixOf {start : List α} :
    ∀ {whole : List α}, start.isPrefixOf whole = true → compare whole start ≠ .lt := by
  induction start with
  | nil =>
      intro whole _
      cases whole <;> exact nofun
  | cons first rest ih =>
      intro whole begins
      obtain ⟨later, rfl, more⟩ := isPrefixOf_cons begins
      rw [List.compare_cons_cons, Std.ReflOrd.compare_self]
      exact ih more

theorem isPrefixOf_of_between {start : List α} :
    ∀ {middle whole : List α}, start.isPrefixOf whole = true → compare start middle = .lt →
      compare whole middle ≠ .lt → start.isPrefixOf middle = true := by
  induction start with
  | nil => exact fun _ _ _ => by simp
  | cons first rest ih =>
      intro middle whole begins above below
      obtain ⟨later, rfl, more⟩ := isPrefixOf_cons begins
      cases middle with
      | nil => cases above
      | cons other between =>
          rw [List.compare_cons_cons] at above below
          cases order : compare first other with
          | lt =>
              rw [order] at below
              exact absurd rfl below
          | gt =>
              rw [order] at above
              cases above
          | eq =>
              rw [order] at above below
              rw [Std.LawfulEqOrd.eq_of_compare order]
              simpa using ih more above below

end Prefixes

theorem compare_text_eq_lt (a b : String) :
    compare a b = .lt ↔ compare a.toList b.toList = .lt := by
  have characters : ∀ a b : List Char, compare a b = .lt ↔ a < b := by
    intro a
    induction a with
    | nil =>
        intro b
        cases b with
        | nil => exact ⟨nofun, fun less => absurd less (List.lt_irrefl [])⟩
        | cons second rest => exact ⟨fun _ => List.nil_lt_cons second rest, fun _ => rfl⟩
    | cons first rest ih =>
        intro b
        cases b with
        | nil => exact ⟨nofun, fun less => absurd less (List.not_lt_nil _)⟩
        | cons second later =>
            rw [List.compare_cons_cons, List.cons_lt_cons_iff, Ordering.then_eq_lt, ih,
              Std.LawfulEqOrd.compare_eq_iff_eq]
            exact or_congr compareOfLessAndEq_eq_lt Iff.rfl
  rw [characters, ← String.lt_iff]
  exact compareOfLessAndEq_eq_lt

namespace KeyValue

theorem startsWith_cases {value start : KeyValue} (begins : value.startsWith start = true) :
    (∃ text prefixText, value = .string text ∧ start = .string prefixText ∧
      prefixText.toList.isPrefixOf text.toList = true) ∨
    (∃ bytes prefixBytes, value = .binary bytes ∧ start = .binary prefixBytes ∧
      prefixBytes.isPrefixOf bytes = true) := by
  unfold startsWith at begins
  split at begins
  · exact Or.inl ⟨_, _, rfl, rfl, begins⟩
  · exact Or.inr ⟨_, _, rfl, rfl, begins⟩
  · cases begins

theorem isLE_of_startsWith {value start : KeyValue} (begins : value.startsWith start = true) :
    (compare start value).isLE = true := by
  have notBelow : compare value start ≠ .lt := by
    rcases startsWith_cases begins with ⟨text, prefixText, rfl, rfl, begins⟩ |
      ⟨bytes, prefixBytes, rfl, rfl, begins⟩
    · rw [compare_string, Ne, compare_text_eq_lt]
      exact compare_ne_lt_of_isPrefixOf begins
    · exact compare_ne_lt_of_isPrefixOf begins
  rw [Std.OrientedOrd.eq_swap]
  cases order : compare value start with
  | lt => exact absurd order notBelow
  | eq => rfl
  | gt => rfl

theorem startsWith_of_between {start middle value : KeyValue}
    (begins : value.startsWith start = true) (above : compare start middle = .lt)
    (below : (compare middle value).isLE = true) : middle.startsWith start = true := by
  have notAbove : compare value middle ≠ .lt := by
    intro less
    rw [Std.OrientedOrd.eq_swap, less] at below
    cases below
  rcases startsWith_cases begins with ⟨text, prefixText, rfl, rfl, begins⟩ |
    ⟨bytes, prefixBytes, rfl, rfl, begins⟩
  · cases middle with
    | string between =>
        rw [compare_string, compare_text_eq_lt] at above
        rw [compare_string, Ne, compare_text_eq_lt] at notAbove
        exact isPrefixOf_of_between begins above notAbove
    | number parsed => exact absurd rfl notAbove
    | binary between => exact absurd rfl notAbove
  · cases middle with
    | string between => cases above
    | number parsed => cases above
    | binary between => exact isPrefixOf_of_between begins above notAbove

end KeyValue

namespace SortCondition

variable {condition : SortCondition} {value other : KeyValue}

theorem isGT_iff {a b : KeyValue} : (compare a b).isGT = true ↔ compare b a = .lt := by
  rw [Std.OrientedCmp.isGT_eq_isLT, Ordering.isLT_iff_eq_lt]

theorem isGE_iff {a b : KeyValue} : (compare a b).isGE = true ↔ (compare b a).isLE = true :=
  Std.OrientedCmp.isGE_iff_isLE

theorem isGT_eq_false {a b : KeyValue} (order : (compare a b).isLE = true) :
    (compare a b).isGT = false := by
  rw [← Ordering.not_isLE_eq_isGT, order]
  rfl

theorem lowerBound_le (matching : condition.matching value = true) {low : KeyValue}
    (bound : condition.lowerBound? = some low) : (compare low value).isLE = true := by
  cases condition with
  | equal operand =>
      cases bound
      rw [beq_iff_eq.mp matching, Std.ReflOrd.compare_self]
      rfl
  | greater operand =>
      cases bound
      exact isLE_of_lt (isGT_iff.mp (Bool.and_eq_true_iff.mp matching).2)
  | greaterEqual operand =>
      cases bound
      exact isGE_iff.mp (Bool.and_eq_true_iff.mp matching).2
  | between least high =>
      cases bound
      exact isGE_iff.mp (Bool.and_eq_true_iff.mp (Bool.and_eq_true_iff.mp matching).1).2
  | beginsWith start =>
      cases bound
      exact KeyValue.isLE_of_startsWith matching
  | less operand => cases bound
  | lessEqual operand => cases bound

theorem isAbove_of_le (above : condition.isAbove value = true)
    (order : (compare value other).isLE = true) : condition.isAbove other = true := by
  cases condition <;> simp only [isAbove, Bool.and_eq_true, Bool.not_eq_true'] at above ⊢
  case equal operand | lessEqual operand | between low operand =>
      exact isGT_iff.mpr (Std.TransCmp.lt_of_lt_of_isLE (isGT_iff.mp above) order)
  case less operand =>
      exact isGE_iff.mpr (Std.TransOrd.isLE_trans (isGE_iff.mp above) order)
  case greater operand | greaterEqual operand => cases above
  case beginsWith start =>
      obtain ⟨beyond, different⟩ := above
      have less := isGT_iff.mp beyond
      refine ⟨isGT_iff.mpr (Std.TransCmp.lt_of_lt_of_isLE less order), ?_⟩
      cases begins : other.startsWith start with
      | false => rfl
      | true =>
          rw [KeyValue.startsWith_of_between begins less order] at different
          cases different

theorem isBelow_of_le (below : condition.isBelow value = true)
    (order : (compare other value).isLE = true) : condition.isBelow other = true := by
  cases bound : condition.lowerBound? with
  | none =>
      rw [isBelow, bound] at below
      cases below
  | some low =>
      rw [isBelow, bound, Option.any_some, Ordering.isLT_iff_eq_lt] at below ⊢
      exact Std.TransCmp.lt_of_isLE_of_lt order below

theorem not_isAbove (matching : condition.matching value = true) :
    condition.isAbove value = false := by
  cases condition with
  | equal operand =>
      rw [isAbove, beq_iff_eq.mp matching, Std.ReflOrd.compare_self]
      rfl
  | less operand =>
      rw [isAbove, Ordering.isLT_iff_eq_lt.mp (Bool.and_eq_true_iff.mp matching).2]
      rfl
  | lessEqual operand => exact isGT_eq_false (Bool.and_eq_true_iff.mp matching).2
  | greater operand => rfl
  | greaterEqual operand => rfl
  | between low high => exact isGT_eq_false (Bool.and_eq_true_iff.mp matching).2
  | beginsWith start =>
      have begins : value.startsWith start = true := matching
      rw [isAbove, begins, Bool.not_true, Bool.and_false]

theorem not_isBelow (matching : condition.matching value = true) :
    condition.isBelow value = false := by
  cases bound : condition.lowerBound? with
  | none => rw [isBelow, bound, Option.any_none]
  | some low =>
      rw [isBelow, bound, Option.any_some, ← Std.OrientedCmp.isGT_eq_isLT]
      exact isGT_eq_false (lowerBound_le matching bound)

theorem lt_of_isAbove (above : condition.isAbove value = true)
    (matching : condition.matching other = true) : compare other value = .lt := by
  cases order : compare other value with
  | lt => rfl
  | eq | gt =>
      -- a match at or after the bound would be above as well, and nothing above matches
      have follows : (compare value other).isLE = true := by
        rw [Std.OrientedOrd.eq_swap, order]
        rfl
      exact absurd (isAbove_of_le above follows)
        (Bool.eq_false_iff.mp (not_isAbove matching))

theorem gt_of_isBelow (below : condition.isBelow value = true)
    (matching : condition.matching other = true) : compare other value = .gt := by
  cases order : compare other value with
  | gt => rfl
  | eq | lt =>
      have precedes : (compare other value).isLE = true := by
        rw [order]
        rfl
      exact absurd (isBelow_of_le below precedes)
        (Bool.eq_false_iff.mp (not_isBelow matching))

/-- The bounds of a condition, for any two values: a read in key order may begin at the lower bound,
and may stop at the first value beyond a bound, because what follows it is beyond the bound too. -/
structure BoundsHold (condition : SortCondition) : Prop where
  above : ∀ {bound value : KeyValue}, condition.isAbove bound = true →
    condition.matching value = true → compare value bound = .lt
  below : ∀ {bound value : KeyValue}, condition.isBelow bound = true →
    condition.matching value = true → compare value bound = .gt
  lowest : ∀ {low value : KeyValue}, condition.matching value = true →
    condition.lowerBound? = some low → (compare low value).isLE = true
  upward : ∀ {bound value : KeyValue}, condition.isAbove bound = true →
    (compare bound value).isLE = true → condition.isAbove value = true
  downward : ∀ {bound value : KeyValue}, condition.isBelow bound = true →
    (compare value bound).isLE = true → condition.isBelow value = true

theorem boundsHold (condition : SortCondition) : condition.BoundsHold where
  above := lt_of_isAbove
  below := gt_of_isBelow
  lowest matching bound := lowerBound_le matching bound
  upward := isAbove_of_le
  downward := isBelow_of_le

end SortCondition
end ItemStore
