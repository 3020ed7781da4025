import Mathlib.Data.List.Forall2
import Mathlib.Data.Option.Basic
import ItemStore.Expression.Condition.Evaluate
import ItemStore.Proofs.Number.Canonical
import ItemStore.Proofs.Value.Children
import ItemStore.Proofs.Value.Equality

/-!
Values that are equal though they are spelled apart: numbers with other digits, sets in another
order, at any depth. Equal values feed a hash the same words, have the same type and size, and hold
equal values at every place.
-/

namespace ItemStore

/-- Sorting forgets the order that the elements came in. -/
theorem mergeSort_eq_of_perm {α : Type} [LE α] [DecidableLE α] [Std.IsLinearOrder α]
    {a b : List α} (perm : a.Perm b) : a.mergeSort = b.mergeSort := by
  have sorted : ∀ list : List α, list.mergeSort.Pairwise fun x y => x ≤ y := by
    intro list
    have inOrder := @List.pairwise_mergeSort α (fun x y => decide (x ≤ y))
      (fun x y z first second => by
        simp only [decide_eq_true_eq] at first second ⊢
        exact Std.le_trans first second)
      (fun x y => by simpa using Std.le_total (a := x) (b := y)) list
    exact inOrder.imp of_decide_eq_true
  have same : a.mergeSort.Perm b.mergeSort :=
    (List.mergeSort_perm a _).trans (perm.trans (List.mergeSort_perm b _).symm)
  exact same.eq_of_pairwise (fun x y _ _ less more => Std.le_antisymm less more)
    (sorted a) (sorted b)

namespace AttributeValue

theorem canonical_eq_of_equalNumbers {a b : String} (same : equalNumbers a b = true) :
    Number.canonical a = Number.canonical b := by
  rcases Number.of_denoted_eq ((equalNumbers_iff a b).mp same) with rfl | ⟨number, readA, readB⟩
  · rfl
  · simp only [Number.canonical, readA, readB]

theorem forall₂_of_equalElements {as bs : List AttributeValue}
    (same : equalElements as bs = true) : List.Forall₂ (fun a b => equal a b = true) as bs := by
  induction as generalizing bs with
  | nil =>
      cases bs with
      | nil => exact .nil
      | cons b bs => simp only [equalElements, Bool.false_eq_true] at same
  | cons a as ih =>
      cases bs with
      | nil => simp only [equalElements, Bool.false_eq_true] at same
      | cons b bs =>
          simp only [equalElements, Bool.and_eq_true] at same
          exact .cons same.1 (ih same.2)

mutual
theorem hashWords_eq_of_equal : ∀ {a b : AttributeValue}, equal a b = true →
    hashWords a = hashWords b
  | .string _, b, same | .binary _, b, same | .boolean _, b, same | .null _, b, same => by
      cases b <;> simp only [equal, Bool.false_eq_true, beq_iff_eq] at same
      rw [same]
  | .number _, b, same => by
      cases b <;> simp only [equal, Bool.false_eq_true] at same
      simp only [hashWords, canonical_eq_of_equalNumbers same]
  | .stringSet _, b, same | .binarySet _, b, same => by
      cases b <;> simp only [equal, Bool.false_eq_true, List.isPerm_iff] at same
      simp only [hashWords, mergeSort_eq_of_perm same, same.length_eq]
  | .numberSet as, b, same => by
      cases b <;> simp only [equal, Bool.false_eq_true, List.isPerm_iff] at same
      have lengths := same.length_eq
      simp only [List.length_map] at lengths
      simp only [hashWords, mergeSort_eq_of_perm same, lengths]
  | .list _, b, same => by
      cases b <;> simp only [equal, Bool.false_eq_true] at same
      simp only [hashWords, elementWords_eq_of_equal same,
        (forall₂_of_equalElements same).length_eq]
  | .map _, b, same => by
      cases b <;> simp only [equal, Bool.false_eq_true] at same
      simp only [hashWords, entryWords_eq_of_equal same]

theorem elementWords_eq_of_equal : ∀ {as bs : List AttributeValue},
    equalElements as bs = true → elementWords as = elementWords bs
  | [], [], _ => rfl
  | _ :: _, _ :: _, same => by
      simp only [equalElements, Bool.and_eq_true] at same
      simp only [elementWords, hashWords_eq_of_equal same.1, elementWords_eq_of_equal same.2]

theorem entryWords_eq_of_equal : ∀ {as bs : List (String × AttributeValue)},
    equalEntries as bs = true → entryWords as = entryWords bs
  | [], [], _ => rfl
  | (_, _) :: _, (_, _) :: _, same => by
      simp only [equalEntries, Bool.and_eq_true, beq_iff_eq] at same
      simp only [entryWords, same.1, hashWords_eq_of_equal same.2.1,
        entryWords_eq_of_equal same.2.2]
end

/-- Equality is an equivalence, and equal values feed a hash the same words. -/
theorem equality_hashed : Equivalence (fun a b : AttributeValue => (a == b) = true) ∧
    ∀ a b : AttributeValue, (a == b) = true → hashWords a = hashWords b :=
  ⟨⟨equal_refl, equal_symm, equal_trans⟩, fun _ _ => hashWords_eq_of_equal⟩

/-- Numbers in range, numbers out of range and texts that are no numbers at all, deep in a value. -/
theorem equality_hashed_spelledApart :
    let a : AttributeValue := .map [("l", .list [.number "1.0", .number "1e999",
      .numberSet ["2", "two", "1e1", "2.0"]]), ("s", .stringSet ["x", "y", "x"])]
    let b : AttributeValue := .map [("l", .list [.number "01", .number "1e999",
      .numberSet ["10", "2.00", "2", "two"]]), ("s", .stringSet ["x", "x", "y"])]
    (a == b) = true ∧ hashWords a = hashWords b := by
  intro a b
  have same : (a == b) = true := by decide +kernel
  exact ⟨same, equality_hashed.2 a b same⟩

/-! Equal values in place of each other. -/

/-- What two equal values are made of. -/
inductive EqualParts : AttributeValue → AttributeValue → Prop
  | string (text : String) : EqualParts (.string text) (.string text)
  | number {a b : String} : equalNumbers a b = true → EqualParts (.number a) (.number b)
  | binary (bytes : Bytes) : EqualParts (.binary bytes) (.binary bytes)
  | stringSet {a b : List String} : a.Perm b → EqualParts (.stringSet a) (.stringSet b)
  | numberSet {a b : List String} : (a.map Number.canonical).Perm (b.map Number.canonical) →
      EqualParts (.numberSet a) (.numberSet b)
  | binarySet {a b : List Bytes} : a.Perm b → EqualParts (.binarySet a) (.binarySet b)
  | boolean (flag : Bool) : EqualParts (.boolean flag) (.boolean flag)
  | null (flag : Bool) : EqualParts (.null flag) (.null flag)
  | list {as bs : List AttributeValue} : List.Forall₂ (fun a b => equal a b = true) as bs →
      EqualParts (.list as) (.list bs)
  | map {as bs : Item} : as.equal bs = true → EqualParts (.map as) (.map bs)

theorem equalParts_of_equal {a b : AttributeValue} (same : equal a b = true) : EqualParts a b := by
  cases a <;> cases b <;> first | cases same | skip
  case string.string => exact eq_of_beq same ▸ .string _
  case number.number => exact .number same
  case binary.binary => exact eq_of_beq same ▸ .binary _
  case stringSet.stringSet => exact .stringSet (List.isPerm_iff.mp same)
  case numberSet.numberSet => exact .numberSet (List.isPerm_iff.mp same)
  case binarySet.binarySet => exact .binarySet (List.isPerm_iff.mp same)
  case boolean.boolean => exact eq_of_beq same ▸ .boolean _
  case null.null => exact eq_of_beq same ▸ .null _
  case list.list => exact .list (forall₂_of_equalElements same)
  case map.map => exact .map same

section Replaced

variable {a b c d : AttributeValue}

theorem beq_congr (left : equal a b = true) (right : equal c d = true) : (a == c) = (b == d) := by
  rw [Bool.eq_iff_iff]
  exact ⟨fun same => equal_trans (equal_symm left) (equal_trans same right),
    fun same => equal_trans left (equal_trans same (equal_symm right))⟩

theorem descriptor_eq_of_equal (same : equal a b = true) : a.descriptor = b.descriptor := by
  cases equalParts_of_equal same <;> rfl

theorem size_eq_of_equal (same : equal a b = true) : a.size = b.size := by
  cases equalParts_of_equal same with
  | stringSet perm | binarySet perm => simp only [size, perm.length_eq]
  | numberSet perm => simpa only [size, List.length_map, Except.ok.injEq] using perm.length_eq
  | list elements => simp only [size, elements.length_eq]
  | map entries =>
      have lengths := congrArg List.length (Item.keys_eq_of_equal entries)
      simpa only [size, Dict.keys, List.length_map, Except.ok.injEq] using lengths
  | string | number | binary | boolean | null => rfl

theorem compareTexts?_congr {a b c d : String} (left : equalNumbers a b = true)
    (right : equalNumbers c d = true) :
    Number.compareTexts? a c = Number.compareTexts? b d := by
  simp only [Number.compareTexts?, parse_eq_of_equalNumbers left, parse_eq_of_equalNumbers right]

theorem compare?_congr (left : equal a b = true) (right : equal c d = true) :
    compare? a c = compare? b d := by
  cases equalParts_of_equal left <;> cases equalParts_of_equal right <;> try rfl
  case number.number left _ _ right => exact compareTexts?_congr left right

theorem satisfies_congr (left : equal a b = true) (right : equal c d = true)
    (comparator : Comparator) : a.satisfies comparator c = b.satisfies comparator d := by
  cases comparator <;> simp only [satisfies, beq_congr left right, compare?_congr left right]

theorem beginsWith_congr (left : equal a b = true) (right : equal c d = true) :
    a.beginsWith c = b.beginsWith d := by
  cases equalParts_of_equal left <;> cases equalParts_of_equal right <;> rfl

theorem any_canonical (members : List String) (text : String) :
    ((members.map Number.canonical).any fun member => Number.sameTexts member text) =
      members.any fun member => Number.sameTexts member text := by
  have each (member : String) :
      Number.sameTexts (Number.canonical member) text = Number.sameTexts member text := by
    cases read : Number.parse member with
    | error error => rw [Number.canonical_of_error read]
    | ok number =>
        simp only [Number.sameTexts, Number.compareTexts?, read, Number.parse_canonical read]
  simp only [List.any_map, Function.comp_def, each]

theorem contains_congr (left : equal a b = true) (right : equal c d = true) :
    a.contains c = b.contains d := by
  cases equalParts_of_equal left with
  | stringSet perm | binarySet perm =>
      cases equalParts_of_equal right <;> try rfl
      simp only [contains, List.contains_eq_mem, perm.mem_iff]
  | numberSet perm =>
      cases equalParts_of_equal right <;> try rfl
      case number text other same =>
        have texts (member : String) :
            Number.sameTexts member text = Number.sameTexts member other := by
          simp only [Number.sameTexts, Number.compareTexts?, parse_eq_of_equalNumbers same]
        simp only [contains]
        rw [← any_canonical, perm.any_eq, any_canonical]
        simp only [texts]
  | list elements =>
      have each : ∀ {as bs : List AttributeValue},
          List.Forall₂ (fun a b => equal a b = true) as bs →
            as.any (fun element => element == c) = bs.any fun element => element == d := by
        intro as bs matched
        induction matched with
        | nil => rfl
        | cons first _ ih => simp only [List.any_cons, beq_congr first right, ih]
      simp only [contains, each elements]
  | string | binary | number | boolean | null | map =>
      cases equalParts_of_equal right <;> rfl

end Replaced

def EqualIf : Option AttributeValue → Option AttributeValue → Prop :=
  Option.Rel fun a b => equal a b = true

theorem equalIf_getElem? {as bs : List AttributeValue}
    (elements : List.Forall₂ (fun a b => equal a b = true) as bs) (position : Nat) :
    EqualIf as[position]? bs[position]? := by
  induction elements generalizing position with
  | nil => exact .none
  | cons first _ ih =>
      cases position with
      | zero => exact .some first
      | succ position => exact ih position

theorem equalIf_child? {a b : AttributeValue} (same : equal a b = true) (segment : Segment) :
    EqualIf (a.child? segment) (b.child? segment) := by
  cases equalParts_of_equal same with
  | list elements =>
      cases segment with
      | key name => exact .none
      | index position => exact equalIf_getElem? elements position
  | map entries =>
      cases segment with
      | key name =>
          rcases Item.get?_of_equal entries name with ⟨first, second⟩ | ⟨x, y, first, second, here⟩
          · simp only [child?, first, second]
            exact .none
          · simp only [child?, first, second]
            exact .some here
      | index position => exact .none
  | string | number | binary | stringSet | numberSet | binarySet | boolean | null => exact .none

theorem equalIf_at? (way : List Segment) : ∀ {a b : AttributeValue}, equal a b = true →
    EqualIf (a.at? way) (b.at? way) := by
  induction way with
  | nil => exact fun same => .some same
  | cons segment rest ih =>
      intro a b same
      rw [at?_cons, at?_cons]
      have children := equalIf_child? same segment
      generalize a.child? segment = x at children ⊢
      generalize b.child? segment = y at children ⊢
      cases children with
      | none => exact .none
      | some below => exact ih below

end AttributeValue
end ItemStore
