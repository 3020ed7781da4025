import ItemStore.Proofs.Outcomes
import ItemStore.Proofs.Value.Inherited
import ItemStore.Proofs.Value.Sets
import ItemStore.Value.Validity

/-!
What the check of a value accepts: values all of whose parts are sound. Lists and maps are valid if
what is in them is.
-/

namespace ItemStore
namespace AttributeValue

/-- A value that stands in another one, at any depth. A value is part of itself. -/
inductive Part (part : AttributeValue) : AttributeValue → Prop
  | whole : Part part part
  | element {elements : List AttributeValue} {value : AttributeValue} : value ∈ elements →
      Part part value → Part part (.list elements)
  | entry {entries : Item} {entry : String × AttributeValue} : entry ∈ entries →
      Part part entry.2 → Part part (.map entries)

def Valid (value : AttributeValue) : Prop :=
  ∀ part, Part part value → part.Sound

theorem valid_list {elements : List AttributeValue} :
    (list elements).Valid ↔ ∀ value ∈ elements, value.Valid := by
  constructor
  · exact fun valid value member part inside => valid part (.element member inside)
  · rintro valid part (_ | ⟨member, inside⟩)
    · exact sound_of_plain rfl rfl
    · exact valid _ member part inside

theorem valid_map {entries : Item} :
    (map entries).Valid ↔ ∀ entry ∈ entries, entry.2.Valid := by
  constructor
  · exact fun valid entry member part inside => valid part (.entry member inside)
  · rintro valid part (_ | _ | ⟨member, inside⟩)
    · exact sound_of_plain rfl rfl
    · exact valid _ member part inside

theorem valid_iff_sound {value : AttributeValue} (lists : ∀ elements, value ≠ .list elements)
    (maps : ∀ entries, value ≠ .map entries) : value.Valid ↔ value.Sound := by
  constructor
  · exact fun valid => valid value .whole
  · rintro sound part (_ | _ | _)
    · exact sound
    · exact absurd rfl (lists _)
    · exact absurd rfl (maps _)

theorem inherited_valid : Inherited (fun _ => True) Valid where
  list := valid_list
  map := valid_map.trans (iff_of_eq (true_and _).symm)
  insert _ _ _ := trivial
  erase _ _ := trivial

/-! The check of a value. -/

theorem checkNumber_ok_iff {text : String} :
    checkNumber text = .ok () ↔ ∃ number, Number.parse text = .ok number := by
  unfold checkNumber
  cases Number.parse text <;> simp

theorem checkMembers_ok_iff {α : Type} [DecidableEq α] {name : String} {members : List α} :
    checkMembers name members = .ok () ↔ members ≠ [] ∧ members.Nodup := by
  unfold checkMembers
  split
  · rename_i empty
    simp [List.isEmpty_iff.mp empty]
  · split <;> simp_all

theorem forM_checkNumber_ok_iff {texts : List String} :
    texts.forM checkNumber = .ok () ↔ ∀ text ∈ texts, ∃ number, Number.parse text = .ok number := by
  induction texts with
  | nil => simp [pure, Except.pure]
  | cons text rest ih =>
      rw [List.forall_mem_cons, ← checkNumber_ok_iff, ← ih]
      exact then_ok_iff

theorem distinct_iff_nodup {α β : Type} {make : α → AttributeValue} (key : α → β)
    {values : List α} (agree : ∀ a ∈ values, ∀ b ∈ values,
      equal (make a) (make b) = true ↔ key a = key b) :
    ((values.map make).Pairwise fun a b => a.equal b = false) ↔ (values.map key).Nodup := by
  rw [List.Nodup, List.pairwise_map, List.pairwise_map]
  exact List.Pairwise.iff_of_mem fun {a b} first second => by
    rw [Bool.eq_false_iff, Ne, Ne, agree a first b second]

theorem sound_iff_of_isSet {value : AttributeValue} (kind : value.isSet = true) : value.Sound ↔
    (∀ text, .number text ∈ value.members → ∃ number, Number.parse text = .ok number) ∧
      .binary [] ∉ value.members ∧ value.members ≠ [] ∧
      value.members.Pairwise fun a b => a.equal b = false := by
  constructor
  · exact fun sound => ⟨sound.memberNumbers, sound.filled,
      sound.nonempty kind, sound.distinct⟩
  · rintro ⟨numbers, filled, nonempty, distinct⟩
    refine ⟨?_, fun _ => nonempty, distinct, filled⟩
    rintro text (rfl | member)
    · cases kind
    · exact numbers text member

theorem valid_number {text : String} :
    (number text).Valid ↔ ∃ number, Number.parse text = .ok number := by
  rw [valid_iff_sound (by simp) (by simp)]
  constructor
  · exact fun sound => sound.numbers text (Or.inl rfl)
  · refine fun read => ⟨?_, by simp [isSet], .nil, by simp [members]⟩
    rintro _ (same | member)
    · cases same
      exact read
    · cases member

theorem valid_iff_of_isSet {value : AttributeValue} (kind : value.isSet = true) :
    value.Valid ↔ value.Sound :=
  valid_iff_sound (by rintro _ rfl; cases kind) (by rintro _ rfl; cases kind)

mutual
/-- The check accepts exactly the values whose parts are all sound. -/
theorem validate_ok_iff (name : String) : ∀ value : AttributeValue,
    validate name value = .ok () ↔ value.Valid
  | .string _ | .binary _ | .boolean _ | .null _ => by
      rw [validate, valid_iff_sound (by simp) (by simp)]
      exact ⟨fun _ => sound_of_plain rfl rfl, fun _ => rfl⟩
  | .number text => by
      rw [validate, checkNumber_ok_iff, valid_number]
  | .stringSet texts => by
      rw [validate, checkMembers_ok_iff, valid_iff_of_isSet rfl, sound_iff_of_isSet rfl, members,
        distinct_iff_nodup id fun a _ b _ => by rw [equal, beq_iff_eq]; rfl]
      simp
  | .numberSet texts => by
      rw [validate, then_ok_iff, forM_checkNumber_ok_iff, checkMembers_ok_iff,
        valid_iff_of_isSet rfl, sound_iff_of_isSet rfl, members]
      simp only [List.mem_map, number.injEq, exists_eq_right, reduceCtorEq, and_false, exists_false,
        not_false_eq_true, true_and, ne_eq, List.map_eq_nil_iff]
      refine and_congr_right fun read => and_congr_right fun _ => (distinct_iff_nodup _ ?_).symm
      intro a first b second
      obtain ⟨x, one⟩ := read a first
      obtain ⟨y, two⟩ := read b second
      rw [equal_number_iff one, Number.canonical_eq_iff one two, two, Except.ok.injEq, eq_comm]
  | .binarySet entries => by
      rw [validate, valid_iff_of_isSet rfl, sound_iff_of_isSet rfl, members,
        distinct_iff_nodup id fun a _ b _ => by rw [equal, beq_iff_eq]; rfl]
      split
      · simp_all
      · rw [checkMembers_ok_iff]
        simp_all
  | .list elements => by rw [validate, validateElements_ok_iff, valid_list]
  | .map entries => by rw [validate, validateEntries_ok_iff, valid_map]

theorem validateElements_ok_iff (name : String) : ∀ elements : List AttributeValue,
    validateElements name elements = .ok () ↔ ∀ value ∈ elements, value.Valid
  | [] => by simp [validateElements]
  | value :: rest => by
      rw [validateElements, then_ok_iff, validate_ok_iff name value,
        validateElements_ok_iff name rest, List.forall_mem_cons]

theorem validateEntries_ok_iff : ∀ entries : List (String × AttributeValue),
    validateEntries entries = .ok () ↔ ∀ entry ∈ entries, entry.2.Valid
  | [] => by simp [validateEntries]
  | (name, value) :: rest => by
      rw [validateEntries, then_ok_iff, validate_ok_iff name value,
        validateEntries_ok_iff rest, List.forall_mem_cons]
end

end AttributeValue

theorem Item.validate_ok_iff {item : Item} :
    item.validate = .ok () ↔ (AttributeValue.map item).Valid := by
  rw [validate, AttributeValue.validateEntries_ok_iff, AttributeValue.valid_map]

end ItemStore
