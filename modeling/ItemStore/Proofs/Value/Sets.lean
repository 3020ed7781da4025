import ItemStore.Expression.Update.Apply
import ItemStore.Proofs.Number.Canonical
import ItemStore.Proofs.Value.Equality

/-!
Sets by their members. Members are told apart as values are, so that two spellings of a number are
one member; what a value must satisfy beside its parts is said of its members, and so is what the
union and the difference of two sets of one kind are.
-/

namespace ItemStore
namespace AttributeValue

def members : AttributeValue → List AttributeValue
  | .stringSet texts => texts.map .string
  | .numberSet texts => texts.map .number
  | .binarySet entries => entries.map .binary
  | _ => []

/-- What a value must satisfy beside its parts: its numbers are within the limits, and a set has
members, no two of them equal and none of them empty bytes. -/
structure Sound (value : AttributeValue) : Prop where
  numbers : ∀ text, value = .number text ∨ .number text ∈ value.members →
    ∃ number, Number.parse text = .ok number
  nonempty : value.isSet = true → value.members ≠ []
  distinct : value.members.Pairwise fun a b => a.equal b = false
  filled : .binary [] ∉ value.members

inductive SameKind : AttributeValue → AttributeValue → Prop
  | strings (a b : List String) : SameKind (.stringSet a) (.stringSet b)
  | numbers (a b : List String) : SameKind (.numberSet a) (.numberSet b)
  | binaries (a b : List Bytes) : SameKind (.binarySet a) (.binarySet b)

/-- A text or bytes are a member of a set as they are, a number in any spelling. -/
inductive Has : AttributeValue → AttributeValue → Prop
  | string {texts : List String} {text : String} : text ∈ texts →
      Has (.stringSet texts) (.string text)
  | number {texts : List String} {text spelling : String} {number : Number} : text ∈ texts →
      Number.parse text = .ok number → Number.parse spelling = .ok number →
      Has (.numberSet texts) (.number spelling)
  | binary {entries : List Bytes} {bytes : Bytes} : bytes ∈ entries →
      Has (.binarySet entries) (.binary bytes)

theorem members_of_isSet_eq_false {value : AttributeValue} (other : value.isSet = false) :
    value.members = [] := by
  cases value with
  | stringSet _ | numberSet _ | binarySet _ => cases other
  | _ => rfl

theorem sound_of_plain {value : AttributeValue} (single : value.isNumber = false)
    (other : value.isSet = false) : value.Sound := by
  have none := members_of_isSet_eq_false other
  constructor
  case numbers =>
    rintro text (rfl | member)
    · cases single
    · rw [none] at member
      cases member
  case nonempty => simp [other]
  case distinct => simp [none]
  case filled => simp [none]

/-! Values that no other list has an equal of. -/

def unlike (values others : List AttributeValue) : List AttributeValue :=
  values.filter fun value => !others.any fun other => other.equal value

section Unlike

variable {value : AttributeValue} {values others : List AttributeValue}

theorem mem_unlike : value ∈ unlike values others ↔
    value ∈ values ∧ ∀ other ∈ others, other.equal value = false := by
  simp [unlike]

theorem unlike_append (first second others : List AttributeValue) :
    unlike (first ++ second) others = unlike first others ++ unlike second others :=
  List.filter_append _ _

theorem unlike_unlike (values others : List AttributeValue) :
    unlike (unlike values others) others = unlike values others := by
  simp [unlike]

theorem unlike_sublist (values others : List AttributeValue) :
    (unlike values others).Sublist values :=
  List.filter_sublist

theorem unlike_eq_nil_iff : unlike values others = [] ↔
    ∀ value ∈ values, ∃ other ∈ others, other.equal value = true := by
  simp [unlike, List.filter_eq_nil_iff]

/-- To be equal to a value that is left is to be equal to one of the values and none of the
others. -/
theorem exists_unlike_iff : (∃ member ∈ unlike values others, member.equal value = true) ↔
    (∃ member ∈ values, member.equal value = true) ∧
      ¬∃ other ∈ others, other.equal value = true := by
  constructor
  · rintro ⟨member, left, same⟩
    obtain ⟨listed, apart⟩ := mem_unlike.mp left
    refine ⟨⟨member, listed, same⟩, ?_⟩
    rintro ⟨other, among, likewise⟩
    have equal := equal_trans likewise (equal_symm same)
    rw [apart other among] at equal
    cases equal
  · rintro ⟨⟨member, listed, same⟩, apart⟩
    refine ⟨member, mem_unlike.mpr ⟨listed, fun other among => ?_⟩, same⟩
    exact Bool.eq_false_iff.mpr fun likewise => apart ⟨other, among, equal_trans likewise same⟩

theorem exists_append_unlike_iff :
    (∃ member ∈ values ++ unlike others values, member.equal value = true) ↔
      (∃ member ∈ values, member.equal value = true) ∨
        ∃ other ∈ others, other.equal value = true := by
  simp only [List.mem_append, or_and_right, exists_or, exists_unlike_iff]
  by_cases here : ∃ member ∈ values, member.equal value = true
  · simp only [here, true_or]
  · simp only [here, false_or, not_false_eq_true, and_true]

theorem pairwise_append_unlike (distinct : values.Pairwise fun a b => a.equal b = false)
    (otherDistinct : others.Pairwise fun a b => a.equal b = false) :
    (values ++ unlike others values).Pairwise fun a b => a.equal b = false :=
  List.pairwise_append.mpr ⟨distinct, otherDistinct.sublist (unlike_sublist _ _),
    fun value member _ added => (mem_unlike.mp added).2 value member⟩

end Unlike

/-! Members of the sets that updates compute. -/

theorem equal_number_iff {a b : String} {number : Number} (read : Number.parse a = .ok number) :
    equal (.number a) (.number b) = true ↔ Number.parse b = .ok number := by
  rw [equal]
  constructor
  · intro same
    rw [← parse_eq_of_equalNumbers same, read]
  · intro likewise
    rw [equalNumbers_iff, Number.denoted, Number.denoted, read, likewise]

theorem sameTexts_eq_equal {a b : String}
    (read : (∃ x, Number.parse a = .ok x) ∨ ∃ y, Number.parse b = .ok y) :
    Number.sameTexts a b = equal (.number a) (.number b) := by
  rw [Bool.eq_iff_iff, Number.sameTexts_iff]
  constructor
  · rintro ⟨number, first, second⟩
    exact (equal_number_iff first).mpr second
  · intro same
    rcases read with ⟨x, first⟩ | ⟨y, second⟩
    · exact ⟨x, first, (equal_number_iff first).mp same⟩
    · exact ⟨y, (equal_number_iff second).mp (equal_symm same), second⟩

theorem map_filter_eq_unlike {α : Type} (make : α → AttributeValue) {same : α → α → Bool}
    {values others : List α} (agree : ∀ value ∈ values, ∀ other ∈ others,
      same other value = equal (make other) (make value)) :
    (values.filter fun value => !others.any fun other => same other value).map make =
      unlike (values.map make) (others.map make) := by
  rw [unlike, List.filter_map]
  refine congrArg (List.map make) (List.filter_congr fun value member => ?_)
  rw [Function.comp_apply, List.any_map]
  refine congrArg not (Bool.eq_iff_iff.mpr ?_)
  simp only [List.any_eq_true, Function.comp_apply]
  refine exists_congr fun other => and_congr_right fun among => ?_
  rw [agree value member other among]

theorem map_filter_contains {α : Type} [BEq α] [LawfulBEq α] (make : α → AttributeValue)
    (agree : ∀ a b, equal (make a) (make b) = (a == b)) (values others : List α) :
    (values.filter fun value => !others.contains value).map make =
      unlike (values.map make) (others.map make) := by
  simp only [List.contains_eq_any_beq]
  exact map_filter_eq_unlike make fun value _ other _ => by rw [agree, Bool.beq_comm]

section Pairs

variable {a b both rest : AttributeValue}

theorem SameKind.symm (kinds : SameKind a b) : SameKind b a := by
  cases kinds <;> constructor

theorem SameKind.trans {c : AttributeValue} (first : SameKind a b) (second : SameKind b c) :
    SameKind a c := by
  cases first <;> cases second <;> constructor

theorem SameKind.isSet (kinds : SameKind a b) : a.isSet = true := by
  cases kinds <;> rfl

theorem SameKind.ext (kinds : SameKind a b) (same : b.members = a.members) : b = a := by
  cases kinds with
  | strings a b => rw [List.map_injective_iff.mpr (fun _ _ => string.inj) same]
  | numbers a b => rw [List.map_injective_iff.mpr (fun _ _ => number.inj) same]
  | binaries a b => rw [List.map_injective_iff.mpr (fun _ _ => binary.inj) same]

theorem Sound.memberNumbers (sound : a.Sound) : ∀ text, .number text ∈ a.members →
    ∃ number, Number.parse text = .ok number :=
  fun text member => sound.numbers text (Or.inr member)

theorem isEmptySet_iff (kind : a.isSet = true) : a.isEmptySet = true ↔ a.members = [] := by
  cases a <;> simp [isSet, isEmptySet, members] at kind ⊢

theorem sameKind_of_union? (joined : a.union? b = some both) : SameKind a b ∧ SameKind a both := by
  unfold union? at joined
  split at joined <;> cases joined <;> constructor <;> constructor

theorem sameKind_of_difference? (remaining : a.difference? b = some rest) :
    SameKind a b ∧ SameKind a rest := by
  unfold difference? at remaining
  split at remaining <;> cases remaining <;> constructor <;> constructor

theorem exists_union? (kinds : SameKind a b) : ∃ both, a.union? b = some both := by
  cases kinds <;> exact ⟨_, rfl⟩

theorem exists_difference? (kinds : SameKind a b) : ∃ rest, a.difference? b = some rest := by
  cases kinds <;> exact ⟨_, rfl⟩

theorem members_union? (sound : a.Sound) (joined : a.union? b = some both) :
    both.members = a.members ++ unlike b.members a.members := by
  cases (sameKind_of_union? joined).1 with
  | strings a b =>
      cases joined
      rw [members, List.map_append, map_filter_contains _ fun _ _ => by rw [equal]]
      rfl
  | numbers a b =>
      cases joined
      rw [members, List.map_append, map_filter_eq_unlike number fun value _ other among =>
        sameTexts_eq_equal (Or.inl (sound.memberNumbers other (List.mem_map_of_mem among)))]
      rfl
  | binaries a b =>
      cases joined
      rw [members, List.map_append, map_filter_contains _ fun _ _ => by rw [equal]]
      rfl

theorem members_difference? (sound : a.Sound) (remaining : a.difference? b = some rest) :
    rest.members = unlike a.members b.members := by
  cases (sameKind_of_difference? remaining).1 with
  | strings a b =>
      cases remaining
      rw [members, map_filter_contains _ fun _ _ => by rw [equal]]
      rfl
  | numbers a b =>
      cases remaining
      rw [members, map_filter_eq_unlike number fun value member other _ =>
        sameTexts_eq_equal (Or.inr (sound.memberNumbers value (List.mem_map_of_mem member)))]
      rfl
  | binaries a b =>
      cases remaining
      rw [members, map_filter_contains _ fun _ _ => by rw [equal]]
      rfl

theorem members_difference?_sublist (sound : a.Sound) (remaining : a.difference? b = some rest) :
    rest.members.Sublist a.members :=
  members_difference? sound remaining ▸ unlike_sublist _ _

theorem sound_union? (first : a.Sound) (second : b.Sound) (joined : a.union? b = some both) :
    both.Sound := by
  obtain ⟨kinds, alike⟩ := sameKind_of_union? joined
  have listed := members_union? first joined
  have source : ∀ {member}, member ∈ both.members → member ∈ a.members ∨ member ∈ b.members := by
    intro member belongs
    rw [listed, List.mem_append] at belongs
    exact belongs.imp_right fun added => (mem_unlike.mp added).1
  constructor
  case numbers =>
    rintro text (rfl | belongs)
    · cases alike
    · rcases source belongs with left | right
      · exact first.memberNumbers text left
      · exact second.memberNumbers text right
  case nonempty =>
    intro _ none
    rw [listed, List.append_eq_nil_iff] at none
    exact first.nonempty kinds.isSet none.1
  case distinct =>
    rw [listed]
    exact pairwise_append_unlike first.distinct second.distinct
  case filled => exact fun belongs => (source belongs).elim first.filled second.filled

theorem sound_difference? (sound : a.Sound) (remaining : a.difference? b = some rest)
    (more : rest.isEmptySet = false) : rest.Sound := by
  have alike := (sameKind_of_difference? remaining).2
  have source := members_difference?_sublist sound remaining
  constructor
  case numbers =>
    rintro text (rfl | belongs)
    · cases alike
    · exact sound.memberNumbers text (source.subset belongs)
  case nonempty =>
    intro kind none
    rw [(isEmptySet_iff kind).mpr none] at more
    cases more
  case distinct => exact sound.distinct.sublist source
  case filled => exact fun belongs => sound.filled (source.subset belongs)

theorem has_iff {value : AttributeValue} (numbers : ∀ text, .number text ∈ a.members →
    ∃ number, Number.parse text = .ok number) :
    Has a value ↔ ∃ member ∈ a.members, member.equal value = true := by
  constructor
  · rintro (listed | ⟨listed, read, again⟩ | listed)
    · exact ⟨_, List.mem_map_of_mem listed, equal_refl _⟩
    · exact ⟨_, List.mem_map_of_mem listed, (equal_number_iff read).mpr again⟩
    · exact ⟨_, List.mem_map_of_mem listed, equal_refl _⟩
  · rintro ⟨member, listed, same⟩
    cases a with
    | stringSet texts =>
        obtain ⟨text, among, rfl⟩ := List.mem_map.mp listed
        cases value <;> simp only [equal, Bool.false_eq_true, beq_iff_eq] at same
        exact .string (same ▸ among)
    | numberSet texts =>
        obtain ⟨text, among, rfl⟩ := List.mem_map.mp listed
        obtain ⟨number, read⟩ := numbers text listed
        cases value with
        | number spelling => exact .number among read ((equal_number_iff read).mp same)
        | _ => simp only [equal, Bool.false_eq_true] at same
    | binarySet entries =>
        obtain ⟨bytes, among, rfl⟩ := List.mem_map.mp listed
        cases value <;> simp only [equal, Bool.false_eq_true, beq_iff_eq] at same
        exact .binary (same ▸ among)
    | _ => cases listed

end Pairs

/-- `both` has what one of the two sets has: first the members of `a`, and no two equal ones. -/
structure IsUnion (a b both : AttributeValue) : Prop where
  kind : SameKind a both
  has : ∀ value, Has both value ↔ Has a value ∨ Has b value
  front : a.members <+: both.members
  distinct : both.members.Pairwise fun x y => x.equal y = false

/-- `rest` has what the first set has and the second does not, as the first one has it. -/
structure IsDifference (a b rest : AttributeValue) : Prop where
  kind : SameKind a rest
  has : ∀ value, Has rest value ↔ Has a value ∧ ¬Has b value
  order : rest.members.Sublist a.members

section Laws

variable {a b both rest : AttributeValue} (first : a.Sound)
include first

theorem isUnion_of_union? (second : b.Sound) (joined : a.union? b = some both) :
    IsUnion a b both := by
  have sound := sound_union? first second joined
  have listed := members_union? first joined
  refine ⟨(sameKind_of_union? joined).2, fun value => ?_, ⟨_, listed.symm⟩, sound.distinct⟩
  rw [has_iff sound.memberNumbers, has_iff first.memberNumbers, has_iff second.memberNumbers,
    listed, exists_append_unlike_iff]

theorem isDifference_of_difference? (second : b.Sound) (remaining : a.difference? b = some rest) :
    IsDifference a b rest := by
  have source := members_difference?_sublist first remaining
  refine ⟨(sameKind_of_difference? remaining).2, fun value => ?_, source⟩
  rw [has_iff first.memberNumbers, has_iff second.memberNumbers,
    has_iff fun text belongs => first.memberNumbers text (source.subset belongs),
    members_difference? first remaining, exists_unlike_iff]

theorem union?_union? (second : b.Sound) (joined : a.union? b = some both) :
    both.union? b = some both := by
  obtain ⟨kinds, alike⟩ := sameKind_of_union? joined
  obtain ⟨twice, again⟩ := exists_union? (alike.symm.trans kinds)
  have none : unlike b.members both.members = [] := by
    rw [members_union? first joined]
    exact unlike_eq_nil_iff.mpr fun value member =>
      exists_append_unlike_iff.mpr (Or.inr ⟨value, member, equal_refl value⟩)
  have same : twice.members = both.members := by
    rw [members_union? (sound_union? first second joined) again, none, List.append_nil]
  rw [again, (sameKind_of_union? again).2.ext same]

theorem difference?_union? (second : b.Sound) (joined : a.union? b = some both)
    (remaining : a.difference? b = some rest) : both.difference? b = some rest := by
  obtain ⟨kinds, alike⟩ := sameKind_of_union? joined
  obtain ⟨last, again⟩ := exists_difference? (alike.symm.trans kinds)
  have none : unlike (unlike b.members a.members) b.members = [] :=
    unlike_eq_nil_iff.mpr fun value member => ⟨value, (mem_unlike.mp member).1, equal_refl value⟩
  have same : last.members = rest.members := by
    rw [members_difference? (sound_union? first second joined) again, members_union? first joined,
      unlike_append, none, List.append_nil, members_difference? first remaining]
  have kept := (sameKind_of_difference? remaining).2.symm.trans
    (alike.trans (sameKind_of_difference? again).2)
  rw [again, kept.ext same]

theorem difference?_difference? (remaining : a.difference? b = some rest)
    (more : rest.isEmptySet = false) : rest.difference? b = some rest := by
  obtain ⟨kinds, alike⟩ := sameKind_of_difference? remaining
  obtain ⟨last, again⟩ := exists_difference? (alike.symm.trans kinds)
  have same : last.members = rest.members := by
    rw [members_difference? (sound_difference? first remaining more) again,
      members_difference? first remaining, unlike_unlike]
  rw [again, (sameKind_of_difference? again).2.ext same]

end Laws

end AttributeValue
end ItemStore
