import ItemStore.Proofs.Value.Edits
import ItemStore.Proofs.Value.Valid

/-!
The parts of a value at given ways down. They depend only on which places are covered, that is, at
or below the end of a way. What is reached by map keys alone stays where it is: unchanged where it
is covered, else with what remains of the ways below it. The elements that are kept of a list move
together.
-/

namespace ItemStore

def Segment.below? (segment : Segment) : List Segment → Option (List Segment)
  | [] => none
  | first :: rest => if first = segment then some rest else none

/-- The segments are the same name, or both positions. -/
inductive Segment.Corresponds : Segment → Segment → Prop
  | key (name : String) : Corresponds (.key name) (.key name)
  | index (position other : Nat) : Corresponds (.index position) (.index other)

theorem Segment.Corresponds.refl : (segment : Segment) → segment.Corresponds segment
  | .key name => .key name
  | .index position => .index position position

mutual
/-- The parts of a value at the given ways down. A map or list of which nothing is left is left out
itself. -/
def AttributeValue.restrict (ways : List (List Segment)) : AttributeValue → Option AttributeValue
  | .map entries =>
      if ways.contains [] then some (.map entries)
      else
        let kept := AttributeValue.restrictEntries ways entries
        if kept.isEmpty then none else some (.map kept)
  | .list elements =>
      if ways.contains [] then some (.list elements)
      else
        let kept := AttributeValue.restrictElements ways 0 elements
        if kept.isEmpty then none else some (.list kept)
  | value => if ways.contains [] then some value else none

def AttributeValue.restrictEntries (ways : List (List Segment)) :
    List (String × AttributeValue) → List (String × AttributeValue)
  | [] => []
  | (name, value) :: rest =>
      match value.restrict (ways.filterMap (Segment.key name).below?) with
      | some part => (name, part) :: AttributeValue.restrictEntries ways rest
      | none => AttributeValue.restrictEntries ways rest

def AttributeValue.restrictElements (ways : List (List Segment)) (position : Nat) :
    List AttributeValue → List AttributeValue
  | [] => []
  | value :: rest =>
      match value.restrict (ways.filterMap (Segment.index position).below?) with
      | some part => part :: AttributeValue.restrictElements ways (position + 1) rest
      | none => AttributeValue.restrictElements ways (position + 1) rest
end

section Ways

variable {ways others : List (List Segment)} {segment : Segment} {rest way : List Segment}

theorem mem_below : rest ∈ ways.filterMap segment.below? ↔ segment :: rest ∈ ways := by
  rw [List.mem_filterMap]
  constructor
  · rintro ⟨found, member, below⟩
    unfold Segment.below? at below
    split at below
    · cases below
    · split at below
      · rename_i same
        cases below
        exact same ▸ member
      · cases below
  · exact fun member => ⟨_, member, if_pos rfl⟩

def remaining (ways : List (List Segment)) : List Segment → List (List Segment)
  | [] => ways
  | segment :: rest => remaining (ways.filterMap segment.below?) rest

theorem mem_remaining : rest ∈ remaining ways way ↔ way ++ rest ∈ ways := by
  induction way generalizing ways with
  | nil => rfl
  | cons segment below ih => rw [remaining, ih, mem_below, List.cons_append]

def Covered (ways : List (List Segment)) (way : List Segment) : Prop :=
  ∃ short ∈ ways, short <+: way

theorem covered_below (outer : [] ∉ ways) :
    Covered (ways.filterMap segment.below?) rest ↔ Covered ways (segment :: rest) := by
  constructor
  · rintro ⟨short, member, start⟩
    exact ⟨segment :: short, mem_below.mp member, List.cons_prefix_cons.mpr ⟨rfl, start⟩⟩
  · rintro ⟨short, member, start⟩
    cases short with
    | nil => exact absurd member outer
    | cons first short =>
        obtain ⟨rfl, further⟩ := List.cons_prefix_cons.mp start
        exact ⟨short, mem_below.mpr member, further⟩

theorem covered_nil : Covered ways [] ↔ [] ∈ ways := by
  constructor
  · rintro ⟨short, member, start⟩
    exact List.prefix_nil.mp start ▸ member
  · exact fun member => ⟨[], member, List.nil_prefix⟩

/-- Each of the ways ends at or below the end of one of the others, and the other way round. -/
structure CoverAlike (ways others : List (List Segment)) : Prop where
  left : ∀ way ∈ ways, Covered others way
  right : ∀ way ∈ others, Covered ways way

namespace CoverAlike

theorem nil_mem_iff (alike : CoverAlike ways others) : [] ∈ ways ↔ [] ∈ others :=
  ⟨fun member => covered_nil.mp (alike.left [] member),
    fun member => covered_nil.mp (alike.right [] member)⟩

theorem below (alike : CoverAlike ways others) (outer : [] ∉ ways) (segment : Segment) :
    CoverAlike (ways.filterMap segment.below?) (others.filterMap segment.below?) where
  left _ member := (covered_below fun whole => outer (alike.nil_mem_iff.mpr whole)).mpr
    (alike.left _ (mem_below.mp member))
  right _ member := (covered_below outer).mpr (alike.right _ (mem_below.mp member))

end CoverAlike

end Ways

namespace AttributeValue

variable {ways : List (List Segment)} {value : AttributeValue}

theorem restrict_whole (whole : [] ∈ ways) : value.restrict ways = some value := by
  have named : ways.contains [] = true := List.contains_iff_mem.mpr whole
  cases value <;> simp only [restrict, named, if_true]

section Outer

variable (outer : [] ∉ ways)
include outer

theorem restrict_map (entries : Item) : (map entries).restrict ways =
    if (restrictEntries ways entries).isEmpty then none
    else some (.map (restrictEntries ways entries)) := by
  have named : ways.contains [] = false := by simpa using outer
  simp only [restrict, named, Bool.false_eq_true, if_false]

theorem restrict_list (elements : List AttributeValue) : (list elements).restrict ways =
    if (restrictElements ways 0 elements).isEmpty then none
    else some (.list (restrictElements ways 0 elements)) := by
  have named : ways.contains [] = false := by simpa using outer
  simp only [restrict, named, Bool.false_eq_true, if_false]

theorem restrict_scalar (lists : ∀ elements, value ≠ .list elements)
    (maps : ∀ entries, value ≠ .map entries) : value.restrict ways = none := by
  have named : ways.contains [] = false := by simpa using outer
  cases value with
  | list elements => exact absurd rfl (lists elements)
  | map entries => exact absurd rfl (maps entries)
  | _ => simp only [restrict, named, Bool.false_eq_true, if_false]

end Outer

/-! Without any way there is no part. -/

mutual
theorem restrict_nil : (value : AttributeValue) → value.restrict [] = none
  | .map entries => by
      rw [restrict_map List.not_mem_nil, restrictEntries_nil]
      rfl
  | .list elements => by
      rw [restrict_list List.not_mem_nil, restrictElements_nil]
      rfl
  | .string _ | .number _ | .binary _ | .stringSet _ | .numberSet _ | .binarySet _ | .boolean _
  | .null _ => restrict_scalar nofun nofun nofun

theorem restrictEntries_nil : (entries : Item) → restrictEntries [] entries = []
  | [] => rfl
  | (name, value) :: rest => by
      simp only [restrictEntries, List.filterMap_nil, restrict_nil value, restrictEntries_nil rest]

theorem restrictElements_nil : (position : Nat) → (elements : List AttributeValue) →
    restrictElements [] position elements = []
  | _, [] => rfl
  | position, value :: rest => by
      simp only [restrictElements, List.filterMap_nil, restrict_nil value,
        restrictElements_nil (position + 1) rest]
end

/-! Ways that cover alike lead to the same parts. -/

mutual
theorem restrict_congr : (value : AttributeValue) → ∀ {ways others : List (List Segment)},
    CoverAlike ways others → value.restrict ways = value.restrict others
  | .map entries, ways, others, alike => by
      by_cases whole : [] ∈ ways
      · rw [restrict_whole whole, restrict_whole (alike.nil_mem_iff.mp whole)]
      · rw [restrict_map whole, restrict_map fun member => whole (alike.nil_mem_iff.mpr member),
          restrictEntries_congr entries (alike.below whole)]
  | .list elements, ways, others, alike => by
      by_cases whole : [] ∈ ways
      · rw [restrict_whole whole, restrict_whole (alike.nil_mem_iff.mp whole)]
      · rw [restrict_list whole, restrict_list fun member => whole (alike.nil_mem_iff.mpr member),
          restrictElements_congr elements 0 (alike.below whole)]
  | .string _, ways, others, alike | .number _, ways, others, alike
  | .binary _, ways, others, alike | .stringSet _, ways, others, alike
  | .numberSet _, ways, others, alike | .binarySet _, ways, others, alike
  | .boolean _, ways, others, alike | .null _, ways, others, alike => by
      have whole : ways.contains [] = others.contains [] := by
        rw [Bool.eq_iff_iff, List.contains_iff_mem, List.contains_iff_mem, alike.nil_mem_iff]
      simp only [restrict, whole]

theorem restrictEntries_congr : (entries : Item) → ∀ {ways others : List (List Segment)},
    (∀ segment : Segment,
      CoverAlike (ways.filterMap segment.below?) (others.filterMap segment.below?)) →
    restrictEntries ways entries = restrictEntries others entries
  | [], _, _, _ => rfl
  | (name, value) :: rest, ways, others, alike => by
      rw [restrictEntries, restrictEntries, restrict_congr value (alike (.key name)),
        restrictEntries_congr rest alike]

theorem restrictElements_congr : (elements : List AttributeValue) → (position : Nat) →
    ∀ {ways others : List (List Segment)}, (∀ segment : Segment,
      CoverAlike (ways.filterMap segment.below?) (others.filterMap segment.below?)) →
    restrictElements ways position elements = restrictElements others position elements
  | [], _, _, _, _ => rfl
  | value :: rest, position, ways, others, alike => by
      rw [restrictElements, restrictElements, restrict_congr value (alike (.index position)),
        restrictElements_congr rest (position + 1) alike]
end

/-! What is kept of a map and of a list. -/

theorem mem_restrictEntries {entries : Item} {entry : String × AttributeValue}
    (member : entry ∈ restrictEntries ways entries) : ∃ value, (entry.1, value) ∈ entries ∧
      value.restrict (ways.filterMap (Segment.key entry.1).below?) = some entry.2 := by
  induction entries with
  | nil => cases member
  | cons first rest ih =>
      obtain ⟨name, value⟩ := first
      have later (there : entry ∈ restrictEntries ways rest) : ∃ found,
          (entry.1, found) ∈ (name, value) :: rest ∧
            found.restrict (ways.filterMap (Segment.key entry.1).below?) = some entry.2 := by
        obtain ⟨found, listed, kept⟩ := ih there
        exact ⟨found, List.mem_cons_of_mem _ listed, kept⟩
      rw [restrictEntries] at member
      split at member
      · rename_i part kept
        rcases List.mem_cons.mp member with rfl | there
        · exact ⟨value, List.mem_cons_self, kept⟩
        · exact later there
      · exact later member

theorem ascending_restrictEntries {entries : Item} (ascending : Dict.Ascending entries) :
    Dict.Ascending (restrictEntries ways entries) := by
  induction entries with
  | nil => exact Dict.ascending_nil
  | cons first rest ih =>
      obtain ⟨before, ordered⟩ := List.pairwise_cons.mp ascending
      rw [restrictEntries]
      split
      · refine List.pairwise_cons.mpr ⟨fun entry member => ?_, ih ordered⟩
        obtain ⟨value, listed, _⟩ := mem_restrictEntries member
        exact before (entry.1, value) listed
      · exact ih ordered

theorem get?_restrictEntries {entries : Item} (ascending : Dict.Ascending entries)
    (name : String) : Dict.get? (restrictEntries ways entries) name =
      (Dict.get? entries name).bind fun value =>
        value.restrict (ways.filterMap (Segment.key name).below?) := by
  induction entries with
  | nil => rfl
  | cons first rest ih =>
      have later := ih (List.pairwise_cons.mp ascending).2
      obtain ⟨bound, value⟩ := first
      rw [restrictEntries]
      by_cases same : bound = name
      · subst bound
        rw [Dict.get?_cons_self, Option.bind_some]
        split
        · rename_i part kept
          rw [Dict.get?_cons_self, kept]
        · rename_i gone
          rw [later, Dict.get?_tail ascending, gone, Option.bind_none]
      · rw [Dict.get?_cons_of_ne same, ← later]
        split
        · exact Dict.get?_cons_of_ne same _ _
        · rfl

theorem restrictElements_eq (position : Nat) (elements : List AttributeValue) :
    restrictElements ways position elements =
      (List.range elements.length).filterMap fun offset => elements[offset]?.bind fun element =>
        element.restrict (ways.filterMap (Segment.index (position + offset)).below?) := by
  induction elements generalizing position with
  | nil => rfl
  | cons element rest ih =>
      have shifted (offset : Nat) : position + 1 + offset = position + (offset + 1) := by omega
      rw [restrictElements, ih, List.length_cons, List.range_succ_eq_map, List.filterMap_cons,
        List.filterMap_map]
      simp only [List.getElem?_cons_zero, Option.bind_some, Nat.add_zero, Function.comp_def,
        List.getElem?_cons_succ, Nat.succ_eq_add_one, shifted]
      cases element.restrict (ways.filterMap (Segment.index position).below?) <;> rfl

theorem restrictElements_named (elements : List AttributeValue) :
    restrictElements ways 0 elements =
      ((List.range elements.length).filter fun position =>
        ways.any fun way => way.head? == some (.index position)).filterMap fun position =>
          elements[position]?.bind fun element =>
            element.restrict (ways.filterMap (Segment.index position).below?) := by
  rw [restrictElements_eq, List.filterMap_filter]
  refine List.filterMap_congr fun position _ => ?_
  rw [Nat.zero_add]
  split
  · rfl
  · rename_i unnamed
    have empty : ways.filterMap (Segment.index position).below? = [] := by
      refine List.eq_nil_iff_forall_not_mem.mpr fun rest member => unnamed ?_
      exact List.any_eq_true.mpr ⟨_, mem_below.mp member, by simp⟩
    simp only [empty, restrict_nil, Option.bind_fun_none]

/-! Places that are reached by map keys alone. -/

theorem child?_restrict (ordered : value.Ordered) (outer : [] ∉ ways) (name : String) :
    (value.restrict ways).bind (fun part => part.child? (.key name)) =
      (value.child? (.key name)).bind fun child =>
        child.restrict (ways.filterMap (Segment.key name).below?) := by
  cases value with
  | map entries =>
      simp only [child?, ← get?_restrictEntries (ordered_map.mp ordered).1]
      rw [restrict_map outer]
      split
      · rename_i empty
        rw [List.isEmpty_iff.mp empty]
        rfl
      · rfl
  | list elements =>
      rw [restrict_list outer]
      split <;> rfl
  | _ =>
      refine (congrArg (fun part => Option.bind part _) (restrict_scalar outer ?_ ?_)).trans rfl
      all_goals nofun

theorem at?_restrict_key (ordered : value.Ordered) (outer : [] ∉ ways) (name : String)
    (rest : List Segment) :
    (value.restrict ways).bind (fun part => part.at? (.key name :: rest)) =
      (value.child? (.key name)).bind fun child =>
        (child.restrict (ways.filterMap (Segment.key name).below?)).bind
          fun part => part.at? rest := by
  simp only [at?_cons]
  rw [← Option.bind_assoc, child?_restrict ordered outer, Option.bind_assoc]

variable {way : List Segment}

theorem at?_restrict_of_covered (ordered : value.Ordered)
    (keys : ∀ segment ∈ way, ∃ name, segment = .key name) (covered : Covered ways way) :
    (value.restrict ways).bind (fun part => part.at? way) = value.at? way := by
  induction way generalizing value ways with
  | nil => rw [restrict_whole (covered_nil.mp covered), Option.bind_some]
  | cons segment rest ih =>
      by_cases whole : [] ∈ ways
      · rw [restrict_whole whole, Option.bind_some]
      · obtain ⟨name, rfl⟩ := keys segment List.mem_cons_self
        rw [at?_restrict_key ordered whole, at?_cons]
        refine Option.bind_congr fun child here => ?_
        exact ih (ordered_child? ordered here)
          (fun other member => keys other (List.mem_cons_of_mem _ member))
          ((covered_below whole).mpr covered)

theorem at?_restrict_of_not_covered (ordered : value.Ordered)
    (keys : ∀ segment ∈ way, ∃ name, segment = .key name) (uncovered : ¬Covered ways way) :
    (value.restrict ways).bind (fun part => part.at? way) =
      (value.at? way).bind fun found => found.restrict (remaining ways way) := by
  induction way generalizing value ways with
  | nil => simp [at?, remaining]
  | cons segment rest ih =>
      have outer : [] ∉ ways := fun whole => uncovered ⟨[], whole, List.nil_prefix⟩
      obtain ⟨name, rfl⟩ := keys segment List.mem_cons_self
      rw [at?_restrict_key ordered outer, at?_cons, Option.bind_assoc]
      refine Option.bind_congr fun child here => ?_
      exact ih (ordered_child? ordered here)
        (fun other member => keys other (List.mem_cons_of_mem _ member))
        fun covered => uncovered ((covered_below outer).mp covered)

theorem at?_of_at?_restrict (ordered : value.Ordered)
    (keys : ∀ segment ∈ way, ∃ name, segment = .key name) {part : AttributeValue}
    (left : (value.restrict ways).bind (fun part => part.at? way) = some part) :
    (∃ asked ∈ ways, asked <+: way ∨ way <+: asked) ∧ ∃ found, value.at? way = some found := by
  by_cases covered : Covered ways way
  · rw [at?_restrict_of_covered ordered keys covered] at left
    obtain ⟨short, member, start⟩ := covered
    exact ⟨⟨short, member, Or.inl start⟩, part, left⟩
  · rw [at?_restrict_of_not_covered ordered keys covered] at left
    obtain ⟨found, here, kept⟩ := Option.bind_eq_some_iff.mp left
    refine ⟨?_, found, here⟩
    cases below : remaining ways way with
    | nil =>
        rw [below, restrict_nil] at kept
        cases kept
    | cons rest more =>
        have member : rest ∈ remaining ways way := below ▸ List.mem_cons_self
        exact ⟨way ++ rest, mem_remaining.mp member, Or.inr (List.prefix_append _ _)⟩

/-! No map or list is left with nothing. -/

theorem restrict_cases (outer : [] ∉ ways) {kept : AttributeValue}
    (left : value.restrict ways = some kept) :
    (∃ entries, value = .map entries ∧ kept = .map (restrictEntries ways entries) ∧
      restrictEntries ways entries ≠ []) ∨
    ∃ elements, value = .list elements ∧ kept = .list (restrictElements ways 0 elements) ∧
      restrictElements ways 0 elements ≠ [] := by
  cases value with
  | map entries =>
      rw [restrict_map outer] at left
      split at left <;> cases left
      rename_i full
      exact Or.inl ⟨entries, rfl, rfl, fun empty => full (List.isEmpty_iff.mpr empty)⟩
  | list elements =>
      rw [restrict_list outer] at left
      split at left <;> cases left
      rename_i full
      exact Or.inr ⟨elements, rfl, rfl, fun empty => full (List.isEmpty_iff.mpr empty)⟩
  | _ =>
      refine absurd (left.symm.trans (restrict_scalar outer ?_ ?_)) nofun
      all_goals nofun

theorem mem_restrictElements {elements : List AttributeValue} {part : AttributeValue}
    (member : part ∈ restrictElements ways 0 elements) :
    ∃ (position : Nat) (element : AttributeValue), elements[position]? = some element ∧
      element.restrict (ways.filterMap (Segment.index position).below?) = some part := by
  rw [restrictElements_eq] at member
  obtain ⟨position, _, kept⟩ := List.mem_filterMap.mp member
  obtain ⟨element, here, kept⟩ := Option.bind_eq_some_iff.mp kept
  rw [Nat.zero_add] at kept
  exact ⟨position, element, here, kept⟩

theorem child_of_restrict (ordered : value.Ordered) (outer : [] ∉ ways) {segment : Segment}
    {kept keptChild : AttributeValue} (restricted : value.restrict ways = some kept)
    (below : kept.child? segment = some keptChild) :
    ∃ source child, segment.Corresponds source ∧ value.child? source = some child ∧
      child.restrict (ways.filterMap source.below?) = some keptChild := by
  rcases restrict_cases outer restricted with ⟨entries, rfl, rfl, _⟩ | ⟨elements, rfl, rfl, _⟩
  · cases segment with
    | index position => cases below
    | key name =>
        rw [child?, get?_restrictEntries (ordered_map.mp ordered).1] at below
        obtain ⟨child, here, left⟩ := Option.bind_eq_some_iff.mp below
        exact ⟨.key name, child, .key name, here, left⟩
  · cases segment with
    | key name => cases below
    | index position =>
        obtain ⟨source, child, here, left⟩ := mem_restrictElements (List.mem_of_getElem? below)
        exact ⟨.index source, child, .index position source, here, left⟩

def Hollow (value : AttributeValue) : Prop :=
  value = .map [] ∨ value = .list []

theorem not_hollow_of_restrict (outer : [] ∉ ways) {part : AttributeValue}
    (left : value.restrict ways = some part) : ¬part.Hollow := by
  rintro (rfl | rfl)
  · rcases restrict_cases outer left with ⟨_, _, same, full⟩ | ⟨_, _, same, _⟩
    · exact full (map.inj same).symm
    · cases same
  · rcases restrict_cases outer left with ⟨_, _, same, _⟩ | ⟨_, _, same, full⟩
    · cases same
    · exact full (list.inj same).symm

/-- Whatever stands in the parts of a value has a place in the value that differs in positions of
elements only. It is the value there, or what remains of it. -/
theorem origin_of_restrict (ordered : value.Ordered) {part : AttributeValue}
    (left : (value.restrict ways).bind (fun kept => kept.at? way) = some part) :
    ∃ origin, List.Forall₂ Segment.Corresponds way origin ∧
      ((Covered ways origin ∧ value.at? origin = some part) ∨
        ¬Covered ways origin ∧ ((value.at? origin).bind fun found =>
          found.restrict (remaining ways origin)) = some part) := by
  induction way generalizing value ways with
  | nil =>
      refine ⟨[], .nil, ?_⟩
      by_cases whole : [] ∈ ways
      · rw [restrict_whole whole] at left
        exact Or.inl ⟨covered_nil.mpr whole, left⟩
      · refine Or.inr ⟨fun covered => whole (covered_nil.mp covered), ?_⟩
        simpa [at?, remaining] using left
  | cons segment rest ih =>
      by_cases whole : [] ∈ ways
      · rw [restrict_whole whole] at left
        exact ⟨segment :: rest, List.forall₂_same.mpr fun _ _ => .refl _,
          Or.inl ⟨⟨[], whole, List.nil_prefix⟩, left⟩⟩
      · obtain ⟨kept, restricted, there⟩ := Option.bind_eq_some_iff.mp left
        rw [at?_cons] at there
        obtain ⟨keptChild, below, there⟩ := Option.bind_eq_some_iff.mp there
        obtain ⟨source, child, corresponds, here, childRestricted⟩ :=
          child_of_restrict ordered whole restricted below
        obtain ⟨origin, further, found⟩ := ih (ordered_child? ordered here)
          (Option.bind_eq_some_iff.mpr ⟨keptChild, childRestricted, there⟩)
        refine ⟨source :: origin, .cons corresponds further, ?_⟩
        rw [← covered_below whole, at?_cons, here]
        exact found

end AttributeValue
end ItemStore
