import ItemStore.Proofs.Value.EditSequences

/-!
A value without the parts at given places. Parts are taken out one after another, and each element
of a list that goes moves those behind it; from the highest place down, each part is still found
where it was, so that exactly the named ones go.
-/

namespace ItemStore

namespace AttributeValue

/-! A value without the parts at the places below it that are named. Positions are counted in the
lists as they are before anything goes. -/

mutual
def without (named : List Segment → Bool) : AttributeValue → AttributeValue
  | .list elements => .list (withoutElements named 0 elements)
  | .map entries => .map (withoutEntries named entries)
  | value => value

def withoutElements (named : List Segment → Bool) (position : Nat) :
    List AttributeValue → List AttributeValue
  | [] => []
  | element :: rest =>
      if named [.index position] then withoutElements named (position + 1) rest
      else element.without (fun way => named (.index position :: way)) ::
        withoutElements named (position + 1) rest

def withoutEntries (named : List Segment → Bool) :
    List (String × AttributeValue) → List (String × AttributeValue)
  | [] => []
  | (name, value) :: rest =>
      if named [.key name] then withoutEntries named rest
      else (name, value.without fun way => named (.key name :: way)) :: withoutEntries named rest
end

/-! Where no place is named, everything stays. -/

mutual
theorem without_free : (value : AttributeValue) → value.without (fun _ => false) = value
  | .list elements => by rw [without, withoutElements_free]
  | .map entries => by rw [without, withoutEntries_free]
  | .string _ | .number _ | .binary _ | .boolean _ | .null _ | .stringSet _ | .numberSet _
  | .binarySet _ => by simp [without]

theorem withoutElements_free : (position : Nat) → (elements : List AttributeValue) →
    withoutElements (fun _ => false) position elements = elements
  | _, [] => by rw [withoutElements]
  | position, element :: rest => by
      rw [withoutElements, withoutElements_free, without_free]
      rfl

theorem withoutEntries_free : (entries : List (String × AttributeValue)) →
    withoutEntries (fun _ => false) entries = entries
  | [] => by rw [withoutEntries]
  | (name, value) :: rest => by
      rw [withoutEntries, withoutEntries_free, without_free]
      rfl
end

variable {named other : List Segment → Bool} {value : AttributeValue} {way : List Segment}

theorem withoutElements_congr {position : Nat} {elements : List AttributeValue}
    (same : ∀ place, position ≤ place → ∀ way, named (.index place :: way) =
      other (.index place :: way)) :
    withoutElements named position elements = withoutElements other position elements := by
  induction elements generalizing position with
  | nil => simp [withoutElements]
  | cons element rest ih =>
      have here : (fun way => named (.index position :: way)) =
          fun way => other (.index position :: way) := funext (same position (Nat.le_refl _))
      rw [withoutElements, withoutElements, same position (Nat.le_refl _), here,
        ih fun place later => same place (Nat.le_of_succ_le later)]

theorem withoutElements_of_free {position : Nat} {elements : List AttributeValue}
    (free : ∀ place, position ≤ place → ∀ way, named (.index place :: way) = false) :
    withoutElements named position elements = elements :=
  (withoutElements_congr free).trans (withoutElements_free position elements)

theorem withoutEntries_congr {entries : List (String × AttributeValue)}
    (same : ∀ name way, named (.key name :: way) = other (.key name :: way)) :
    withoutEntries named entries = withoutEntries other entries := by
  induction entries with
  | nil => simp [withoutEntries]
  | cons entry rest ih =>
      obtain ⟨name, value⟩ := entry
      rw [withoutEntries, withoutEntries, ih]
      simp only [same]

theorem get?_withoutEntries (entries : Item) (name : String) :
    Dict.get? (withoutEntries named entries) name =
      if named [.key name] then none
      else (Dict.get? entries name).map fun value => value.without fun way =>
        named (.key name :: way) := by
  induction entries with
  | nil => simp [withoutEntries]
  | cons entry rest ih =>
      obtain ⟨bound, value⟩ := entry
      rw [withoutEntries]
      by_cases same : bound = name
      · subst bound
        rw [Dict.get?_cons_self]
        split
        · rename_i gone
          rw [ih, if_pos gone]
        · rw [Dict.get?_cons_self]
          rfl
      · rw [Dict.get?_cons_of_ne same, ← ih]
        split
        · rfl
        · exact Dict.get?_cons_of_ne same _ _

theorem key_mem_of_withoutEntries {entries : Item} {entry : String × AttributeValue}
    (member : entry ∈ withoutEntries named entries) : ∃ value, (entry.1, value) ∈ entries := by
  induction entries with
  | nil => simp [withoutEntries] at member
  | cons first rest ih =>
      obtain ⟨bound, value⟩ := first
      rw [withoutEntries] at member
      split at member
      · obtain ⟨found, later⟩ := ih member
        exact ⟨found, List.mem_cons_of_mem _ later⟩
      · rcases List.mem_cons.mp member with rfl | there
        · exact ⟨value, List.mem_cons_self⟩
        · obtain ⟨found, later⟩ := ih there
          exact ⟨found, List.mem_cons_of_mem _ later⟩

theorem ascending_withoutEntries {entries : Item} (ascending : Dict.Ascending entries) :
    Dict.Ascending (withoutEntries named entries) := by
  induction entries with
  | nil => simp [withoutEntries, Dict.Ascending]
  | cons first rest ih =>
      obtain ⟨bound, value⟩ := first
      obtain ⟨before, ordered⟩ := List.pairwise_cons.mp ascending
      rw [withoutEntries]
      split
      · exact ih ordered
      · refine List.pairwise_cons.mpr ⟨fun entry member => ?_, ih ordered⟩
        obtain ⟨found, later⟩ := key_mem_of_withoutEntries member
        exact before (entry.1, found) later

/-! The part that is taken out first need not be named any more. -/

def orAt (way : List Segment) (named : List Segment → Bool) (place : List Segment) : Bool :=
  place == way || named place

theorem orAt_of_ne {segment another : Segment} (different : another ≠ segment)
    (rest below : List Segment) :
    orAt (segment :: rest) named (another :: below) = named (another :: below) := by
  have apart : another :: below ≠ segment :: rest := fun same => different (List.cons.inj same).1
  rw [orAt, beq_eq_false_iff_ne.mpr apart, Bool.false_or]

theorem orAt_cons (segment : Segment) (rest below : List Segment) :
    orAt (segment :: rest) named (segment :: below) =
      orAt rest (fun way => named (segment :: way)) below := by
  rw [orAt, orAt]
  congr 1
  rw [Bool.eq_iff_iff, beq_iff_eq, beq_iff_eq, List.cons.injEq]
  exact and_iff_right rfl

theorem get?_takeOut_map (entries : Item) (name : String) (rest : List Segment) :
    ∃ left : Item, takeOut (.key name :: rest) (.map entries) = .map left ∧
      (Dict.Ascending entries → Dict.Ascending left) ∧
      (∀ other, other ≠ name → Dict.get? left other = Dict.get? entries other) ∧
      Dict.get? left name =
        if rest = [] then none else (Dict.get? entries name).map (takeOut rest) := by
  cases rest with
  | nil =>
      exact ⟨_, rfl, fun ascending => Dict.ascending_erase ascending name,
        fun other different => Dict.get?_erase_of_ne different entries,
        Dict.get?_erase_self entries name⟩
  | cons segment below =>
      cases here : Dict.get? entries name with
      | none =>
          exact ⟨entries, by simp [takeOut, here], id, fun _ _ => rfl, by simp [here]⟩
      | some child =>
          exact ⟨Dict.insert entries name (takeOut (segment :: below) child),
            by simp [takeOut, here], fun ascending => Dict.ascending_insert ascending name _,
            fun other different => Dict.get?_insert_of_ne different entries _,
            by rw [Dict.get?_insert_self]; rfl⟩

theorem withoutEntries_takeOut {entries : Item} (ascending : Dict.Ascending entries)
    {name : String} {rest : List Segment} {left : Item}
    (taken : takeOut (.key name :: rest) (.map entries) = .map left)
    (below : rest ≠ [] → ∀ child, Dict.get? entries name = some child →
      child.without (orAt rest fun way => named (.key name :: way)) =
        (takeOut rest child).without fun way => named (.key name :: way)) :
    withoutEntries (orAt (.key name :: rest) named) entries = withoutEntries named left := by
  obtain ⟨_, same, kept, others, here⟩ := get?_takeOut_map entries name rest
  cases taken.symm.trans same
  refine Dict.ext_get? (ascending_withoutEntries ascending)
    (ascending_withoutEntries (kept ascending)) fun key => ?_
  rw [get?_withoutEntries, get?_withoutEntries]
  by_cases equal : key = name
  · subst key
    have step : (fun way => orAt (.key name :: rest) named (.key name :: way)) =
        orAt rest fun way => named (.key name :: way) := funext (orAt_cons _ _)
    rw [here, step, orAt_cons]
    by_cases last : rest = []
    · subst last
      simp [orAt]
    · have more : orAt rest (fun way => named (.key name :: way)) [] = named [.key name] := by
        simp [orAt, last]
      rw [more, if_neg last]
      cases found : Dict.get? entries name with
      | none => rfl
      | some child => simp [below last child found]
  · have apart : Segment.key key ≠ .key name := fun same => equal (Segment.key.inj same)
    simp only [orAt_of_ne apart, others key equal]

theorem withoutElements_eraseIdx {index position place : Nat} {elements : List AttributeValue}
    (counted : index = position + place)
    (free : ∀ later, index ≤ later → ∀ way, named (.index later :: way) = false) :
    withoutElements (orAt [.index index] named) position elements =
      withoutElements named position (elements.eraseIdx place) := by
  induction elements generalizing position place with
  | nil => simp [withoutElements]
  | cons element rest ih =>
      cases place with
      | zero =>
          rw [Nat.add_zero] at counted
          subst index
          have gone : orAt [.index position] named [.index position] = true := by simp [orAt]
          rw [withoutElements, if_pos gone, List.eraseIdx_cons_zero, withoutElements_of_free free,
            withoutElements_of_free]
          intro later behind way
          have apart : Segment.index later ≠ .index position := by simp; omega
          rw [orAt_of_ne apart]
          exact free later (by omega) way
      | succ place =>
          have apart : Segment.index position ≠ .index index := by simp; omega
          rw [List.eraseIdx_cons_succ, withoutElements, withoutElements]
          simp only [orAt_of_ne apart]
          rw [@ih (position + 1) place (by omega)]

theorem withoutElements_modify {index position place : Nat} {rest : List Segment}
    {elements : List AttributeValue} (counted : index = position + place) (more : rest ≠ [])
    (below : ∀ child, elements[place]? = some child →
      child.without (orAt rest fun way => named (.index index :: way)) =
        (takeOut rest child).without fun way => named (.index index :: way)) :
    withoutElements (orAt (.index index :: rest) named) position elements =
      withoutElements named position (elements.modify place (takeOut rest)) := by
  induction elements generalizing position place with
  | nil => simp [withoutElements]
  | cons element others ih =>
      cases place with
      | zero =>
          rw [Nat.add_zero] at counted
          subst index
          have here : orAt (.index position :: rest) named [.index position] =
              named [.index position] := by
            simp [orAt, more]
          have step : (fun way => orAt (.index position :: rest) named (.index position :: way)) =
              orAt rest fun way => named (.index position :: way) := funext (orAt_cons _ _)
          have behind : withoutElements (orAt (.index position :: rest) named) (position + 1)
              others = withoutElements named (position + 1) others := by
            refine withoutElements_congr fun later bound way => ?_
            have apart : Segment.index later ≠ .index position := by simp; omega
            exact orAt_of_ne apart rest way
          rw [List.modify_zero_cons, withoutElements, withoutElements, here, step, behind,
            below element rfl]
      | succ place =>
          have apart : Segment.index position ≠ .index index := by simp; omega
          rw [List.modify_succ_cons, withoutElements, withoutElements]
          simp only [orAt_of_ne apart]
          rw [@ih (position + 1) place (by omega) (by simpa using below)]

def Before (way : List Segment) (named : List Segment → Bool) : Prop :=
  ∀ place, named place = true → Apart place way ∧ (compare place way).isLE = true

theorem Before.below {segment : Segment} {rest : List Segment}
    (before : Before (segment :: rest) named) : Before rest fun way => named (segment :: way) := by
  intro place listed
  obtain ⟨apart, inTurn⟩ := before _ listed
  refine ⟨apart.tail, ?_⟩
  rwa [List.compare_cons_cons, Std.ReflOrd.compare_self, Ordering.eq_then] at inTurn

theorem Before.index_le {index later : Nat} {rest below : List Segment}
    (before : Before (.index index :: rest) named) (listed : named (.index later :: below) = true) :
    later ≤ index := by
  have inTurn := (before _ listed).2
  rw [List.compare_cons_cons, Ordering.isLE_then_iff_or] at inTurn
  rcases inTurn with less | ⟨equal, _⟩
  · exact Nat.isLE_compare.mp (Ordering.isLE_of_eq_lt less)
  · exact Nat.isLE_compare.mp (Ordering.isLE_of_eq_eq equal)

theorem without_orAt (ordered : value.Ordered) (more : way ≠ []) (before : Before way named) :
    value.without (orAt way named) = (takeOut way value).without named := by
  induction way generalizing value named with
  | nil => exact absurd rfl more
  | cons segment rest ih =>
      have deeper : rest ≠ [] → ∀ child, value.child? segment = some child →
          child.without (orAt rest fun way => named (segment :: way)) =
            (takeOut rest child).without fun way => named (segment :: way) :=
        fun further child here => ih (ordered_child? ordered here) further before.below
      cases segment with
      | key name =>
          cases value with
          | map entries =>
              obtain ⟨left, taken, _⟩ := get?_takeOut_map entries name rest
              rw [taken, without, without,
                withoutEntries_takeOut (ordered_map.mp ordered).1 taken deeper]
          | list elements =>
              have unchanged : takeOut (.key name :: rest) (.list elements) = .list elements := by
                cases rest <;> simp [takeOut]
              rw [unchanged, without, without,
                withoutElements_congr fun _ _ way => orAt_of_ne (by simp) rest way]
          | _ => cases rest <;> simp [takeOut, without]
      | index position =>
          cases value with
          | list elements =>
              rw [without]
              by_cases last : rest = []
              · subst last
                have free : ∀ later, position ≤ later → ∀ way,
                    named (.index later :: way) = false := by
                  refine fun later bound way => Bool.eq_false_iff.mpr fun listed => ?_
                  cases Nat.le_antisymm bound (before.index_le listed)
                  exact (before _ listed).1.2 (List.cons_prefix_cons.mpr ⟨rfl, List.nil_prefix⟩)
                rw [withoutElements_eraseIdx (Nat.zero_add position).symm free, takeOut, without]
              · have taken : takeOut (.index position :: rest) (.list elements) =
                    .list (elements.modify position (takeOut rest)) := by
                  cases rest with
                  | nil => exact absurd rfl last
                  | cons segment others => rfl
                rw [withoutElements_modify (Nat.zero_add position).symm last (deeper last), taken,
                  without]
          | map entries =>
              have unchanged : takeOut (.index position :: rest) (.map entries) = .map entries := by
                cases rest <;> simp [takeOut]
              rw [unchanged, without, without,
                withoutEntries_congr fun _ way => orAt_of_ne (by simp) rest way]
          | _ => cases rest <;> simp [takeOut, without]

/-- Parts that are taken out from the highest place down leave the value without all of them. -/
theorem foldl_takeOut_eq_without {ways : List (List Segment)} (ordered : value.Ordered)
    (more : ∀ way ∈ ways, way ≠ []) (apart : ways.Pairwise Apart)
    (sorted : ways.Pairwise fun a b => (compare b a).isLE = true) :
    ways.foldl (fun value way => takeOut way value) value =
      value.without fun way => ways.contains way := by
  induction ways generalizing value with
  | nil => exact (without_free value).symm
  | cons way rest ih =>
      obtain ⟨apartHead, apartRest⟩ := List.pairwise_cons.mp apart
      obtain ⟨sortedHead, sortedRest⟩ := List.pairwise_cons.mp sorted
      have before : Before way fun place => rest.contains place := fun place listed =>
        have member := List.contains_iff_mem.mp listed
        ⟨(apartHead place member).symm, sortedHead place member⟩
      have all : (fun place => (way :: rest).contains place) =
          orAt way fun place => rest.contains place := rfl
      rw [List.foldl_cons, ih (ordered_takeOut way ordered)
        (fun other member => more other (List.mem_cons_of_mem _ member)) apartRest sortedRest, all,
        without_orAt ordered (more way List.mem_cons_self) before]

end AttributeValue

end ItemStore
