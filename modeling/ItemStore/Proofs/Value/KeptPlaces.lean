import ItemStore.Proofs.Value.EditSequences
import ItemStore.Proofs.Value.Restriction

/-!
Places that edits leave where they are, and where the parts of a value have them. What is written
stands at its place unless that is beyond the end of a list, and goes on standing there until
something in front of it is dropped. In the parts of a value an element is behind the elements in
front of it of which something is kept.
-/

namespace ItemStore

def InFront (a b : List Segment) : Prop :=
  ∃ way position other rest, a = way ++ [.index position] ∧ b = way ++ .index other :: rest ∧
    position < other

namespace InFront

variable {a b c : List Segment}

theorem cons (segment : Segment) (front : InFront a b) :
    InFront (segment :: a) (segment :: b) := by
  obtain ⟨way, position, other, rest, rfl, rfl, less⟩ := front
  exact ⟨segment :: way, position, other, rest, rfl, rfl, less⟩

theorem trans (first : InFront a b) (second : InFront b c) : InFront a c := by
  obtain ⟨way, position, other, rest, rfl, same, less⟩ := first
  obtain ⟨further, last, beyond, more, rfl, rfl, ahead⟩ := second
  rcases List.eq_nil_or_concat rest with rfl | ⟨between, final, rfl⟩
  · obtain ⟨rfl, equal⟩ := List.append_inj' same rfl
    cases equal
    exact ⟨further, position, beyond, more, rfl, rfl, Nat.lt_trans less ahead⟩
  · have split : further ++ [.index last] = (way ++ .index other :: between) ++ [final] := by
      rw [same, List.concat_eq_append, List.append_assoc, List.cons_append]
    obtain ⟨rfl, _⟩ := List.append_inj' split rfl
    exact ⟨way, position, other, between ++ .index beyond :: more, rfl, by simp, less⟩

theorem not_of_keys (keys : ∀ segment ∈ b, ∃ name, segment = .key name) : ¬InFront a b := by
  rintro ⟨way, position, other, rest, rfl, rfl, _⟩
  obtain ⟨_, same⟩ := keys (.index other) (by simp)
  cases same

end InFront

theorem getElem?_putAt_of_le {α : Type} {elements : List α} {position : Nat} {element : α}
    (within : position ≤ elements.length) :
    (putAt elements position element)[position]? = some element := by
  unfold putAt
  split
  · rename_i inside
    exact List.getElem?_set_self inside
  · rename_i outside
    rw [Nat.le_antisymm within (Nat.not_lt.mp outside)]
    exact List.getElem?_concat_length

namespace AttributeValue

variable {value after found : AttributeValue} {a b way : List Segment}
  {ways : List (List Segment)}

theorem at?_append (value : AttributeValue) (way rest : List Segment) :
    value.at? (way ++ rest) = (value.at? way).bind fun found => found.at? rest := by
  induction way generalizing value with
  | nil => rfl
  | cons segment below ih =>
      rw [List.cons_append, at?_cons, at?_cons, Option.bind_assoc]
      exact Option.bind_congr fun child _ => ih child

theorem length_of_stands {elements : List AttributeValue} {position : Nat} {rest : List Segment}
    (stands : ((list elements).at? (.index position :: rest)).isSome = true) :
    position < elements.length := by
  by_contra outside
  rw [at?_cons, child?, List.getElem?_eq_none (Nat.not_lt.mp outside)] at stands
  cases stands

/-! What is written stands at its place. -/

def Reaches (value : AttributeValue) (place : List Segment) : Prop :=
  ∀ way position elements, place = way ++ [.index position] →
    value.at? way = some (.list elements) → position ≤ elements.length

theorem Reaches.of_keys (keys : ∀ segment ∈ way, ∃ name, segment = .key name) :
    value.Reaches way := by
  rintro way position elements rfl
  obtain ⟨_, same⟩ := keys (.index position) (by simp)
  cases same

theorem Reaches.of_stands (stands : (value.at? way).isSome = true) : value.Reaches way := by
  rintro way position elements rfl here
  rw [at?_append, here] at stands
  exact Nat.le_of_lt (length_of_stands stands)

theorem Reaches.child {segment : Segment} (reaches : value.Reaches (segment :: a))
    (here : value.child? segment = some found) : found.Reaches a := by
  rintro way position elements rfl stands
  refine reaches (segment :: way) position elements rfl ?_
  rw [at?_cons, here]
  exact stands

theorem child?_change?_of_reaches {segment : Segment} (reaches : value.Reaches [segment])
    (changed : value.change? segment (some found) = some after) :
    after.child? segment = some found := by
  cases segment with
  | key name => exact child?_change?_key changed
  | index position =>
      cases value with
      | list elements =>
          cases changed
          exact getElem?_putAt_of_le (reaches [] position elements rfl rfl)
      | _ => cases changed

theorem at?_of_edit?_reaching {written : AttributeValue} (reaches : value.Reaches a)
    (edited : value.edit? (some written) a = some after) : after.at? a = some written := by
  induction a generalizing value after with
  | nil => cases edited
  | cons segment rest ih =>
      rw [edit?_cons] at edited
      obtain ⟨remade, made, changed⟩ := Option.bind_eq_some_iff.mp edited
      rw [at?_cons]
      by_cases last : rest = []
      · subst last
        cases made
        rw [child?_change?_of_reaches reaches changed]
        rfl
      · obtain ⟨x, y, here, below, rfl⟩ := remade?_of_ne_nil last made
        rw [child?_change?_self (by rw [here]; rfl) changed]
        exact ih (reaches.child here) below

/-! What stands is disturbed only when something in front of it is dropped. -/

theorem isSome_at?_of_inFront (front : InFront a b) (stands : (value.at? b).isSome = true) :
    (value.at? a).isSome = true := by
  obtain ⟨way, position, other, rest, rfl, rfl, less⟩ := front
  rw [at?_append] at stands ⊢
  obtain ⟨found, here⟩ := Option.isSome_iff_exists.mp (Option.isSome_of_isSome_bind stands)
  rw [here, Option.bind_some] at stands ⊢
  cases found with
  | list elements =>
      rw [at?_cons, child?,
        List.getElem?_eq_getElem (Nat.lt_trans less (length_of_stands stands))]
      rfl
  | _ => cases stands

theorem inFront_of_disturbs {drops : Bool} (stands : (value.at? b).isSome = true)
    (disturbed : disturbs drops a b value = true) : drops = true ∧ InFront a b := by
  induction a generalizing b value with
  | nil => cases b <;> cases disturbed
  | cons first rest ih =>
      cases b with
      | nil => cases disturbed
      | cons second others =>
          rw [at?_cons] at stands
          cases here : value.child? second with
          | none =>
              rw [here] at stands
              cases stands
          | some child =>
              rw [here] at stands
              rw [disturbs] at disturbed
              split at disturbed
              · rename_i same
                subst same
                rw [here] at disturbed
                obtain ⟨drops, front⟩ := ih stands disturbed
                exact ⟨drops, front.cons _⟩
              · cases first with
                | key name => cases second <;> cases disturbed
                | index position =>
                    cases second with
                    | key name => cases disturbed
                    | index other =>
                        simp only [childDisturbs, here, Option.isSome_some, if_true,
                          Bool.and_eq_true, List.isEmpty_iff, decide_eq_true_eq] at disturbed
                        obtain ⟨⟨drops, rfl⟩, less⟩ := disturbed
                        exact ⟨drops, [], position, other, others, rfl, rfl, less⟩

/-! Where the parts of a value have a place. -/

theorem restrictElements_append (position : Nat) (first second : List AttributeValue) :
    restrictElements ways position (first ++ second) = restrictElements ways position first ++
      restrictElements ways (position + first.length) second := by
  induction first generalizing position with
  | nil => rfl
  | cons element rest ih =>
      have further : position + 1 + rest.length = position + (rest.length + 1) := by omega
      rw [List.cons_append, restrictElements, restrictElements, ih, List.length_cons, further]
      split <;> rfl

def keptSegment (ways : List (List Segment)) (value : AttributeValue) : Segment → Segment
  | .key name => .key name
  | .index position =>
      match value with
      | .list elements => .index (restrictElements ways 0 (elements.take position)).length
      | _ => .index position

def keptWay (ways : List (List Segment)) (value : AttributeValue) : List Segment → List Segment
  | [] => []
  | segment :: rest =>
      if [] ∈ ways then segment :: rest
      else
        match value.child? segment with
        | some child =>
            keptSegment ways value segment ::
              keptWay (ways.filterMap segment.below?) child rest
        | none => segment :: rest

theorem corresponds_keptSegment (ways : List (List Segment)) (value : AttributeValue)
    (segment : Segment) : segment.Corresponds (keptSegment ways value segment) := by
  cases segment with
  | key name => exact .key name
  | index position => cases value <;> exact .index _ _

theorem corresponds_keptWay (ways : List (List Segment)) (value : AttributeValue)
    (way : List Segment) :
    List.Forall₂ Segment.Corresponds way (keptWay ways value way) := by
  have same : ∀ way : List Segment, List.Forall₂ Segment.Corresponds way way :=
    fun way => List.forall₂_same.mpr fun _ _ => .refl _
  induction way generalizing ways value with
  | nil => exact .nil
  | cons segment rest ih =>
      rw [keptWay]
      split
      · exact same _
      · split
        · exact .cons (corresponds_keptSegment _ _ _) (ih _ _)
        · exact same _

theorem keptWay_of_keys (keys : ∀ segment ∈ way, ∃ name, segment = .key name) :
    keptWay ways value way = way := by
  induction way generalizing ways value with
  | nil => rfl
  | cons segment rest ih =>
      obtain ⟨name, rfl⟩ := keys segment List.mem_cons_self
      rw [keptWay]
      split
      · rfl
      · split
        · rw [ih fun other member => keys other (List.mem_cons_of_mem _ member)]
          rfl
        · rfl

theorem child?_keptSegment (ordered : value.Ordered) (outer : [] ∉ ways) {segment : Segment}
    {part : AttributeValue} (here : value.child? segment = some found)
    (left : found.restrict (ways.filterMap segment.below?) = some part) :
    ∃ kept, value.restrict ways = some kept ∧
      kept.child? (keptSegment ways value segment) = some part := by
  cases segment with
  | key name =>
      have kept := child?_restrict ordered outer name
      rw [here, Option.bind_some, left] at kept
      exact Option.bind_eq_some_iff.mp kept
  | index position =>
      cases value with
      | list elements =>
          obtain ⟨inside, rfl⟩ := List.getElem?_eq_some_iff.mp here
          have parted : restrictElements ways 0 elements =
              restrictElements ways 0 (elements.take position) ++
                part :: restrictElements ways (position + 1) (elements.drop (position + 1)) := by
            conv_lhs => rw [← List.take_append_drop position elements]
            rw [restrictElements_append, List.length_take, Nat.zero_add,
              Nat.min_eq_left (Nat.le_of_lt inside), List.drop_eq_getElem_cons inside,
              restrictElements, left]
          refine ⟨.list (restrictElements ways 0 elements), ?_, ?_⟩
          · rw [restrict_list outer, parted]
            simp
          · rw [parted, keptSegment, child?, List.getElem?_append_right (Nat.le_refl _),
              Nat.sub_self]
            rfl
      | _ => cases here

/-- Whatever stands at or below the end of one of the ways is among the parts. -/
theorem at?_keptWay (ordered : value.Ordered) (covered : Covered ways way)
    (here : value.at? way = some found) :
    ∃ kept, value.restrict ways = some kept ∧ kept.at? (keptWay ways value way) = some found := by
  induction way generalizing ways value with
  | nil =>
      exact ⟨value, restrict_whole (covered_nil.mp covered), here⟩
  | cons segment rest ih =>
      rw [keptWay]
      by_cases whole : [] ∈ ways
      · rw [if_pos whole]
        exact ⟨value, restrict_whole whole, here⟩
      · rw [at?_cons] at here
        obtain ⟨child, below, here⟩ := Option.bind_eq_some_iff.mp here
        obtain ⟨part, left, there⟩ :=
          ih (ordered_child? ordered below) ((covered_below whole).mpr covered) here
        obtain ⟨kept, restricted, stands⟩ := child?_keptSegment ordered whole below left
        refine ⟨kept, restricted, ?_⟩
        rw [if_neg whole, below]
        dsimp only
        rw [at?_cons, stands]
        exact there

end AttributeValue

namespace Item

theorem isSome_at?_of_inFront {item : Item} {first second : Location}
    (front : InFront first.way second.way) (stands : (item.at? second).isSome = true) :
    (item.at? first).isSome = true :=
  @AttributeValue.isSome_at?_of_inFront (.map item) _ _ front stands

def keptPlace (item : Item) (locations : List Location) (place : Location) : Location :=
  ⟨place.top, (AttributeValue.keptWay (locations.map Location.way) (.map item) place.way).tail⟩

theorem keptPlace_way (item : Item) (locations : List Location) (place : Location) :
    (item.keptPlace locations place).way =
      AttributeValue.keptWay (locations.map Location.way) (.map item) place.way := by
  have corresponds :=
    AttributeValue.corresponds_keptWay (locations.map Location.way) (.map item) place.way
  obtain ⟨_, rest, first, _, same⟩ := List.forall₂_cons_left_iff.mp corresponds
  cases first
  rw [keptPlace, Location.way, same]
  rfl

theorem corresponds_keptPlace (item : Item) (locations : List Location) (place : Location) :
    List.Forall₂ Segment.Corresponds place.way (item.keptPlace locations place).way := by
  rw [keptPlace_way]
  exact AttributeValue.corresponds_keptWay _ _ _

end Item
end ItemStore
