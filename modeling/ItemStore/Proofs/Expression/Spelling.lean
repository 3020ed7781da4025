import ItemStore.Proofs.Value.Spelling

/-!
Conditions do not see how values are spelled: on equal items and with equal values they hold alike
or fail alike. Only the text of an error may show the values as they are written.
-/

namespace ItemStore

namespace ExpressionError

/-- The same error, but for the values that it shows. -/
inductive Alike : ExpressionError → ExpressionError → Prop
  | refl (error : ExpressionError) : Alike error error
  | betweenBounds (low high other another : String) :
      Alike (.betweenBounds low high) (.betweenBounds other another)

end ExpressionError

inductive GoAlike {α β : Type} (related : α → β → Prop) :
    Except ExpressionError α → Except ExpressionError β → Prop
  | ok {value : α} {other : β} : related value other → GoAlike related (.ok value) (.ok other)
  | error {error other : ExpressionError} :
      error.Alike other → GoAlike related (.error error) (.error other)

namespace GoAlike

variable {α β γ δ : Type} {related : α → β → Prop} {later : γ → δ → Prop}

theorem refl (outcome : Except ExpressionError α) : GoAlike Eq outcome outcome := by
  cases outcome with
  | ok value => exact .ok rfl
  | error error => exact .error (.refl error)

theorem of_eq {first second : Except ExpressionError α} (same : first = second) :
    GoAlike Eq first second :=
  same ▸ refl first

theorem bind {first : Except ExpressionError α} {second : Except ExpressionError β}
    {next : α → Except ExpressionError γ} {other : β → Except ExpressionError δ}
    (here : GoAlike related first second)
    (there : ∀ x y, related x y → GoAlike later (next x) (other y)) :
    GoAlike later (first >>= next) (second >>= other) := by
  cases here with
  | ok fit => exact there _ _ fit
  | error alike => exact .error alike

end GoAlike

def Item.Alike (item other : Item) : Prop :=
  ∀ name, AttributeValue.EqualIf (item.get? name) (other.get? name)

theorem Item.alike_of_equal {item other : Item} (same : item.equal other = true) :
    item.Alike other := by
  intro name
  rcases Item.get?_of_equal same name with ⟨first, second⟩ | ⟨x, y, first, second, here⟩
  · rw [first, second]
    exact .none
  · rw [first, second]
    exact .some here

namespace Bindings

structure Alike (bindings others : Bindings) : Prop where
  names : bindings.names = others.names
  values : Item.Alike bindings.values others.values

end Bindings

open AttributeValue (EqualIf)

section Alike

variable {item other : Item} {bindings others : Bindings}

theorem Item.Alike.at? (items : item.Alike other) (location : Location) :
    EqualIf (item.at? location) (other.at? location) := by
  have tops := items location.top
  rw [Item.at?, Item.at?]
  generalize item.get? location.top = x at tops ⊢
  generalize other.get? location.top = y at tops ⊢
  cases tops with
  | none => exact .none
  | some same => exact AttributeValue.equalIf_at? location.within same

namespace Bindings

theorem alike_refl (bindings : Bindings) : bindings.Alike bindings :=
  ⟨rfl, Item.alike_of_equal (Item.equal_refl _)⟩

theorem location_congr (names : bindings.names = others.names) (path : Path) :
    bindings.location path = others.location path := by
  have name : bindings.name = others.name := by
    funext ref
    cases ref with
    | literal name => rfl
    | placeholder text => simp only [Bindings.name, names]
  have segment : bindings.segment = others.segment := by
    funext step
    cases step with
    | field ref => simp only [Bindings.segment, name]
    | index position => rfl
  simp only [location, name, segment]

variable (given : bindings.Alike others) (items : item.Alike other)
include given

theorem alike_value (placeholder : String) :
    GoAlike (fun a b => a.equal b = true) (bindings.value placeholder)
      (others.value placeholder) := by
  have values := given.values placeholder
  rw [Bindings.value, Bindings.value]
  generalize bindings.values.get? placeholder = x at values ⊢
  generalize others.values.get? placeholder = y at values ⊢
  cases values with
  | none => exact .error (.refl _)
  | some same => exact .ok same

include items

theorem alike_lookup (path : Path) :
    GoAlike EqualIf (bindings.lookup item path) (others.lookup other path) := by
  rw [lookup, lookup, location_congr given.names]
  cases others.location path with
  | ok location => exact .ok (items.at? location)
  | error error => exact .error (.refl error)

end Bindings

variable (given : bindings.Alike others) (items : item.Alike other)
include given items

theorem Operand.alike_evaluate (operand : Operand) :
    GoAlike EqualIf (operand.evaluate bindings item) (operand.evaluate others other) := by
  cases operand with
  | path target => exact Bindings.alike_lookup given items target
  | value placeholder =>
      exact (Bindings.alike_value given placeholder).bind fun _ _ same => .ok (.some same)
  | size target =>
      refine (Bindings.alike_lookup given items target).bind fun _ _ found => ?_
      cases found with
      | none => exact .ok .none
      | some same =>
          dsimp only
          rw [AttributeValue.size_eq_of_equal same]
          refine (GoAlike.refl _).bind fun count _ counts => ?_
          cases counts
          exact .ok (.some (AttributeValue.equal_refl _))

namespace Condition

omit given items in
theorem alike_checkBounds {low low' high high' : Option AttributeValue} (lows : EqualIf low low')
    (highs : EqualIf high high') : GoAlike Eq (checkBounds low high) (checkBounds low' high') := by
  cases lows with
  | none => exact .ok rfl
  | some lows =>
      cases highs with
      | none => exact .ok rfl
      | some highs =>
          simp only [checkBounds, AttributeValue.compare?_congr lows highs]
          split
          · exact .error (.betweenBounds _ _ _ _)
          · exact .ok rfl

omit given items in
theorem evaluateBetween_congr {value value' low low' high high' : Option AttributeValue}
    (values : EqualIf value value') (lows : EqualIf low low') (highs : EqualIf high high') :
    evaluateBetween value low high = evaluateBetween value' low' high' := by
  cases values with
  | none => rfl
  | some values =>
      cases lows with
      | none => rfl
      | some lows =>
          cases highs with
          | none => rfl
          | some highs =>
              simp only [evaluateBetween, AttributeValue.satisfies_congr values lows,
                AttributeValue.satisfies_congr values highs]

omit given items in
theorem wrongOperand_congr (function : TestFunction) {operand operand' : Option AttributeValue}
    (operands : EqualIf operand operand') :
    wrongOperand function operand = wrongOperand function operand' := by
  cases operands with
  | none => rfl
  | some same =>
      simp only [wrongOperand, Option.map_some, AttributeValue.descriptor_eq_of_equal same]

omit given items in
theorem evaluateType_congr {subject subject' type type' : Option AttributeValue}
    (subjects : EqualIf subject subject') (types : EqualIf type type') :
    evaluateType subject type = evaluateType subject' type' := by
  have described (descriptor : String) : (subject.any fun value => value.descriptor == descriptor) =
      subject'.any fun value => value.descriptor == descriptor := by
    cases subjects with
    | none => rfl
    | some same => simp only [Option.any_some, AttributeValue.descriptor_eq_of_equal same]
  have wrong := wrongOperand_congr .attributeType types
  cases types with
  | none => rfl
  | some same =>
      cases AttributeValue.equalParts_of_equal same with
      | string text => simp only [evaluateType, described]
      | number | binary | stringSet | numberSet | binarySet | boolean | null | list | map =>
          simp only [evaluateType, wrong]

omit given items in
theorem evaluateBeginsWith_congr {subject subject' start start' : Option AttributeValue}
    (subjects : EqualIf subject subject') (starts : EqualIf start start') :
    evaluateBeginsWith subject start = evaluateBeginsWith subject' start' := by
  have wrong := wrongOperand_congr .beginsWith starts
  cases starts with
  | none => rfl
  | some same =>
      cases AttributeValue.equalParts_of_equal same with
      | string | binary =>
          cases subjects with
          | none => rfl
          | some values =>
              simp only [evaluateBeginsWith, Option.any_some,
                AttributeValue.beginsWith_congr values same]
      | number | stringSet | numberSet | binarySet | boolean | null | list | map =>
          simp only [evaluateBeginsWith, wrong]

omit given items in
theorem evaluateContains_congr {subject subject' part part' : Option AttributeValue}
    (subjects : EqualIf subject subject') (parts : EqualIf part part') :
    evaluateContains subject part = evaluateContains subject' part' := by
  cases subjects with
  | none => rfl
  | some subjects =>
      cases parts with
      | none => rfl
      | some parts => exact AttributeValue.contains_congr subjects parts

theorem alike_anyEqual {value value' : AttributeValue} (same : value.equal value' = true) :
    ∀ candidates : List Operand, GoAlike Eq (anyEqual bindings item value candidates)
      (anyEqual others other value' candidates)
  | [] => .ok rfl
  | candidate :: rest => by
      refine (candidate.alike_evaluate given items).bind fun _ _ found => ?_
      cases found with
      | none => exact alike_anyEqual same rest
      | some found =>
          dsimp only
          rw [AttributeValue.beq_congr same found]
          split
          · exact .ok rfl
          · exact alike_anyEqual same rest

/-- One case for each form of condition: the parts go alike, and what is made of them does not
depend on how they are spelled. -/
theorem alike_evaluate : ∀ condition : Condition,
    GoAlike Eq (condition.evaluate bindings item) (condition.evaluate others other)
  | .compare left comparator right => by
      refine (left.alike_evaluate given items).bind fun _ _ lefts => ?_
      refine (right.alike_evaluate given items).bind fun _ _ rights => ?_
      cases lefts with
      | none => exact .ok rfl
      | some lefts =>
          cases rights with
          | none => exact .ok rfl
          | some rights => exact .ok (AttributeValue.satisfies_congr lefts rights comparator)
  | .between value low high => by
      refine (low.alike_evaluate given items).bind fun _ _ lows => ?_
      refine (high.alike_evaluate given items).bind fun _ _ highs => ?_
      refine (alike_checkBounds lows highs).bind fun _ _ _ => ?_
      exact (value.alike_evaluate given items).bind fun _ _ values =>
        .ok (evaluateBetween_congr values lows highs)
  | .among value candidates => by
      refine (value.alike_evaluate given items).bind fun _ _ values => ?_
      cases values with
      | none => exact .ok rfl
      | some same => exact alike_anyEqual given items same candidates
  | .logical .and left right => by
      refine (alike_evaluate left).bind fun holds _ same => ?_
      cases same
      cases holds with
      | true => exact alike_evaluate right
      | false => exact .ok rfl
  | .logical .or left right => by
      refine (alike_evaluate left).bind fun holds _ same => ?_
      cases same
      cases holds with
      | true => exact .ok rfl
      | false => exact alike_evaluate right
  | .not inner => (alike_evaluate inner).bind fun _ _ same => .ok (by rw [same])
  | .attributeExists target => (Bindings.alike_lookup given items target).bind fun _ _ found => by
      cases found <;> exact .ok rfl
  | .attributeNotExists target =>
      (Bindings.alike_lookup given items target).bind fun _ _ found => by
        cases found <;> exact .ok rfl
  | .attributeType target type =>
      (Bindings.alike_lookup given items target).bind fun _ _ subjects =>
        (type.alike_evaluate given items).bind fun _ _ types =>
          .of_eq (evaluateType_congr subjects types)
  | .beginsWith target start =>
      (Bindings.alike_lookup given items target).bind fun _ _ subjects =>
        (start.alike_evaluate given items).bind fun _ _ starts =>
          .of_eq (evaluateBeginsWith_congr subjects starts)
  | .contains target part =>
      (Bindings.alike_lookup given items target).bind fun _ _ subjects =>
        (part.alike_evaluate given items).bind fun _ _ parts =>
          .ok (evaluateContains_congr subjects parts)

end Condition

end Alike
end ItemStore
