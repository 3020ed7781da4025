import ItemStore.Proofs.Expression.UpdateTasks
import ItemStore.Proofs.Value.Valid

/-!
The clauses `ADD` and `DELETE` where a set stands and the operand is a set of the same type: they
leave the union and the difference, so that to repeat them, or to delete what has just been added,
comes to what the last of them does.
-/

namespace ItemStore
namespace Update

open AttributeValue (SameKind IsUnion IsDifference)

variable {bindings : Bindings} {path : Path} {placeholder : String} {location : Location}
  {item after : Item} {a b both rest : AttributeValue}

theorem added_of_union? (joined : a.union? b = some both) : added (some a) b = .ok both := by
  have kinds := (AttributeValue.sameKind_of_union? joined).1
  cases kinds <;> simp only [added, AttributeValue.isSet, Bool.and_self, if_true, joined]

theorem apply_add (bindings : Bindings) (item : Item) (action : Path × String) :
    (⟨[], [], [action], []⟩ : Update).apply bindings item = applyAdd bindings item action := by
  rw [apply_of_remove_nil]
  change Except.bind (Except.bind (applyAdd bindings item action) _) _ = _
  cases applyAdd bindings item action <;> rfl

theorem apply_delete (bindings : Bindings) (item : Item) (action : Path × String) :
    (⟨[], [], [], [action]⟩ : Update).apply bindings item = applyDelete bindings item action := by
  rw [apply_of_remove_nil]
  change Except.bind (applyDelete bindings item action) _ = _
  cases applyDelete bindings item action <;> rfl

section Clauses

variable (located : bindings.location path = .ok location)
  (given : bindings.value placeholder = .ok b)
include located given

theorem applyAdd_of_union? (holds : item.at? location = some a)
    (joined : a.union? b = some both) : applyAdd bindings item (path, placeholder) =
      Edit.carryOut item ⟨location, some both⟩ := by
  rw [applyAdd_eq given located, holds, added_of_union? joined]
  rfl

theorem applyDelete_of_difference? (holds : item.at? location = some a)
    (remaining : a.difference? b = some rest) : applyDelete bindings item (path, placeholder) =
      Edit.carryOut item ⟨location, if rest.isEmptySet then none else some rest⟩ := by
  have set := (AttributeValue.sameKind_of_difference? remaining).1.symm.isSet
  simp only [applyDelete_eq given located set, holds, remaining]
  cases rest.isEmptySet <;> rfl

variable (ordered : item.Ordered) (holds : item.at? location = some a) (first : a.Sound)
  (second : b.Sound)

include holds in
theorem at?_applyAdd (joined : a.union? b = some both)
    (ok : applyAdd bindings item (path, placeholder) = .ok after) :
    after.at? location = some both := by
  rw [applyAdd_of_union? located given holds joined] at ok
  exact Edit.at?_carryOut (Or.inr rfl) (by rw [holds]; rfl) ok

include holds in
theorem at?_applyDelete (remaining : a.difference? b = some rest)
    (settled : location.IsAttribute ∨ rest.isEmptySet = false)
    (ok : applyDelete bindings item (path, placeholder) = .ok after) :
    after.at? location = if rest.isEmptySet then none else some rest := by
  rw [applyDelete_of_difference? located given holds remaining] at ok
  exact Edit.at?_carryOut (settled.imp_right fun more => by rw [more]; rfl)
    (by rw [holds]; rfl) ok

include ordered holds first second

theorem applyAdd_again (joined : a.union? b = some both)
    (ok : applyAdd bindings item (path, placeholder) = .ok after) :
    applyAdd bindings after (path, placeholder) = .ok after := by
  have found := at?_applyAdd located given holds joined ok
  have same := AttributeValue.union?_union? first second joined
  rw [applyAdd_of_union? located given holds joined] at ok
  rw [applyAdd_of_union? located given found same,
    Edit.carryOut_carryOut ordered (by rw [holds]; rfl) ok, ok]

theorem applyDelete_applyAdd (joined : a.union? b = some both)
    (ok : applyAdd bindings item (path, placeholder) = .ok after) :
    applyDelete bindings after (path, placeholder) =
      applyDelete bindings item (path, placeholder) := by
  have found := at?_applyAdd located given holds joined ok
  obtain ⟨rest, remaining⟩ :=
    AttributeValue.exists_difference? (AttributeValue.sameKind_of_union? joined).1
  have same := AttributeValue.difference?_union? first second joined remaining
  rw [applyAdd_of_union? located given holds joined] at ok
  rw [applyDelete_of_difference? located given found same,
    applyDelete_of_difference? located given holds remaining,
    Edit.carryOut_carryOut ordered (by rw [holds]; rfl) ok]

omit second in
theorem applyDelete_again (remaining : a.difference? b = some rest)
    (settled : location.IsAttribute ∨ rest.isEmptySet = false)
    (ok : applyDelete bindings item (path, placeholder) = .ok after) :
    applyDelete bindings after (path, placeholder) = .ok after := by
  have found := at?_applyDelete located given holds remaining settled ok
  cases empty : rest.isEmptySet with
  | true =>
      have set := (AttributeValue.sameKind_of_difference? remaining).1.symm.isSet
      rw [empty] at found
      simp only [applyDelete_eq given located set, found, if_true]
  | false =>
      have same := AttributeValue.difference?_difference? first remaining empty
      rw [empty] at found
      rw [applyDelete_of_difference? located given holds remaining, empty] at ok
      rw [applyDelete_of_difference? located given found same, empty]
      exact (Edit.carryOut_carryOut ordered (by rw [holds]; rfl) ok (some rest)).trans ok

end Clauses

structure SetEffect (bindings : Bindings) (action : Path × String) (location : Location)
    (item : Item) (both rest : AttributeValue) (added deleted : Item) : Prop where
  add : (⟨[], [], [action], []⟩ : Update).apply bindings item = .ok added
  addLeaves : added.at? location = some both
  addAgain : (⟨[], [], [action], []⟩ : Update).apply bindings added = .ok added
  delete : (⟨[], [], [], [action]⟩ : Update).apply bindings item = .ok deleted
  deleteLeaves : location.IsAttribute ∨ rest.isEmptySet = false →
    deleted.at? location = if rest.isEmptySet then none else some rest
  deleteAgain : location.IsAttribute ∨ rest.isEmptySet = false →
    (⟨[], [], [], [action]⟩ : Update).apply bindings deleted = .ok deleted
  deleteAdded : (⟨[], [], [], [action]⟩ : Update).apply bindings added = .ok deleted

/-- Where a set stands, `ADD` of a set of the same type leaves their union, and `DELETE` their
difference or, if nothing remains, nothing. -/
theorem apply_add_delete {name other : String} (ordered : item.Ordered)
    (located : bindings.location path = .ok location)
    (given : bindings.value placeholder = .ok b) (holds : item.at? location = some a)
    (kinds : SameKind a b) (first : a.validate name = .ok ())
    (second : b.validate other = .ok ()) :
    ∃ both rest added deleted, IsUnion a b both ∧ IsDifference a b rest ∧
      SetEffect bindings (path, placeholder) location item both rest added deleted := by
  have soundA := (AttributeValue.valid_iff_of_isSet kinds.isSet).mp
    ((AttributeValue.validate_ok_iff name a).mp first)
  have soundB := (AttributeValue.valid_iff_of_isSet kinds.symm.isSet).mp
    ((AttributeValue.validate_ok_iff other b).mp second)
  obtain ⟨both, joined⟩ := AttributeValue.exists_union? kinds
  obtain ⟨rest, remaining⟩ := AttributeValue.exists_difference? kinds
  have stands : (item.at? location).isSome = true := by rw [holds]; rfl
  obtain ⟨added, written⟩ := Edit.carryOut_of_stands stands (some both)
  obtain ⟨deleted, left⟩ :=
    Edit.carryOut_of_stands stands (if rest.isEmptySet then none else some rest)
  rw [← applyAdd_of_union? located given holds joined] at written
  rw [← applyDelete_of_difference? located given holds remaining] at left
  refine ⟨both, rest, added, deleted, AttributeValue.isUnion_of_union? soundA soundB joined,
    AttributeValue.isDifference_of_difference? soundA soundB remaining, ?_⟩
  constructor
  case add => rw [apply_add, written]
  case addLeaves => exact at?_applyAdd located given holds joined written
  case addAgain =>
    rw [apply_add, applyAdd_again located given ordered holds soundA soundB joined written]
  case delete => rw [apply_delete, left]
  case deleteLeaves =>
    exact fun settled => at?_applyDelete located given holds remaining settled left
  case deleteAgain =>
    intro settled
    rw [apply_delete, applyDelete_again located given ordered holds soundA remaining settled left]
  case deleteAdded =>
    rw [apply_delete, applyDelete_applyAdd located given ordered holds soundA soundB joined written,
      left]

/-- Sets that spell their numbers differently, of which one has all that the other has. -/
theorem apply_add_delete_spelledApart :
    let path : Path := ⟨.literal "m", [.field (.placeholder "#s")]⟩
    let a : AttributeValue := .numberSet ["1.0", "2.5"]
    let b : AttributeValue := .numberSet ["1", "2.50", "3"]
    let bindings : Bindings := ⟨[("#s", "s")], [(":b", b)]⟩
    let item : Item := [("m", .map [("s", a)]), ("pk", .string "k")]
    let location : Location := ⟨"m", [.key "s"]⟩
    item.Ordered ∧ bindings.location path = .ok location ∧ bindings.value ":b" = .ok b ∧
      item.at? location = some a ∧ SameKind a b ∧ a.validate "s" = .ok () ∧
      b.validate ":b" = .ok () ∧ a.union? b = some (.numberSet ["1.0", "2.5", "3"]) ∧
      a.difference? b = some (.numberSet []) ∧ location.IsAttribute ∧
      ∃ both rest added deleted, IsUnion a b both ∧ IsDifference a b rest ∧
        SetEffect bindings (path, ":b") location item both rest added deleted := by
  intro path a b bindings item location
  have ordered : item.Ordered := by decide
  have located : bindings.location path = .ok location := rfl
  have given : bindings.value ":b" = .ok b := rfl
  have holds : item.at? location = some a := by
    simp [item, location, Item.at?, AttributeValue.at?, Dict.get?]
  have kinds : SameKind a b := .numbers _ _
  have first : a.validate "s" = .ok () := ok_of_toOption (by decide +kernel)
  have second : b.validate ":b" = .ok () := ok_of_toOption (by decide +kernel)
  have fresh : (["1", "2.50", "3"].filter fun member => !(["1.0", "2.5"].any fun x =>
      Number.sameTexts x member)) = ["3"] := by decide +kernel
  have kept : (["1.0", "2.5"].filter fun member => !(["1", "2.50", "3"].any fun x =>
      Number.sameTexts x member)) = [] := by decide +kernel
  have joined : a.union? b = some (.numberSet ["1.0", "2.5", "3"]) := by
    simp only [a, b, AttributeValue.union?, fresh]
    rfl
  have remaining : a.difference? b = some (.numberSet []) := by
    simp only [a, b, AttributeValue.difference?, kept]
  exact ⟨ordered, located, given, holds, kinds, first, second, joined, remaining, ⟨"s", rfl⟩,
    apply_add_delete ordered located given holds kinds first second⟩

example :
    let action : Path × String := (⟨.literal "l", [.index 0]⟩, ":s")
    let bindings : Bindings := ⟨[], [(":s", .stringSet ["x"])]⟩
    let item : Item := [("l", .list [.stringSet ["x"], .stringSet ["x", "y"]])]
    [action, action].foldlM (applyDelete bindings) item =
      .ok [("l", .list [.stringSet ["y"]])] := rfl

end Update
end ItemStore
