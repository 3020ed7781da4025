import ItemStore.Proofs.Expression.Updates
import ItemStore.Proofs.Value.Valid

/-!
Updates keep items valid: what they copy has been checked, and what they compute passes the check.
-/

namespace ItemStore

theorem Number.parse_of_combined {combine : Number → Number → Except NumberError Number}
    {a b result : String}
    (combined : (do let number ← combine (← parse a) (← parse b); return number.text) =
      Except.ok result) : ∃ number, parse result = .ok number := by
  obtain ⟨_, _, combined⟩ := bind_ok combined
  obtain ⟨_, _, combined⟩ := bind_ok combined
  obtain ⟨number, _, combined⟩ := bind_ok combined
  cases combined
  exact ⟨number, parse_text number⟩

namespace AttributeValue

theorem computed_valid : Computed Valid where
  sum added := valid_number.mpr (Number.parse_of_combined added)
  difference subtracted := valid_number.mpr (Number.parse_of_combined subtracted)
  union first second joined := by
    obtain ⟨kinds, alike⟩ := sameKind_of_union? joined
    rw [valid_iff_of_isSet kinds.isSet] at first
    rw [valid_iff_of_isSet kinds.symm.isSet] at second
    exact (valid_iff_of_isSet alike.symm.isSet).mpr (sound_union? first second joined)
  rest first _ remaining more := by
    obtain ⟨kinds, alike⟩ := sameKind_of_difference? remaining
    rw [valid_iff_of_isSet kinds.isSet] at first
    exact (valid_iff_of_isSet alike.symm.isSet).mpr (sound_difference? first remaining more)

end AttributeValue

open AttributeValue (Part inherited_valid computed_valid)

/-- Whatever is updated with whatever values, if all of it passes the check, so does the result: all
its parts are sound. -/
theorem Update.apply_valid {update : Update} {bindings : Bindings} {item new : Item}
    (valid : item.validate = .ok ()) (values : Item.validate bindings.values = .ok ())
    (ok : update.apply bindings item = .ok new) :
    new.validate = .ok () ∧ ∀ part, Part part (.map new) → part.Sound := by
  have kept := inherited_valid.apply computed_valid (Item.validate_ok_iff.mp valid)
    (Item.validate_ok_iff.mp values) ok
  exact ⟨Item.validate_ok_iff.mpr kept, kept⟩

/-- A sum, a union of number sets that spell a number differently, and a difference. -/
theorem Update.apply_valid_spelledApart :
    let element : Path := ⟨.placeholder "#l", [.index 0]⟩
    let counter : Path := ⟨.literal "n", []⟩
    let update : Update := ⟨[(counter, .plus (.path counter) (.value ":half"))], [],
      [(element, ":more")], [(⟨.literal "b", []⟩, ":gone")]⟩
    let bindings : Bindings := ⟨[("#l", "l")], [(":gone", .binarySet [[2]]),
      (":half", .number "0.5"), (":more", .numberSet ["1.0", "3"])]⟩
    let item : Item := [("b", .binarySet [[1], [2]]), ("l", .list [.numberSet ["1", "2"]]),
      ("n", .number "9.5")]
    let new : Item := [("b", .binarySet [[1]]), ("l", .list [.numberSet ["1", "2", "3"]]),
      ("n", .number "10")]
    item.validate = .ok () ∧ Item.validate bindings.values = .ok () ∧
      update.apply bindings item = .ok new ∧ new.validate = .ok () ∧
      ∀ part, Part part (.map new) → part.Sound := by
  intro element counter update bindings item new
  have valid : item.validate = .ok () := ok_of_toOption (by decide +kernel)
  have values : Item.validate bindings.values = .ok () := ok_of_toOption (by decide +kernel)
  have sum : Number.addTexts "9.5" "0.5" = .ok "10" := ok_of_toOption (by decide +kernel)
  have total : SetValue.arithmetic "+" Number.addTexts (.number "9.5") (.number "0.5") =
      .ok (.number "10") := by
    rw [SetValue.arithmetic, sum]
  let raised : Item := [("b", .binarySet [[1], [2]]), ("l", .list [.numberSet ["1", "2"]]),
    ("n", .number "10")]
  have sets : update.set.foldlM (applySet bindings item) item = .ok raised := by
    change Except.bind (Except.bind
      (SetValue.arithmetic "+" Number.addTexts (.number "9.5") (.number "0.5")) _) _ = _
    rw [total]
    rfl
  have fresh : (["1.0", "3"].filter fun member => !(["1", "2"].any fun x =>
      Number.sameTexts x member)) = ["3"] := by decide +kernel
  have joined : added (some (.numberSet ["1", "2"])) (.numberSet ["1.0", "3"]) =
      .ok (.numberSet ["1", "2", "3"]) := by
    simp only [added, AttributeValue.isSet, AttributeValue.union?, fresh]
    rfl
  have adds : update.add.foldlM (applyAdd bindings) raised =
      .ok (raised.insert "l" (.list [.numberSet ["1", "2", "3"]])) := by
    rw [List.foldlM_cons, @applyAdd_eq bindings element ":more" _ _ rfl rfl raised]
    change Except.bind (Except.bind
      (added (some (.numberSet ["1", "2"])) (.numberSet ["1.0", "3"])) _) _ = _
    rw [joined]
    rfl
  have applied : update.apply bindings item = .ok new := by
    rw [apply_of_remove_nil, sets]
    change Except.bind (update.add.foldlM (applyAdd bindings) raised) _ = _
    rw [adds]
    rfl
  exact ⟨valid, values, applied, apply_valid valid values applied⟩

end ItemStore
