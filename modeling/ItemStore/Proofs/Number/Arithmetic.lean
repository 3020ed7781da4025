import ItemStore.Proofs.Number.Canonical
import ItemStore.Proofs.Outcomes

/-!
Sums and differences of written numbers are exact: the canonical text of the rational result if the
limits allow it, and otherwise the limit that it breaks.
-/

namespace ItemStore

namespace Decimal

theorem toRat_add (a b : Decimal) : (a + b).toRat = a.toRat + b.toRat := by
  change (ofScaled _ _).toRat = _
  rw [toRat_ofScaled, a.toRat_eq_coefficientAt (Int.min_le_left a.exponent b.exponent),
    b.toRat_eq_coefficientAt (Int.min_le_right a.exponent b.exponent)]
  push_cast
  ring

theorem toRat_sub (a b : Decimal) : (a - b).toRat = a.toRat - b.toRat := by
  change (ofScaled _ _).toRat = _
  rw [toRat_ofScaled, a.toRat_eq_coefficientAt (Int.min_le_left a.exponent b.exponent),
    b.toRat_eq_coefficientAt (Int.min_le_right a.exponent b.exponent)]
  push_cast
  ring

end Decimal

namespace Number

/-- What is told of a result: its canonical text if the limits allow it, otherwise which limit it
breaks. -/
inductive Told (value : ℚ) : Except NumberError String → Prop
  | exact {text : String} (within : Storable value) (canonical : CanonicalText text value) :
      Told value (.ok text)
  | refused {error : NumberError} (judged : Judged value (some error)) : Told value (.error error)

theorem Told.unique {value : ℚ} {first second : Except NumberError String}
    (one : Told value first) (two : Told value second) : first = second := by
  cases one with
  | exact within canonical =>
      cases two with
      | exact _ other => rw [canonical.unique other]
      | refused judged => cases (Judged.storable within).unique judged
  | refused judged =>
      cases two with
      | exact within _ => cases (Judged.storable within).unique judged
      | refused other => rw [Option.some.inj (judged.unique other)]

theorem storable (number : Number) : Storable number.value.toRat := by
  have judged := Decimal.limitError?_eq_iff.mp number.fits
  cases judged with
  | storable within => exact within

theorem told_text (number : Number) : Told number.value.toRat (.ok number.text) :=
  .exact number.storable number.canonicalText

theorem told_ofDecimal (value : Decimal) : Told value.toRat ((ofDecimal value).map text) := by
  cases taken : ofDecimal value with
  | error error =>
      exact .refused (Decimal.limitError?_eq_iff.mp (ofDecimal_error_iff.mp taken))
  | ok number =>
      rw [← ofDecimal_ok_iff.mp taken]
      exact number.told_text

section Texts

variable {a b : String} {x y : Number}

theorem told_addTexts (first : parse a = .ok x) (second : parse b = .ok y) :
    Told (x.value.toRat + y.value.toRat) (addTexts a b) := by
  have told := told_ofDecimal (x.value + y.value)
  rw [Decimal.toRat_add] at told
  rw [addTexts, first, second]
  exact told

theorem told_subTexts (first : parse a = .ok x) (second : parse b = .ok y) :
    Told (x.value.toRat - y.value.toRat) (subTexts a b) := by
  have told := told_ofDecimal (x.value - y.value)
  rw [Decimal.toRat_sub] at told
  rw [subTexts, first, second]
  exact told

theorem parse_of_told {value : ℚ} {text : String} (told : Told value (.ok text)) :
    ∃ number, parse text = .ok number ∧ number.value.toRat = value := by
  cases told with
  | exact within canonical => exact parse_ok_iff.mpr ⟨canonical.spells, .storable within⟩

theorem addTexts_comm (first : parse a = .ok x) (second : parse b = .ok y) :
    addTexts a b = addTexts b a := by
  have swapped := told_addTexts second first
  rw [add_comm] at swapped
  exact (told_addTexts first second).unique swapped

theorem subTexts_addTexts (first : parse a = .ok x) (second : parse b = .ok y) {sum : String}
    (added : addTexts a b = .ok sum) : subTexts sum b = .ok (canonical a) := by
  have told := told_addTexts first second
  rw [added] at told
  obtain ⟨number, read, same⟩ := parse_of_told told
  have back := told_subTexts read second
  rw [same, add_sub_cancel_right] at back
  rw [canonical_of_parse first]
  exact back.unique x.told_text

/-- The sum and the difference of two texts that are read as numbers are told exactly. Hence a
summand can be taken away again, and the summands can be exchanged. -/
theorem arithmetic_exact (first : parse a = .ok x) (second : parse b = .ok y) :
    Told (x.value.toRat + y.value.toRat) (addTexts a b) ∧
      Told (x.value.toRat - y.value.toRat) (subTexts a b) ∧
      (∀ sum, addTexts a b = .ok sum → subTexts sum b = .ok (canonical a)) ∧
      addTexts a b = addTexts b a :=
  ⟨told_addTexts first second, told_subTexts first second,
    fun _ added => subTexts_addTexts first second added, addTexts_comm first second⟩

end Texts

/-- A carry that adds a digit, and the cancellation that takes it away. -/
theorem arithmetic_exact_carry :
    let x : Number := ⟨⟨99999999999999999999999999999999999999, -3, by decide⟩, by decide⟩
    let y : Number := ⟨⟨1, -3, by decide⟩, by decide⟩
    parse "99999999999999999999999999999999999.999" = .ok x ∧ parse "1e-3" = .ok y ∧
      addTexts "99999999999999999999999999999999999.999" "1e-3" =
        .ok "100000000000000000000000000000000000" ∧
      Told (x.value.toRat + y.value.toRat)
        (addTexts "99999999999999999999999999999999999.999" "1e-3") ∧
      subTexts "100000000000000000000000000000000000" "1e-3" =
        .ok (canonical "99999999999999999999999999999999999.999") := by
  intro x y
  have first : parse "99999999999999999999999999999999999.999" = .ok x :=
    ok_of_toOption (by decide +kernel)
  have second : parse "1e-3" = .ok y := ok_of_toOption (by decide +kernel)
  have sum : addTexts "99999999999999999999999999999999999.999" "1e-3" =
      .ok "100000000000000000000000000000000000" := ok_of_toOption (by decide +kernel)
  obtain ⟨told, _, back, _⟩ := arithmetic_exact first second
  exact ⟨first, second, sum, told, back _ sum⟩

end Number
end ItemStore
