import ItemStore.Number.Range
import Mathlib.Data.List.TakeWhile

/-!
The text of a number is read back as that number.
-/

namespace ItemStore

namespace Decimal

theorem ofScaled_self (number : Decimal) :
    ofScaled number.coefficient number.exponent = number := by
  obtain ⟨coefficient, exponent, normal⟩ := number
  rw [ofScaled]
  split
  · rename_i zero
    have origin := (normal (by rw [show coefficient = 0 from zero]; rfl)).2
    cases zero
    cases origin
    rfl
  · rename_i nonzero
    rw [dif_neg fun zero => nonzero (normal zero).1]

theorem ofScaled_shift (coefficient exponent : Int) (places : Nat) :
    ofScaled (coefficient * Nat.pow 10 places) (exponent - places) =
      ofScaled coefficient exponent := by
  induction places with
  | zero => simp
  | succ places ih =>
      have tens : coefficient * Nat.pow 10 (places + 1) = coefficient * Nat.pow 10 places * 10 := by
        rw [Nat.pow_eq, Nat.pow_eq, Nat.pow_succ, Int.natCast_mul, Int.mul_assoc]
        rfl
      have next : exponent - (places + 1 : Nat) + 1 = exponent - places := by omega
      rw [← ih, tens]
      generalize coefficient * (Nat.pow 10 places : Int) = scaled at next
      rw [ofScaled]
      split
      · rename_i zero
        have nothing : scaled = 0 := by omega
        rw [nothing, ofScaled, if_pos rfl]
      · rw [dif_pos (by omega), Int.mul_ediv_cancel _ (by decide), next]

end Decimal

namespace Numeral

variable {stop : Char → Bool} {text : List Char}

theorem splitAt_of_none (free : ∀ c ∈ text, stop c = false) : splitAt stop text = (text, none) := by
  have taken : text.takeWhile (fun c => !stop c) = text :=
    List.takeWhile_eq_self_iff.mpr fun c member => by simp [free c member]
  have dropped : text.dropWhile (fun c => !stop c) = [] :=
    List.dropWhile_eq_nil_iff.mpr fun c member => by simp [free c member]
  rw [splitAt, taken, dropped]

theorem splitAt_of_first {c : Char} (free : ∀ c ∈ text, stop c = false) (stops : stop c = true)
    (rest : List Char) : splitAt stop (text ++ c :: rest) = (text, some rest) := by
  have open_ : ∀ c ∈ text, (!stop c) = true := fun c member => by simp [free c member]
  have taken : (text ++ c :: rest).takeWhile (fun c => !stop c) = text := by
    simp [List.takeWhile_append_of_pos open_, stops]
  have dropped : (text ++ c :: rest).dropWhile (fun c => !stop c) = c :: rest := by
    simp [List.dropWhile_append_of_pos open_, stops]
  rw [splitAt, taken, dropped]

def spell (negative : Bool) (whole : List Char) (fraction : Option (List Char)) : List Char :=
  let body := whole ++ (fraction.map ('.' :: ·)).getD []
  if negative then '-' :: body else body

theorem ne_of_isDigit {c : Char} (digit : c.isDigit = true) (other : Char)
    (different : other.isDigit = false) : c ≠ other := by
  rintro rfl
  rw [digit] at different
  cases different

theorem splitSign_spell (negative : Bool) {whole : List Char} (fraction : Option (List Char))
    (digits : ∀ c ∈ whole, c.isDigit = true) (begun : whole ≠ []) :
    splitSign (spell negative whole fraction) = (negative, spell false whole fraction) := by
  cases negative with
  | true => rfl
  | false =>
      cases whole with
      | nil => exact absurd rfl begun
      | cons c rest =>
          have digit := digits c List.mem_cons_self
          have minus := ne_of_isDigit digit '-' (by decide)
          have plus := ne_of_isDigit digit '+' (by decide)
          simp only [spell, List.cons_append]
          unfold splitSign
          split
          · rename_i same
            exact absurd (List.cons.inj same).1 minus
          · rename_i same
            exact absurd (List.cons.inj same).1 plus
          · rfl

theorem splitAt_spell {whole : List Char} {fraction : Option (List Char)}
    (digits : ∀ c ∈ whole, c.isDigit = true) :
    splitAt (· == '.') (spell false whole fraction) = (whole, fraction) := by
  have free : ∀ c ∈ whole, (c == '.') = false := fun c member =>
    beq_eq_false_iff_ne.mpr (ne_of_isDigit (digits c member) '.' (by decide))
  cases fraction with
  | none => simp [spell, splitAt_of_none free]
  | some fraction => exact splitAt_of_first free rfl fraction

theorem digit_or_point_of_mem_spell {whole : List Char} {fraction : Option (List Char)} {c : Char}
    (digits : ∀ c ∈ whole, c.isDigit = true) (more : ∀ c ∈ fraction.getD [], c.isDigit = true)
    (member : c ∈ spell false whole fraction) : c.isDigit = true ∨ c = '.' := by
  cases fraction with
  | none =>
      simp only [spell, Option.map_none, Option.getD_none, List.append_nil] at member
      exact Or.inl (digits c member)
  | some fraction =>
      rcases List.mem_append.mp member with early | late
      · exact Or.inl (digits c early)
      · rcases List.mem_cons.mp late with rfl | later
        · exact Or.inr rfl
        · exact Or.inl (more c later)

theorem unmarked {c : Char} (known : c.isDigit = true ∨ c = '.') :
    (c == 'e' || c == 'E') = false := by
  rcases known with digit | rfl
  · have small := ne_of_isDigit digit 'e' (by decide)
    have large := ne_of_isDigit digit 'E' (by decide)
    simp [small, large]
  · rfl

theorem read?_spell (negative : Bool) {whole : List Char} {fraction : Option (List Char)}
    (digits : ∀ c ∈ whole, c.isDigit = true)
    (more : ∀ c ∈ fraction.getD [], c.isDigit = true) (begun : whole ≠ []) :
    read? (spell negative whole fraction) = some ⟨negative, whole, fraction.getD [], 0⟩ := by
  have unscaled : ∀ c ∈ spell false whole fraction, (c == 'e' || c == 'E') = false :=
    fun c member => unmarked (digit_or_point_of_mem_spell digits more member)
  have wholeDigits : whole.all Char.isDigit = true := List.all_eq_true.mpr digits
  have moreDigits : (fraction.getD []).all Char.isDigit = true := List.all_eq_true.mpr more
  simp [read?, splitSign_spell negative fraction digits begun, splitAt_of_none unscaled,
    splitAt_spell digits, wholeDigits, moreDigits, begun]

end Numeral

namespace Decimal

theorem value_of_digits {number : Decimal} {whole fraction : List Char} {places : Nat}
    (digits : Nat.ofDigitChars 10 (whole ++ fraction) 0 =
      number.coefficient.natAbs * Nat.pow 10 places)
    (scale : (fraction.length : Int) = places - number.exponent) :
    Numeral.value ⟨decide (number.coefficient < 0), whole, fraction, 0⟩ = number := by
  have signed : (if number.coefficient < 0 then
        -((number.coefficient.natAbs * Nat.pow 10 places : Nat) : Int)
      else (number.coefficient.natAbs * Nat.pow 10 places : Nat)) =
        number.coefficient * Nat.pow 10 places := by
    rw [Int.natCast_mul]
    split
    · rw [← Int.neg_mul]
      congr 1
      omega
    · congr 1
      omega
  have exponent : 0 - (fraction.length : Int) = number.exponent - places := by omega
  simp only [Numeral.value, digits, decide_eq_true_eq, signed, exponent]
  rw [ofScaled_shift, ofScaled_self]

theorem text_eq_spell (number : Decimal) {whole : List Char} {fraction : Option (List Char)}
    (written : number.magnitudeText = Numeral.spell false whole fraction) :
    number.text.toList = Numeral.spell (decide (number.coefficient < 0)) whole fraction := by
  rw [text, String.toList_ofList, written]
  by_cases negative : number.coefficient < 0
  · simp [Numeral.spell, negative]
  · simp [Numeral.spell, negative]

theorem isDigit_digits {number : Decimal} {c : Char} (member : c ∈ number.digits) :
    c.isDigit = true :=
  Nat.isDigit_of_mem_toDigits (by decide) (by decide) member

theorem ofDigitChars_digits (number : Decimal) :
    Nat.ofDigitChars 10 number.digits 0 = number.coefficient.natAbs :=
  Nat.ofDigitChars_ten_toDigits

theorem read?_of_digits {number : Decimal} {whole : List Char} {fraction : Option (List Char)}
    (written : number.magnitudeText = Numeral.spell false whole fraction) (begun : whole ≠ [])
    (wholeDigits : ∀ c ∈ whole, c.isDigit = true)
    (moreDigits : ∀ c ∈ fraction.getD [], c.isDigit = true) (places : Nat)
    (digits : Nat.ofDigitChars 10 (whole ++ fraction.getD []) 0 =
      number.coefficient.natAbs * Nat.pow 10 places)
    (scale : ((fraction.getD []).length : Int) = places - number.exponent) :
    ∃ numeral, Numeral.read? number.text.toList = some numeral ∧ numeral.value = number := by
  refine ⟨_, ?_, value_of_digits digits scale⟩
  rw [text_eq_spell number written]
  exact Numeral.read?_spell _ wholeDigits moreDigits begun

theorem isDigit_replicate {count : Nat} {c : Char} (member : c ∈ List.replicate count '0') :
    c.isDigit = true := by
  rw [List.eq_of_mem_replicate member]
  rfl

section MagnitudeText

variable {number : Decimal}

theorem magnitudeText_integral (integral : 0 ≤ number.exponent) :
    number.magnitudeText =
      Numeral.spell false (number.digits ++ List.replicate number.exponent.toNat '0') none := by
  simp [magnitudeText, integral, Numeral.spell]

theorem magnitudeText_among (fractional : ¬0 ≤ number.exponent)
    (among : (-number.exponent).toNat < number.digits.length) :
    number.magnitudeText = Numeral.spell false
      (number.digits.take (number.digits.length - (-number.exponent).toNat))
      (some (number.digits.drop (number.digits.length - (-number.exponent).toNat))) := by
  simp [magnitudeText, fractional, among, Numeral.spell]

theorem magnitudeText_before (fractional : ¬0 ≤ number.exponent)
    (before : ¬(-number.exponent).toNat < number.digits.length) :
    number.magnitudeText = Numeral.spell false ['0']
      (some (List.replicate ((-number.exponent).toNat - number.digits.length) '0' ++
        number.digits)) := by
  simp [magnitudeText, fractional, before, Numeral.spell]

end MagnitudeText

theorem read?_text (number : Decimal) :
    ∃ numeral, Numeral.read? number.text.toList = some numeral ∧ numeral.value = number := by
  have begun : number.digits ≠ [] := Nat.toDigits_ne_nil
  by_cases integral : 0 ≤ number.exponent
  · refine read?_of_digits (magnitudeText_integral integral) (by simp [begun]) ?_ (by simp)
      number.exponent.toNat ?_ ?_
    · intro c member
      rcases List.mem_append.mp member with digit | zero
      · exact isDigit_digits digit
      · exact isDigit_replicate zero
    · rw [Option.getD_none, List.append_nil, Nat.ofDigitChars_append, ofDigitChars_digits,
        Nat.ofDigitChars_replicate_zero, Nat.mul_comm]
      rfl
    · rw [Option.getD_none, List.length_nil, Int.toNat_of_nonneg integral]
      omega
  · have split := List.take_append_drop (number.digits.length - (-number.exponent).toNat)
      number.digits
    by_cases among : (-number.exponent).toNat < number.digits.length
    · refine read?_of_digits (magnitudeText_among integral among) ?_ ?_ ?_ 0 ?_ ?_
      · rw [Ne, ← List.length_eq_zero_iff, List.length_take]
        omega
      · exact fun c member => isDigit_digits (List.mem_of_mem_take member)
      · exact fun c member => isDigit_digits (List.mem_of_mem_drop member)
      · rw [Option.getD_some, split, ofDigitChars_digits, Nat.pow_eq, Nat.pow_zero, Nat.mul_one]
      · rw [Option.getD_some, List.length_drop]
        omega
    · refine read?_of_digits (magnitudeText_before integral among) (by simp) ?_ ?_ 0 ?_ ?_
      · intro c member
        rw [List.mem_singleton.mp member]
        rfl
      · intro c member
        rcases List.mem_append.mp member with zero | digit
        · exact isDigit_replicate zero
        · exact isDigit_digits digit
      · rw [Option.getD_some, Nat.ofDigitChars_append, Nat.ofDigitChars_append,
          Nat.ofDigitChars_replicate_zero]
        have zero : Nat.ofDigitChars 10 ['0'] 0 = 0 := rfl
        rw [zero, Nat.mul_zero, ofDigitChars_digits, Nat.pow_eq, Nat.pow_zero, Nat.mul_one]
      · rw [Option.getD_some, List.length_append, List.length_replicate]
        omega

end Decimal

namespace Number

theorem ofDecimal_value (number : Number) : ofDecimal number.value = .ok number := by
  unfold ofDecimal
  split
  · rfl
  · rename_i error limited
    rw [number.fits] at limited
    cases limited

theorem parse_text (number : Number) : parse number.text = .ok number := by
  obtain ⟨numeral, read, same⟩ := number.value.read?_text
  rw [parse, text, read]
  simp only [same, ofDecimal_value]

end Number
end ItemStore
