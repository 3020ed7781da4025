import ItemStore.Proofs.Number.Grammar
import Mathlib.Data.Nat.Digits.Lemmas

/-!
The one text of a number. A plain text has no power of ten, no sign but a minus, and no zero that
could be left out; every number that can be stored is written so, and no other plain text but
`-0` denotes the same number.
-/

namespace ItemStore

namespace Numeral

structure Unpadded (text : List Char) : Prop extends Digits text where
  front : text.head? = some '0' → text = ['0']

structure Trimmed (text : List Char) : Prop extends Digits text where
  back : text.getLast? ≠ some '0'

/-- `-?(0|[1-9][0-9]*)(\.[0-9]*[1-9])?` -/
@[mk_iff]
inductive Plain : List Char → Prop
  | number (negative : Bool) {whole : List Char} {fraction : Option (List Char)}
      (unpadded : Unpadded whole) (trimmed : ∀ digits ∈ fraction, Trimmed digits) :
      Plain (spell negative whole fraction)

/-! Digits are told by the number that they denote: how many there are after a point, and what they
are before and after it. -/

def figures (digits : List Char) : List Nat :=
  (digits.map fun c => c.toNat - '0'.toNat).reverse

theorem natural_singleton (c : Char) : natural [c] = c.toNat - '0'.toNat := by
  simp [natural, Nat.ofDigitChars_cons]

theorem natural_eq_ofDigits (digits : List Char) :
    natural digits = Nat.ofDigits 10 (figures digits) := by
  induction digits with
  | nil => rfl
  | cons c rest ih =>
      have split : figures (c :: rest) = figures rest ++ [c.toNat - '0'.toNat] := by
        simp [figures]
      have length : (figures rest).length = rest.length := by simp [figures]
      rw [← List.singleton_append, natural_append, ih, natural_singleton, List.singleton_append,
        split, Nat.ofDigits_append, Nat.ofDigits_singleton, length, Nat.add_comm]

section Figures

variable {digits others : List Char}

theorem code_of_isDigit {c : Char} (digit : c.isDigit = true) : 48 ≤ c.toNat ∧ c.toNat ≤ 57 := by
  simpa [Char.isDigit, UInt32.le_iff_toNat_le] using digit

theorem figures_lt (given : ∀ c ∈ digits, c.isDigit = true) : ∀ figure ∈ figures digits,
    figure < 10 := by
  intro figure member
  obtain ⟨c, listed, rfl⟩ := List.mem_map.mp (List.mem_reverse.mp member)
  have bounds := code_of_isDigit (given c listed)
  have zero : '0'.toNat = 48 := rfl
  omega

theorem eq_of_figures_eq (given : ∀ c ∈ digits, c.isDigit = true)
    (more : ∀ c ∈ others, c.isDigit = true) (same : figures digits = figures others) :
    digits = others := by
  have worth := List.reverse_inj.mp same
  induction digits generalizing others with
  | nil => exact (List.map_eq_nil_iff.mp worth.symm).symm
  | cons c rest ih =>
      cases others with
      | nil => cases worth
      | cons d tail =>
          rw [List.map_cons, List.map_cons, List.cons.injEq] at worth
          obtain ⟨first, given⟩ := List.forall_mem_cons.mp given
          obtain ⟨second, more⟩ := List.forall_mem_cons.mp more
          have one := code_of_isDigit first
          have two := code_of_isDigit second
          have zero : '0'.toNat = 48 := rfl
          have codes : c.toNat = d.toNat := by omega
          rw [Char.toNat_inj.mp codes,
            ih given more (List.reverse_inj.mpr worth.2) worth.2]

theorem natural_lt (given : ∀ c ∈ digits, c.isDigit = true) :
    natural digits < 10 ^ digits.length := by
  have bound := Nat.ofDigits_lt_base_pow_length (by decide) (figures_lt given)
  rwa [← natural_eq_ofDigits, figures, List.length_reverse, List.length_map] at bound

theorem eq_of_length_eq (given : ∀ c ∈ digits, c.isDigit = true)
    (more : ∀ c ∈ others, c.isDigit = true) (lengths : digits.length = others.length)
    (same : natural digits = natural others) : digits = others := by
  rw [natural_eq_ofDigits, natural_eq_ofDigits] at same
  refine eq_of_figures_eq given more (Nat.ofDigits_inj_of_len_eq (by decide) ?_ (figures_lt given)
    (figures_lt more) same)
  simpa [figures] using lengths

theorem Unpadded.figures_eq (unpadded : Unpadded digits) :
    figures digits = if digits = ['0'] then [0] else Nat.digits 10 (natural digits) := by
  split
  · rename_i zero
    rw [zero]
    rfl
  · rename_i nonzero
    rw [natural_eq_ofDigits]
    refine (Nat.digits_ofDigits 10 (by decide) _ (figures_lt unpadded.digit) fun begun => ?_).symm
    obtain ⟨c, rest, rfl⟩ := List.exists_cons_of_ne_nil unpadded.begun
    have digit := code_of_isDigit (unpadded.digit c List.mem_cons_self)
    have zero : '0'.toNat = 48 := rfl
    simp only [figures, List.map_cons, List.reverse_cons, List.getLast_concat]
    intro worthless
    have first : c = '0' := Char.toNat_inj.mp (by omega)
    exact nonzero (unpadded.front (congrArg some first))

theorem unpadded_zero : Unpadded ['0'] :=
  ⟨⟨by simp, List.all_eq_true.mp rfl⟩, fun _ => rfl⟩

theorem Unpadded.natural_eq_zero_iff (unpadded : Unpadded digits) :
    natural digits = 0 ↔ digits = ['0'] := by
  constructor
  · intro zero
    by_contra nonzero
    have none := unpadded.figures_eq
    rw [if_neg nonzero, zero, Nat.digits_zero, figures, List.reverse_eq_nil_iff,
      List.map_eq_nil_iff] at none
    exact unpadded.begun none
  · rintro rfl
    rfl

theorem Unpadded.eq_of_natural_eq (first : Unpadded digits) (second : Unpadded others)
    (same : natural digits = natural others) : digits = others := by
  by_cases zero : digits = ['0']
  · have none := first.natural_eq_zero_iff.mpr zero
    rw [zero, second.natural_eq_zero_iff.mp (same ▸ none)]
  · have nonzero : others ≠ ['0'] := fun zeros =>
      zero (first.natural_eq_zero_iff.mp (same.trans (second.natural_eq_zero_iff.mpr zeros)))
    refine eq_of_figures_eq first.digit second.digit ?_
    rw [first.figures_eq, second.figures_eq, if_neg zero, if_neg nonzero, same]

theorem Trimmed.natural_mod (trimmed : Trimmed digits) (front : List Char) :
    natural (front ++ digits) % 10 ≠ 0 := by
  have ends := List.dropLast_concat_getLast trimmed.begun
  have last := List.getLast?_eq_getLast_of_ne_nil trimmed.begun
  generalize digits.getLast trimmed.begun = c at ends last
  have digit := code_of_isDigit (trimmed.digit c (List.mem_of_getLast? last))
  have zero : '0'.toNat = 48 := rfl
  have different : c.toNat ≠ '0'.toNat := fun same =>
    trimmed.back (last.trans (congrArg some (Char.toNat_inj.mp same)))
  rw [← ends, ← List.append_assoc, natural_append, natural_singleton, List.length_singleton]
  omega

end Figures

section Plain

variable {whole first second : List Char} {fraction one two : Option (List Char)}

def magnitude (whole : List Char) (fraction : Option (List Char)) : ℚ :=
  natural (whole ++ fraction.getD []) / 10 ^ (fraction.getD []).length

theorem magnitude_nonneg (whole : List Char) (fraction : Option (List Char)) :
    0 ≤ magnitude whole fraction := by
  unfold magnitude
  positivity

theorem magnitude_eq_iff : magnitude first one = magnitude second two ↔
    natural (first ++ one.getD []) * 10 ^ (two.getD []).length =
      natural (second ++ two.getD []) * 10 ^ (one.getD []).length := by
  rw [magnitude, magnitude, div_eq_div_iff (by positivity) (by positivity)]
  norm_cast

theorem isDigit_of_trimmed (trimmed : ∀ digits ∈ fraction, Trimmed digits) :
    ∀ c ∈ fraction.getD [], c.isDigit = true := by
  cases fraction with
  | none => simp
  | some digits => exact (trimmed digits rfl).digit

theorem places_le (trimmed : ∀ digits ∈ fraction, Trimmed digits) {size places : Nat}
    (same : natural (whole ++ fraction.getD []) * 10 ^ places =
      size * 10 ^ (fraction.getD []).length) : (fraction.getD []).length ≤ places := by
  cases fraction with
  | none => exact Nat.zero_le _
  | some digits =>
      by_contra fewer
      rw [Option.getD_some] at same fewer
      obtain ⟨more, split⟩ : ∃ more, digits.length = places + (more + 1) :=
        ⟨digits.length - places - 1, by omega⟩
      have tens : natural (whole ++ digits) = size * 10 ^ more * 10 := by
        refine Nat.eq_of_mul_eq_mul_right (Nat.pow_pos (n := places) (show 0 < 10 by decide)) ?_
        rw [same, split]
        ring
      exact (trimmed digits rfl).natural_mod whole (by omega)

/-- A magnitude is written in one way. -/
theorem magnitude_unique (unpadded : Unpadded first) (trimmed : ∀ digits ∈ one, Trimmed digits)
    (otherUnpadded : Unpadded second) (otherTrimmed : ∀ digits ∈ two, Trimmed digits)
    (same : magnitude first one = magnitude second two) : first = second ∧ one = two := by
  rw [magnitude_eq_iff] at same
  have lengths : (one.getD []).length = (two.getD []).length :=
    Nat.le_antisymm (places_le trimmed same) (places_le otherTrimmed same.symm)
  have more := isDigit_of_trimmed trimmed
  have further := isDigit_of_trimmed otherTrimmed
  have small := natural_lt more
  have little := natural_lt further
  rw [lengths] at same small
  have numbers := Nat.eq_of_mul_eq_mul_right (by positivity) same
  rw [natural_append, natural_append, lengths] at numbers
  have wholes : natural first = natural second := by
    have quotients := congrArg (· / 10 ^ (two.getD []).length) numbers
    simpa [Nat.mul_add_div, Nat.div_eq_of_lt small, Nat.div_eq_of_lt little] using quotients
  have places : one.getD [] = two.getD [] :=
    eq_of_length_eq more further lengths (by rw [wholes] at numbers; omega)
  refine ⟨unpadded.eq_of_natural_eq otherUnpadded wholes, ?_⟩
  cases one with
  | none =>
      cases two with
      | none => rfl
      | some digits => exact absurd places.symm (otherTrimmed digits rfl).begun
  | some digits =>
      cases two with
      | none => exact absurd places (trimmed digits rfl).begun
      | some others => exact congrArg some places

theorem zero_of_magnitude_eq_zero (unpadded : Unpadded whole)
    (trimmed : ∀ digits ∈ fraction, Trimmed digits) (zero : magnitude whole fraction = 0) :
    whole = ['0'] ∧ fraction = none := by
  have none : magnitude ['0'] none = 0 := by simp [magnitude, natural_singleton]
  exact magnitude_unique unpadded trimmed unpadded_zero (by simp) (zero.trans none.symm)

theorem signed_inj {negative other : Bool} {size another : ℚ} (nonneg : 0 ≤ size)
    (otherNonneg : 0 ≤ another) (minus : negative = true → size ≠ 0)
    (otherMinus : other = true → another ≠ 0) (same : signed negative size = signed other another) :
    negative = other ∧ size = another := by
  cases negative <;> cases other <;> simp only [signed, ↓reduceIte, Bool.false_eq_true] at same
  case false.false => exact ⟨rfl, same⟩
  case true.true => exact ⟨rfl, neg_inj.mp same⟩
  case false.true => exact absurd (by linarith) (otherMinus rfl)
  case true.false => exact absurd (by linarith) (minus rfl)

end Plain

end Numeral

/-! The digits of a number, and its text. -/

theorem Numeral.unpadded_toDigits (size : Nat) : Numeral.Unpadded (Nat.toDigits 10 size) := by
  refine ⟨⟨Nat.toDigits_ne_nil, fun c member => Nat.isDigit_of_mem_toDigits (by decide) (by decide)
    member⟩, ?_⟩
  induction size using Nat.strongRecOn with
  | ind size ih =>
      by_cases single : size < 10
      · rw [Nat.toDigits_of_lt_base single]
        intro front
        rw [Option.some.inj front]
      · rw [Nat.toDigits_of_base_le (by decide) (Nat.not_lt.mp single),
          List.head?_append_of_ne_nil _ Nat.toDigits_ne_nil]
        intro front
        have zero := congrArg (Nat.ofDigitChars 10 · 0) (ih (size / 10) (by omega) front)
        rw [Nat.ofDigitChars_ten_toDigits] at zero
        have none : Nat.ofDigitChars 10 ['0'] 0 = 0 := rfl
        omega

theorem Numeral.trimmed_toDigits {size : Nat} (last : size % 10 ≠ 0) :
    Numeral.Trimmed (Nat.toDigits 10 size) := by
  refine ⟨(Numeral.unpadded_toDigits size).toDigits, fun back => last ?_⟩
  obtain ⟨before, ends⟩ := List.getLast?_eq_some_iff.mp back
  have tens : Numeral.natural (Nat.toDigits 10 size) = size := Nat.ofDigitChars_ten_toDigits
  rw [ends, Numeral.natural_append] at tens
  have none : Numeral.natural ['0'] = 0 := rfl
  rw [List.length_singleton] at tens
  omega

namespace Decimal

variable {number : Decimal}

theorem unpadded_digits (number : Decimal) : Numeral.Unpadded number.digits :=
  Numeral.unpadded_toDigits _

theorem trimmed_digits (nonzero : number.coefficient ≠ 0) : Numeral.Trimmed number.digits :=
  Numeral.trimmed_toDigits fun tens => nonzero (number.normal (by omega)).1

theorem digits_eq_zero_iff : number.digits = ['0'] ↔ number.coefficient = 0 := by
  have size := number.unpadded_digits.natural_eq_zero_iff
  rw [← size, Numeral.natural, ofDigitChars_digits, Int.natAbs_eq_zero]

theorem plain_magnitudeText (number : Decimal) : ∃ whole fraction,
    number.magnitudeText = Numeral.spell false whole fraction ∧ Numeral.Unpadded whole ∧
      ∀ digits ∈ fraction, Numeral.Trimmed digits := by
  have unpadded := number.unpadded_digits
  by_cases integral : 0 ≤ number.exponent
  · refine ⟨_, _, magnitudeText_integral integral, ⟨⟨by simp [unpadded.begun], ?_⟩, ?_⟩, by simp⟩
    · intro c member
      rcases List.mem_append.mp member with digit | zero
      · exact isDigit_digits digit
      · exact isDigit_replicate zero
    · rw [List.head?_append_of_ne_nil _ unpadded.begun]
      intro front
      have zero := digits_eq_zero_iff.mp (unpadded.front front)
      rw [unpadded.front front, (number.normal (by rw [zero]; rfl)).2]
      rfl
  · have nonzero : number.coefficient ≠ 0 := fun zero =>
      integral (number.normal (by rw [zero]; rfl)).2.ge
    have trimmed := trimmed_digits nonzero
    by_cases among : (-number.exponent).toNat < number.digits.length
    · refine ⟨_, _, magnitudeText_among integral among, ⟨⟨?_, ?_⟩, ?_⟩, ?_⟩
      · rw [Ne, ← List.length_eq_zero_iff, List.length_take]
        omega
      · exact fun c member => isDigit_digits (List.mem_of_mem_take member)
      · rw [List.head?_take, if_neg (by omega)]
        intro front
        exact absurd (digits_eq_zero_iff.mp (unpadded.front front)) nonzero
      · rintro _ ⟨⟩
        have some : number.digits.drop (number.digits.length - (-number.exponent).toNat) ≠ [] := by
          rw [Ne, List.drop_eq_nil_iff]
          omega
        refine ⟨⟨some, fun c member => isDigit_digits (List.mem_of_mem_drop member)⟩, ?_⟩
        rw [List.getLast?_drop, if_neg (by omega)]
        exact trimmed.back
    · refine ⟨_, _, magnitudeText_before integral among, Numeral.unpadded_zero, ?_⟩
      rintro _ ⟨⟩
      refine ⟨⟨by simp [unpadded.begun], ?_⟩, ?_⟩
      · intro c member
        rcases List.mem_append.mp member with zero | digit
        · exact isDigit_replicate zero
        · exact isDigit_digits digit
      · rw [List.getLast?_append_of_ne_nil _ unpadded.begun]
        exact trimmed.back

theorem plain_text (number : Decimal) : Numeral.Plain number.text.toList := by
  obtain ⟨whole, fraction, written, unpadded, trimmed⟩ := number.plain_magnitudeText
  rw [text_eq_spell number written]
  exact .number _ unpadded trimmed

theorem text_ne_minusZero (number : Decimal) : number.text ≠ "-0" := by
  intro minusZero
  obtain ⟨numeral, read, same⟩ := number.read?_text
  have zero : Numeral.read? "-0".toList = some ⟨true, ['0'], [], 0⟩ := rfl
  rw [minusZero, zero] at read
  cases read
  have origin : number = 0 := by
    rw [← same, Numeral.value, ofScaled]
    rfl
  rw [origin] at minusZero
  exact absurd minusZero (by decide)

end Decimal

namespace Number

open Numeral (Plain Unpadded Trimmed magnitude signed spell)

/-- The text is the plain one of the value. -/
structure CanonicalText (text : String) (value : ℚ) : Prop where
  plain : Plain text.toList
  noMinusZero : text ≠ "-0"
  spells : Spells text value

namespace CanonicalText

variable {text first second : String} {value : ℚ}

theorem parts (canonical : CanonicalText text value) : ∃ negative whole fraction,
    text.toList = spell negative whole fraction ∧ Unpadded whole ∧
      (∀ digits ∈ fraction, Trimmed digits) ∧ value = signed negative (magnitude whole fraction) ∧
      (negative = true → magnitude whole fraction ≠ 0) := by
  obtain ⟨negative, whole, fraction, unpadded, trimmed, written⟩ :=
    (Numeral.plain_iff _).mp canonical.plain
  obtain ⟨numeral, read, same⟩ := spells_iff.mp canonical.spells
  rw [written, Numeral.read?_spell negative unpadded.digit
    (Numeral.isDigit_of_trimmed trimmed) unpadded.begun] at read
  cases read
  rw [Numeral.toRat_value, zpow_zero, mul_one] at same
  refine ⟨negative, whole, fraction, written, unpadded, trimmed, same.symm, ?_⟩
  rintro rfl zero
  obtain ⟨rfl, rfl⟩ := Numeral.zero_of_magnitude_eq_zero unpadded trimmed zero
  exact canonical.noMinusZero (String.toList_inj.mp written)

theorem unique (one : CanonicalText first value) (two : CanonicalText second value) :
    first = second := by
  obtain ⟨negative, whole, fraction, written, unpadded, trimmed, size, minus⟩ := one.parts
  obtain ⟨other, another, places, otherWritten, otherUnpadded, otherTrimmed, otherSize,
    otherMinus⟩ := two.parts
  obtain ⟨rfl, sizes⟩ := Numeral.signed_inj (Numeral.magnitude_nonneg _ _)
    (Numeral.magnitude_nonneg _ _) minus otherMinus (size.symm.trans otherSize)
  obtain ⟨rfl, rfl⟩ := Numeral.magnitude_unique unpadded trimmed otherUnpadded otherTrimmed sizes
  exact String.toList_inj.mp (written.trans otherWritten.symm)

end CanonicalText

theorem canonicalText (number : Number) : CanonicalText number.text number.value.toRat :=
  ⟨number.value.plain_text, number.value.text_ne_minusZero,
    (parse_ok_iff.mp ⟨number, parse_text number, rfl⟩).1⟩

theorem eq_text_iff {number : Number} {text : String} :
    text = number.text ↔ CanonicalText text number.value.toRat := by
  constructor
  · rintro rfl
    exact number.canonicalText
  · exact fun canonical => canonical.unique number.canonicalText

theorem exists_of_storable {value : ℚ} (storable : Storable value) :
    ∃ number : Number, number.value.toRat = value := by
  obtain ⟨coefficient, exponent, _, same⟩ := storable.hasDigits
  have scaled := (Decimal.toRat_ofScaled coefficient exponent).trans same.symm
  refine ⟨⟨Decimal.ofScaled coefficient exponent, Decimal.limitError?_eq_iff.mpr ?_⟩, scaled⟩
  rw [scaled]
  exact .storable storable

section Texts

variable {a b : String} {x y : Number}

theorem canonical_of_parse (read : parse a = .ok x) : canonical a = x.text := by
  rw [canonical, read]

theorem canonical_of_error {error : NumberError} (unread : parse a = .error error) :
    canonical a = a := by
  rw [canonical, unread]

theorem parse_canonical (read : parse a = .ok x) : parse (canonical a) = .ok x := by
  rw [canonical_of_parse read, parse_text]

theorem canonical_canonical (text : String) : canonical (canonical text) = canonical text := by
  cases read : parse text with
  | error error => rw [canonical_of_error read, canonical_of_error read]
  | ok number => rw [canonical_of_parse (parse_canonical read), canonical_of_parse read]

theorem text_injective : Function.Injective text := by
  intro x y same
  have read := parse_text x
  rw [same, parse_text y] at read
  exact (Except.ok.inj read).symm

theorem canonical_eq_iff (first : parse a = .ok x) (second : parse b = .ok y) :
    canonical a = canonical b ↔ x = y := by
  rw [canonical_of_parse first, canonical_of_parse second, text_injective.eq_iff]

theorem compareTexts?_eq_iff (first : parse a = .ok x) (second : parse b = .ok y) :
    compareTexts? a b = some .eq ↔ x = y := by
  rw [compareTexts?, first, second, Option.some.injEq, Std.LawfulEqOrd.compare_eq_iff_eq]

theorem sameTexts_iff : sameTexts a b = true ↔
    ∃ number, parse a = .ok number ∧ parse b = .ok number := by
  constructor
  · intro same
    rw [sameTexts, beq_iff_eq] at same
    cases first : parse a with
    | error error => simp [compareTexts?, first] at same
    | ok x =>
        cases second : parse b with
        | error error => simp [compareTexts?, first, second] at same
        | ok y => exact ⟨x, rfl, ((compareTexts?_eq_iff first second).mp same) ▸ rfl⟩
  · rintro ⟨number, first, second⟩
    rw [sameTexts, beq_iff_eq, compareTexts?_eq_iff first second]

theorem canonical_ne_of_unread {error : NumberError} (read : parse a = .ok x)
    (unread : parse b = .error error) : canonical a ≠ b := by
  intro same
  rw [← same, parse_canonical read] at unread
  cases unread

end Texts

/-- Every value within the limits has one plain text, which is read as that value again. Texts that
are read as numbers have the same canonical text exactly if the numbers are equal, and it is plain;
any other text is its own, and that of no number. -/
theorem canonical_texts :
    (∀ value, Storable value → ∃ number : Number, number.value.toRat = value) ∧
    (∀ number : Number, Plain number.text.toList ∧ number.text ≠ "-0" ∧
      parse number.text = .ok number) ∧
    (∀ a x, parse a = .ok x → canonical (canonical a) = canonical a ∧
      ∀ text, text = canonical a ↔ CanonicalText text x.value.toRat) ∧
    (∀ a b x y, parse a = .ok x → parse b = .ok y →
      (canonical a = canonical b ↔ compareTexts? a b = some .eq)) ∧
    (∀ a error, parse a = .error error → canonical a = a ∧
      ∀ b y, parse b = .ok y → canonical b ≠ canonical a) := by
  refine ⟨fun value => exists_of_storable, fun number => ?_, fun a x read => ?_,
    fun a b x y first second => ?_, fun a error unread => ?_⟩
  · exact ⟨number.canonicalText.plain, number.canonicalText.noMinusZero, parse_text number⟩
  · refine ⟨canonical_canonical a, fun text => ?_⟩
    rw [canonical_of_parse read, eq_text_iff]
  · rw [canonical_eq_iff first second, compareTexts?_eq_iff first second]
  · refine ⟨canonical_of_error unread, fun b y read => ?_⟩
    rw [canonical_of_error unread]
    exact canonical_ne_of_unread read unread

end Number
end ItemStore
